import Mathlib.Tactic.IntervalCases
import ProducerConsumer.Ring

/-!
# Payload generators

The two classes of `payload_generator.cpp`.  `fill` of a generator gives the bytes it writes to a buffer of that length
and the generator it leaves.  The vectors of the SIMD code are vectors of four words here, with the same operations on
every element.  A step of the random generator makes a block of 64 bytes, and the rest of a block that is not used up is
thrown away; so a fill may be cut after whole blocks only (`PayloadGenerator.fill_add`).
-/

namespace ProducerConsumer

/-! ### The random generator -/

def kLanes : Nat := 8

/-- The bytes of one step. -/
def kBlockBytes : Nat := kLanes * 8

def kVectors : Nat := kLanes / 4

/-- `v4u64`. -/
abbrev V4U64 := Vector U64 4

/-- `RandomPayloadGenerator::State`, the array `s[4][kLanes]`. -/
abbrev RandomState := Vector (Vector U64 kLanes) 4

/-- One of the vectors of each of the arrays `s0` to `s3` of `Lanes`. -/
structure LaneVector where
  s0 : V4U64
  s1 : V4U64
  s2 : V4U64
  s3 : V4U64
deriving DecidableEq, Repr

abbrev Lanes := Vector LaneVector kVectors

def loadVector (row : Vector U64 kLanes) (j : Fin kVectors) : V4U64 :=
  Vector.ofFn fun k => row.get ⟨4 * j + k, by simp only [kLanes, kVectors] at *; omega⟩

def loadLanes (st : RandomState) : Lanes :=
  Vector.ofFn fun j => ⟨loadVector st[0] j, loadVector st[1] j, loadVector st[2] j, loadVector st[3] j⟩

def storeRow (v : Lanes) (row : LaneVector → V4U64) : Vector U64 kLanes :=
  Vector.ofFn fun l =>
    (row (v.get ⟨l / 4, by simp only [kLanes, kVectors] at *; omega⟩)).get ⟨l % 4, Nat.mod_lt _ (by decide)⟩

def storeLanes (v : Lanes) : RandomState :=
  #v[storeRow v (·.s0), storeRow v (·.s1), storeRow v (·.s2), storeRow v (·.s3)]

/-- The body of the loop of `xoshiro_step`: its result and the new state of its lanes. -/
def LaneVector.step (v : LaneVector) : V4U64 × LaneVector :=
  let result := v.s0.zipWith (· + ·) v.s3
  let t := v.s1.map fun (x : U64) => x <<< 17
  let s2 := v.s2.zipWith (· ^^^ ·) v.s0
  let s3 := v.s3.zipWith (· ^^^ ·) v.s1
  let s1 := v.s1.zipWith (· ^^^ ·) s2
  let s0 := v.s0.zipWith (· ^^^ ·) s3
  let s2 := s2.zipWith (· ^^^ ·) t
  let s3 := s3.map fun (x : U64) => (x <<< 45) ||| (x >>> 19)
  (result, ⟨s0, s1, s2, s3⟩)

/-- `memcpy` of a vector. -/
def vectorBytes (v : V4U64) : List U8 := v.toList.flatMap fun x => LittleEndian.bytes 8 x.toNat

def xoshiroStep (v : Lanes) : List U8 × Lanes :=
  (v.toList.flatMap fun lanes => vectorBytes lanes.step.1, v.map fun lanes => lanes.step.2)

/-- The loop over the whole blocks. -/
def fillBlocks (v : Lanes) : Nat → List U8 × Lanes
  | 0 => ([], v)
  | blocks + 1 =>
    let (block, v) := xoshiroStep v
    let (rest, v) := fillBlocks v blocks
    (block ++ rest, v)

def fillImpl (state : RandomState) (size : Nat) : List U8 × RandomState :=
  let (out, v) := fillBlocks (loadLanes state) (size / kBlockBytes)
  let remaining := size % kBlockBytes
  if remaining ≠ 0 then
    let (block, v) := xoshiroStep v
    (out ++ block.take remaining, storeLanes v)
  else (out, storeLanes v)

def fillPortable (state : RandomState) (size : Nat) : List U8 × RandomState := fillImpl state size

/-- The same loop, compiled for AVX2. -/
def fillAvx2 (state : RandomState) (size : Nat) : List U8 × RandomState := fillImpl state size

/-! ### The generators -/

def fillSequential (next : U8) : Nat → List U8 × U8
  | 0 => ([], next)
  | size + 1 =>
    let (rest, value) := fillSequential (next + 1) size
    (next :: rest, value)

/-- `RandomPayloadGenerator` with its fields `state_` and `avx2_`, or `SequentialPayloadGenerator` with `next_`. -/
inductive PayloadGenerator
  | random (state : RandomState) (avx2 : Bool)
  | sequential (next : U8)
deriving DecidableEq, Repr

def PayloadGenerator.fill (generator : PayloadGenerator) (size : Nat) : List U8 × PayloadGenerator :=
  match generator with
  | random state avx2 =>
    let (payload, state) := if avx2 then fillAvx2 state size else fillPortable state size
    (payload, random state avx2)
  | sequential next =>
    let (payload, next) := fillSequential next size
    (payload, sequential next)

/-- Successive calls of `fill`. -/
def PayloadGenerator.fillPieces (generator : PayloadGenerator) : List Nat → List U8 × PayloadGenerator
  | [] => ([], generator)
  | size :: sizes =>
    let (piece, generator) := generator.fill size
    let (rest, generator) := fillPieces generator sizes
    (piece ++ rest, generator)

/-! ### Lengths -/

theorem length_vectorBytes (v : V4U64) : (vectorBytes v).length = 32 := by
  simp [vectorBytes, List.length_flatMap]

theorem length_xoshiroStep (v : Lanes) : (xoshiroStep v).1.length = kBlockBytes := by
  have hlen : v.toList.length = kVectors := v.length_toList
  simp only [xoshiroStep, List.length_flatMap, length_vectorBytes, List.map_const', hlen]
  rfl

theorem length_fillBlocks (v : Lanes) (blocks : Nat) : (fillBlocks v blocks).1.length = kBlockBytes * blocks := by
  induction blocks generalizing v with
  | zero => rfl
  | succ blocks ih =>
    rw [fillBlocks, List.length_append, length_xoshiroStep, ih, Nat.mul_succ, Nat.add_comm]

theorem length_fillImpl (state : RandomState) (size : Nat) : (fillImpl state size).1.length = size := by
  have hdiv := Nat.div_add_mod size kBlockBytes
  have hlt : size % kBlockBytes < kBlockBytes := Nat.mod_lt _ (by decide)
  unfold fillImpl
  dsimp only
  split
  · rw [List.length_append, length_fillBlocks, List.length_take, length_xoshiroStep]
    omega
  · rw [length_fillBlocks]
    omega

theorem length_fillSequential (next : U8) (size : Nat) : (fillSequential next size).1.length = size := by
  induction size generalizing next with
  | zero => rfl
  | succ size ih => rw [fillSequential, List.length_cons, ih]

/-- A generator fills the whole buffer, and nothing beyond it. -/
@[simp] theorem PayloadGenerator.length_fill (generator : PayloadGenerator) (size : Nat) :
    (generator.fill size).1.length = size := by
  cases generator with
  | random state avx2 => cases avx2 <;> exact length_fillImpl state size
  | sequential next => exact length_fillSequential next size

/-! ### Pieces -/

theorem get_ofFn {α : Type} {n : Nat} (f : Fin n → α) (i : Fin n) : (Vector.ofFn f).get i = f i :=
  Vector.getElem_ofFn i.isLt

theorem loadVector_storeRow (v : Lanes) (row : LaneVector → V4U64) (j : Fin kVectors) :
    loadVector (storeRow v row) j = row (v.get j) := by
  apply Vector.ext
  intro k hk
  have hdiv : (4 * j.val + k) / 4 = j := by omega
  have hmod : (4 * j.val + k) % 4 = k := by omega
  rw [loadVector, Vector.getElem_ofFn, storeRow, get_ofFn]
  simp only [hdiv, hmod]
  rfl

theorem storeRow_loadVector (st : RandomState) (row : LaneVector → V4U64) (i : Fin 4)
    (h : ∀ j, row ((loadLanes st).get j) = loadVector (st.get i) j) : storeRow (loadLanes st) row = st.get i := by
  apply Vector.ext
  intro l hl
  rw [storeRow, Vector.getElem_ofFn, h, loadVector, get_ofFn]
  have hidx : 4 * (l / 4) + l % 4 = l := Nat.div_add_mod l 4
  simp only [hidx]
  rfl

theorem loadLanes_storeLanes (v : Lanes) : loadLanes (storeLanes v) = v := by
  apply Vector.ext
  intro j hj
  have hrow (row : LaneVector → V4U64) := loadVector_storeRow v row ⟨j, hj⟩
  have hlane : (loadLanes (storeLanes v))[j] = ⟨loadVector (storeRow v (·.s0)) ⟨j, hj⟩,
      loadVector (storeRow v (·.s1)) ⟨j, hj⟩, loadVector (storeRow v (·.s2)) ⟨j, hj⟩,
      loadVector (storeRow v (·.s3)) ⟨j, hj⟩⟩ := Vector.getElem_ofFn hj
  rw [hlane, hrow, hrow, hrow, hrow]
  rfl

theorem storeLanes_loadLanes (st : RandomState) : storeLanes (loadLanes st) = st := by
  have hget (j : Fin kVectors) : (loadLanes st).get j =
      ⟨loadVector st[0] j, loadVector st[1] j, loadVector st[2] j, loadVector st[3] j⟩ := get_ofFn _ j
  apply Vector.ext
  intro i hi
  have h0 := storeRow_loadVector st (·.s0) 0 fun j => by rw [hget]; rfl
  have h1 := storeRow_loadVector st (·.s1) 1 fun j => by rw [hget]; rfl
  have h2 := storeRow_loadVector st (·.s2) 2 fun j => by rw [hget]; rfl
  have h3 := storeRow_loadVector st (·.s3) 3 fun j => by rw [hget]; rfl
  rw [storeLanes, h0, h1, h2, h3]
  interval_cases i <;> rfl

theorem fillBlocks_succ (v : Lanes) (blocks : Nat) :
    fillBlocks v (blocks + 1) = ((xoshiroStep v).1 ++ (fillBlocks (xoshiroStep v).2 blocks).1,
      (fillBlocks (xoshiroStep v).2 blocks).2) := rfl

theorem fillBlocks_add (v : Lanes) (m n : Nat) :
    fillBlocks v (m + n) = ((fillBlocks v m).1 ++ (fillBlocks (fillBlocks v m).2 n).1,
      (fillBlocks (fillBlocks v m).2 n).2) := by
  induction m generalizing v with
  | zero => simp [fillBlocks]
  | succ m ih => rw [Nat.succ_add, fillBlocks_succ, ih, fillBlocks_succ, List.append_assoc]

/-- The states between two fills are the states of one fill, if the first one ends with a whole block. -/
theorem fillImpl_add (state : RandomState) {m n : Nat} (h : kBlockBytes ∣ m) :
    fillImpl state (m + n) = ((fillImpl state m).1 ++ (fillImpl (fillImpl state m).2 n).1,
      (fillImpl (fillImpl state m).2 n).2) := by
  obtain ⟨k, rfl⟩ := h
  have hpos : 0 < kBlockBytes := by decide
  have hwhole : fillImpl state (kBlockBytes * k) =
      ((fillBlocks (loadLanes state) k).1, storeLanes (fillBlocks (loadLanes state) k).2) := by
    rw [fillImpl, Nat.mul_div_cancel_left k hpos, Nat.mul_mod_right]
    rfl
  rw [hwhole]
  simp only [fillImpl, loadLanes_storeLanes, Nat.mul_add_div hpos, Nat.mul_add_mod, fillBlocks_add]
  split
  · rw [List.append_assoc]
  · rfl

theorem fillSequential_add (next : U8) (m n : Nat) :
    fillSequential next (m + n) = ((fillSequential next m).1 ++ (fillSequential (fillSequential next m).2 n).1,
      (fillSequential (fillSequential next m).2 n).2) := by
  induction m generalizing next with
  | zero => simp [fillSequential]
  | succ m ih => rw [Nat.succ_add, fillSequential, ih, fillSequential, List.cons_append]

namespace PayloadGenerator

/-- A fill of nothing changes nothing. -/
theorem fill_zero (generator : PayloadGenerator) : generator.fill 0 = ([], generator) := by
  cases generator with
  | random state avx2 =>
    have hzero : fillImpl state 0 = ([], state) := by
      have hnil : fillImpl state 0 = ([], storeLanes (loadLanes state)) := rfl
      rw [hnil, storeLanes_loadLanes]
    cases avx2 <;> simp [fill, fillAvx2, fillPortable, hzero]
  | sequential next => rfl

/-- Two fills are one, if the first one is of whole blocks. -/
theorem fill_add (generator : PayloadGenerator) {m n : Nat} (h : kBlockBytes ∣ m) :
    generator.fill (m + n) = ((generator.fill m).1 ++ ((generator.fill m).2.fill n).1, ((generator.fill m).2.fill n).2) := by
  cases generator with
  | random state avx2 => cases avx2 <;> simp [fill, fillAvx2, fillPortable, fillImpl_add state h]
  | sequential next => simp [fill, fillSequential_add next m n]

theorem fillPieces_cons (generator : PayloadGenerator) (size : Nat) (sizes : List Nat) :
    generator.fillPieces (size :: sizes) = ((generator.fill size).1 ++ ((generator.fill size).2.fillPieces sizes).1,
      ((generator.fill size).2.fillPieces sizes).2) := rfl

/-- Pieces of whole blocks and a last one are one fill. -/
theorem fillPieces_eq_fill (generator : PayloadGenerator) {sizes : List Nat} (h : ∀ size ∈ sizes, kBlockBytes ∣ size)
    (last : Nat) : generator.fillPieces (sizes ++ [last]) = generator.fill (sizes.sum + last) := by
  induction sizes generalizing generator with
  | nil => simp [fillPieces]
  | cons size sizes ih =>
    have hsize := h size (List.mem_cons_self ..)
    have hrest := ih (generator.fill size).2 fun n hn => h n (List.mem_cons_of_mem _ hn)
    rw [List.cons_append, fillPieces_cons, hrest, List.sum_cons, Nat.add_assoc, fill_add generator hsize]

end PayloadGenerator

end ProducerConsumer
