import ProducerConsumer.Generator
import ProducerConsumer.Lib.Xoshiro

/-!
# The random generator as eight streams

A lane is one column of the state.  A step of the vectors is a step of xoshiro256+ in each lane, and a block holds the
outputs of the eight lanes one after the other.
-/

namespace ProducerConsumer

open Xoshiro

/-! ### Lanes -/

/-- Lane `l` of the state. -/
def RandomState.lane (state : RandomState) (l : Fin kLanes) : State :=
  ⟨(state.get 0).get l, (state.get 1).get l, (state.get 2).get l, (state.get 3).get l⟩

/-- Element `k` of one of the vectors. -/
def LaneVector.lane (v : LaneVector) (k : Fin 4) : State := ⟨v.s0.get k, v.s1.get k, v.s2.get k, v.s3.get k⟩

theorem vector_lt (l : Fin kLanes) : l.val / 4 < kVectors :=
  Nat.div_lt_of_lt_mul l.isLt

theorem element_lt (l : Fin kLanes) : l.val % 4 < 4 :=
  Nat.mod_lt _ (by decide)

/-- Lane `l` of the vectors. -/
def lanesLane (v : Lanes) (l : Fin kLanes) : State :=
  (v.get ⟨l / 4, vector_lt l⟩).lane ⟨l % 4, element_lt l⟩

theorem get_zipWith {n : Nat} (f : U64 → U64 → U64) (a b : Vector U64 n) (i : Fin n) :
    (a.zipWith f b).get i = f (a.get i) (b.get i) :=
  Vector.getElem_zipWith i.isLt

theorem get_map {α β : Type} {n : Nat} (f : α → β) (a : Vector α n) (i : Fin n) : (a.map f).get i = f (a.get i) :=
  Vector.getElem_map f i.isLt

/-- The element-wise operations of a step are those of the scalar generator. -/
theorem LaneVector.step_lane (v : LaneVector) (k : Fin 4) :
    v.step.1.get k = (v.lane k).result ∧ v.step.2.lane k = (v.lane k).next := by
  constructor
  · exact get_zipWith _ _ _ k
  · simp only [LaneVector.step, LaneVector.lane, get_zipWith, get_map, State.next]
    rfl

theorem lanesLane_storeLanes (v : Lanes) (l : Fin kLanes) : (storeLanes v).lane l = lanesLane v l := by
  have hrow (row : LaneVector → V4U64) : (storeRow v row).get l =
      (row (v.get ⟨l / 4, vector_lt l⟩)).get ⟨l % 4, element_lt l⟩ := get_ofFn _ l
  have hlane : (storeLanes v).lane l = ⟨(storeRow v (·.s0)).get l, (storeRow v (·.s1)).get l,
      (storeRow v (·.s2)).get l, (storeRow v (·.s3)).get l⟩ := rfl
  rw [hlane, hrow, hrow, hrow, hrow]
  rfl

theorem lanesLane_loadLanes (state : RandomState) (l : Fin kLanes) : lanesLane (loadLanes state) l = state.lane l := by
  rw [← lanesLane_storeLanes, storeLanes_loadLanes]

theorem lanesLane_step (v : Lanes) (l : Fin kLanes) : lanesLane (xoshiroStep v).2 l = (lanesLane v l).next := by
  unfold lanesLane xoshiroStep
  rw [get_map]
  exact (LaneVector.step_lane _ _).2

/-- The lanes advance by one step for each block. -/
theorem lanesLane_fillBlocks (v : Lanes) (blocks : Nat) (l : Fin kLanes) :
    lanesLane (fillBlocks v blocks).2 l = State.next^[blocks] (lanesLane v l) := by
  induction blocks generalizing v with
  | zero => rfl
  | succ blocks ih => rw [fillBlocks_succ, ih, lanesLane_step, Function.iterate_succ_apply]

/-! ### Bytes -/

/-- Byte `m` of a word, the least significant one first. -/
def wordByte (x : U64) (m : Nat) : U8 := (x >>> (8 * m)).setWidth 8

/-- Pieces of one length, joined: the index splits into the number of the piece and the index in it. -/
theorem getElem?_flatMap {α β : Type} {f : α → List β} {n : Nat} (hpos : 0 < n) (hlen : ∀ a, (f a).length = n)
    (l : List α) (i : Nat) : (l.flatMap f)[i]? = l[i / n]?.bind fun a => (f a)[i % n]? := by
  induction l generalizing i with
  | nil => rfl
  | cons a l ih =>
    rw [List.flatMap_cons]
    by_cases hi : i < n
    · rw [List.getElem?_append_left (by rwa [hlen]), Nat.div_eq_of_lt hi, Nat.mod_eq_of_lt hi]
      rfl
    · obtain ⟨j, rfl⟩ : ∃ j, i = j + n := ⟨i - n, by omega⟩
      rw [List.getElem?_append_right (by rw [hlen]; omega), hlen, Nat.add_sub_cancel, ih, Nat.add_div_right j hpos,
        Nat.add_mod_right]
      rfl

theorem bytes_getElem? (n v i : Nat) (hi : i < n) :
    (LittleEndian.bytes n v)[i]? = some (BitVec.ofNat 8 (v / 256 ^ i)) := by
  induction n generalizing v i with
  | zero => omega
  | succ n ih =>
    rw [LittleEndian.bytes]
    cases i with
    | zero => simp
    | succ i => rw [List.getElem?_cons_succ, ih _ _ (by omega), Nat.div_div_eq_div_mul, pow_succ']

/-- Byte `m` of the little-endian bytes of a word. -/
theorem word_bytes (x : U64) {m : Nat} (hm : m < 8) : (LittleEndian.bytes 8 x.toNat)[m]? = some (wordByte x m) := by
  rw [bytes_getElem? 8 _ m hm, wordByte, Option.some.injEq]
  apply BitVec.eq_of_toNat_eq
  rw [BitVec.toNat_ofNat, BitVec.toNat_setWidth, BitVec.toNat_ushiftRight, Nat.shiftRight_eq_div_pow, Nat.pow_mul]

theorem toList_getElem? {α : Type} {n : Nat} (v : Vector α n) {i : Nat} (hi : i < n) :
    v.toList[i]? = some (v.get ⟨i, hi⟩) := by
  rw [List.getElem?_eq_getElem (by rw [Vector.length_toList]; exact hi), Vector.getElem_toList]
  rfl

theorem vectorBytes_getElem? (v : V4U64) {i : Nat} (hi : i < 32) :
    (vectorBytes v)[i]? = some (wordByte (v.get ⟨i / 8, by omega⟩) (i % 8)) := by
  have hlen : ∀ x : U64, (LittleEndian.bytes 8 x.toNat).length = 8 := fun x => LittleEndian.length_bytes 8 x.toNat
  rw [vectorBytes, getElem?_flatMap (by decide) hlen, toList_getElem? v (show i / 8 < 4 by omega), Option.bind_some,
    word_bytes _ (Nat.mod_lt _ (by decide))]

/-- Byte `i` of a block is in the output of lane `i / 8`. -/
theorem xoshiroStep_getElem? (v : Lanes) {i : Nat} (hi : i < kBlockBytes) :
    (xoshiroStep v).1[i]? = some (wordByte (lanesLane v ⟨i / 8, by simp only [kBlockBytes] at hi; omega⟩).result
      (i % 8)) := by
  have hlen : ∀ lanes : LaneVector, (vectorBytes lanes.step.1).length = 32 := fun lanes => length_vectorBytes _
  have hvector : i / 32 < kVectors := by
    simp only [kBlockBytes, kLanes, kVectors] at *
    omega
  have hword : i % 32 / 8 = i / 8 % 4 := by omega
  have hlane : i / 8 / 4 = i / 32 := by omega
  have hbyte : i % 32 % 8 = i % 8 := by omega
  simp only [xoshiroStep]
  rw [getElem?_flatMap (by decide) hlen, toList_getElem? v hvector, Option.bind_some,
    vectorBytes_getElem? _ (Nat.mod_lt _ (by decide)), (LaneVector.step_lane _ _).1, hbyte]
  simp only [lanesLane, hword, hlane]

/-- Byte `i` of whole blocks comes from block `i / 64`. -/
theorem fillBlocks_getElem? (v : Lanes) {blocks i : Nat} (hi : i < kBlockBytes * blocks) :
    (fillBlocks v blocks).1[i]? = (xoshiroStep (fillBlocks v (i / kBlockBytes)).2).1[i % kBlockBytes]? := by
  have hpos : 0 < kBlockBytes := by decide
  induction blocks generalizing v i with
  | zero => omega
  | succ blocks ih =>
    rw [fillBlocks_succ]
    by_cases hfirst : i < kBlockBytes
    · rw [List.getElem?_append_left (by rwa [length_xoshiroStep]), Nat.div_eq_of_lt hfirst, Nat.mod_eq_of_lt hfirst]
      rfl
    · obtain ⟨j, rfl⟩ : ∃ j, i = j + kBlockBytes := ⟨i - kBlockBytes, by omega⟩
      have hj : j < kBlockBytes * blocks := by
        rw [Nat.mul_succ] at hi
        omega
      rw [List.getElem?_append_right (by rw [length_xoshiroStep]; omega), length_xoshiroStep, Nat.add_sub_cancel,
        ih _ hj, Nat.add_div_right j hpos, Nat.add_mod_right, fillBlocks_succ]

/-! ### A fill -/

/-- The lane that byte `i` of a payload comes from. -/
def byteLane (i : Nat) : Fin kLanes :=
  ⟨i % 64 / 8, by simp only [kLanes]; omega⟩

/-- The block number `b` after a state. -/
theorem block_getElem? (state : RandomState) (b : Nat) {i : Nat} (hi : i < kBlockBytes) :
    (xoshiroStep (fillBlocks (loadLanes state) b).2).1[i]?
      = some (wordByte ((state.lane ⟨i / 8, by simp only [kBlockBytes] at hi; omega⟩).output b) (i % 8)) := by
  rw [xoshiroStep_getElem? _ hi, lanesLane_fillBlocks, lanesLane_loadLanes]
  rfl

theorem fillImpl_getElem? (state : RandomState) {n i : Nat} (hi : i < n) :
    (fillImpl state n).1[i]? = some (wordByte ((state.lane (byteLane i)).output (i / kBlockBytes)) (i % 8)) := by
  have hmod : i % kBlockBytes < kBlockBytes := Nat.mod_lt _ (by decide)
  have hbyte : i % kBlockBytes % 8 = i % 8 := Nat.mod_mod_of_dvd i (by decide)
  have hblock := block_getElem? state (i / kBlockBytes) hmod
  rw [hbyte] at hblock
  refine Eq.trans ?_ hblock
  have hdiv := Nat.div_add_mod n kBlockBytes
  have hdivi := Nat.div_add_mod i kBlockBytes
  by_cases hwhole : i < kBlockBytes * (n / kBlockBytes)
  · have hlen : i < (fillBlocks (loadLanes state) (n / kBlockBytes)).1.length := by rwa [length_fillBlocks]
    rw [← fillBlocks_getElem? (loadLanes state) hwhole]
    unfold fillImpl
    dsimp only
    split
    · rw [List.getElem?_append_left hlen]
    · rfl
  · -- the byte is in the block of which only a part is used
    have hquot : i / kBlockBytes = n / kBlockBytes := by
      refine Nat.le_antisymm (Nat.div_le_div_right (Nat.le_of_lt hi)) ?_
      rw [Nat.le_div_iff_mul_le (by decide), Nat.mul_comm]
      exact Nat.not_lt.1 hwhole
    rw [hquot] at hdivi ⊢
    have hpart : n % kBlockBytes ≠ 0 := by omega
    simp only [fillImpl, if_pos hpart]
    rw [List.getElem?_append_right (by rw [length_fillBlocks]; omega), length_fillBlocks,
      List.getElem?_take_of_lt (by omega)]
    congr 1
    omega

theorem fillImpl_lane (state : RandomState) (n : Nat) (l : Fin kLanes) :
    (fillImpl state n).2.lane l = State.next^[(n + (kBlockBytes - 1)) / kBlockBytes] (state.lane l) := by
  have hwhole : lanesLane (fillBlocks (loadLanes state) (n / kBlockBytes)).2 l
      = State.next^[n / kBlockBytes] (state.lane l) := by
    rw [lanesLane_fillBlocks, lanesLane_loadLanes]
  have hblock : kBlockBytes = 64 := rfl
  unfold fillImpl
  dsimp only
  split
  · rename_i hpart
    have hceil : (n + (kBlockBytes - 1)) / kBlockBytes = n / kBlockBytes + 1 := by
      rw [hblock] at hpart ⊢
      omega
    rw [lanesLane_storeLanes, lanesLane_step, hwhole, hceil, Function.iterate_succ_apply']
  · rename_i hpart
    have hceil : (n + (kBlockBytes - 1)) / kBlockBytes = n / kBlockBytes := by
      rw [hblock] at hpart ⊢
      omega
    rw [lanesLane_storeLanes, hwhole, hceil]

/-- Both compilations of the loop are the same function. -/
theorem fill_random (state : RandomState) (avx2 : Bool) (n : Nat) :
    (PayloadGenerator.random state avx2).fill n = ((fillImpl state n).1, .random (fillImpl state n).2 avx2) := by
  cases avx2 <;> rfl

/-- A fill of `n` bytes takes them from the outputs of eight scalar generators, 8 bytes of each in turn, and leaves each
of these as many steps on as blocks were begun. -/
theorem random_fill_is_eight_streams (state : RandomState) (avx2 : Bool) (n : Nat) :
    ((PayloadGenerator.random state avx2).fill n).1.length = n ∧
    (∀ i < n, ((PayloadGenerator.random state avx2).fill n).1[i]?
      = some (wordByte ((state.lane (byteLane i)).output (i / 64)) (i % 8))) ∧
    ∃ state' : RandomState, ((PayloadGenerator.random state avx2).fill n).2 = .random state' avx2 ∧
      ∀ l, state'.lane l = State.next^[(n + 63) / 64] (state.lane l) := by
  rw [fill_random]
  exact ⟨length_fillImpl state n, fun i hi => fillImpl_getElem? state hi, _, rfl, fillImpl_lane state n⟩

end ProducerConsumer
