import ProducerConsumer.Lib.Crc
import ProducerConsumer.Ring

/-!
# The checksums

CRC-32 and CRC-32C as in `checksum.cpp`: the tables and the slice-by-8 loop, the loop over the CPU's CRC-32C
instructions, and the classes that choose between them.  The instructions are given by their documented bit-serial
meaning.  Every path computes the fold of the reflected bit step over the bytes (`Checksum.update_eq_fold`), so the
paths agree and may be mixed at any split point.
-/

namespace ProducerConsumer

open ReflectedCrc

/-! ### Tables -/

/-- One round of the loop over the bits of a table entry. -/
def crcBit (polynomial crc : U32) : U32 := if crc &&& 1 ≠ 0 then polynomial ^^^ (crc >>> 1) else crc >>> 1

/-- `table[slice][i]`. -/
abbrev CrcTable := Nat → U8 → U32

/-- An index `x & 0xFF`. -/
def lowByte (x : U32) : U8 := (x &&& 0xFF#32).setWidth 8

/-- `table[0][i]`. -/
def crcTableEntry (polynomial : U32) (i : U8) : U32 := (crcBit polynomial)^[8] (i.setWidth 32)

def makeCrcTable (polynomial : U32) : CrcTable
  | 0, i => crcTableEntry polynomial i
  | slice + 1, i =>
    let prev := makeCrcTable polynomial slice i
    (prev >>> 8) ^^^ crcTableEntry polynomial (lowByte prev)

def kCrc32Polynomial : U32 := 0xEDB88320#32
def kCrc32cPolynomial : U32 := 0x82F63B78#32

def loadLe32 (b0 b1 b2 b3 : U8) : U32 :=
  b0.setWidth 32 ||| (b1.setWidth 32 <<< 8) ||| (b2.setWidth 32 <<< 16) ||| (b3.setWidth 32 <<< 24)

/-- The body of the loop over blocks of eight bytes. -/
def crcBlock (table : CrcTable) (crc : U32) (b0 b1 b2 b3 b4 b5 b6 b7 : U8) : U32 :=
  let one := loadLe32 b0 b1 b2 b3 ^^^ crc
  let two := loadLe32 b4 b5 b6 b7
  table 0 (lowByte (two >>> 24)) ^^^ table 1 (lowByte (two >>> 16)) ^^^ table 2 (lowByte (two >>> 8)) ^^^
    table 3 (lowByte two) ^^^ table 4 (lowByte (one >>> 24)) ^^^ table 5 (lowByte (one >>> 16)) ^^^
    table 6 (lowByte (one >>> 8)) ^^^ table 7 (lowByte one)

/-- The body of the loop over the remaining bytes. -/
def crcTail (table : CrcTable) (crc : U32) (b : U8) : U32 := table 0 (lowByte (crc ^^^ b.setWidth 32)) ^^^ (crc >>> 8)

def crcSliceBy8 (table : CrcTable) (crc : U32) : List U8 → U32
  | b0 :: b1 :: b2 :: b3 :: b4 :: b5 :: b6 :: b7 :: rest =>
    crcSliceBy8 table (crcBlock table crc b0 b1 b2 b3 b4 b5 b6 b7) rest
  | rest => rest.foldl (crcTail table) crc

/-! ### The CRC-32C instructions -/

/-- `_mm_crc32_u8`: the bits of the operand from the least significant up. -/
def mmCrc32U8 (crc : U32) (v : U8) : U32 :=
  ((List.range 8).map v.getLsbD).foldl (serialStep kCrc32cPolynomial) crc

/-- `_mm_crc32_u64`: the low half of the register is the state, and the result is zero-extended. -/
def mmCrc32U64 (crc v : U64) : U64 :=
  (((List.range 64).map v.getLsbD).foldl (serialStep kCrc32cPolynomial) (crc.setWidth 32)).setWidth 64

/-- The loop over words of eight bytes; it leaves the remaining bytes. -/
def crc32cWords (wide : U64) : List U8 → U64 × List U8
  | b0 :: b1 :: b2 :: b3 :: b4 :: b5 :: b6 :: b7 :: rest =>
    let word : U64 := BitVec.ofNat 64 (LittleEndian.value [b0, b1, b2, b3, b4, b5, b6, b7])
    crc32cWords (mmCrc32U64 wide word) rest
  | rest => (wide, rest)

def crc32cHardware (crc : U32) (data : List U8) : U32 :=
  let (wide, rest) := crc32cWords (crc.setWidth 64) data
  rest.foldl mmCrc32U8 (wide.setWidth 32)

/-! ### The classes -/

/-- `Crc32`, or `Crc32c` with its flag `hardware_`. -/
inductive Checksum
  | Crc32
  | Crc32c (hardware : Bool)
deriving DecidableEq, Repr

namespace Checksum

/-- The `ChecksumKind` of the class, as the byte that stands in a header. -/
def kind : Checksum → U8
  | Crc32 => 1
  | Crc32c _ => 2

def start : Checksum → U32
  | _ => 0xFFFFFFFF#32

def update : Checksum → U32 → List U8 → U32
  | Crc32, state, data => crcSliceBy8 (makeCrcTable kCrc32Polynomial) state data
  | Crc32c hardware, state, data =>
    if hardware then crc32cHardware state data else crcSliceBy8 (makeCrcTable kCrc32cPolynomial) state data

def finish : Checksum → U32 → U32
  | _, state => state ^^^ 0xFFFFFFFF#32

def compute (c : Checksum) (data : List U8) : U32 := c.finish (c.update c.start data)

end Checksum

/-- The registry of one process: whether its CPU has the CRC-32C instructions. -/
structure ChecksumRegistry where
  hardware : Bool

def ChecksumRegistry.find (registry : ChecksumRegistry) (kind : U8) : Option Checksum :=
  if kind = 1 then some .Crc32
  else if kind = 2 then some (.Crc32c registry.hardware)
  else none

/-! ### The table method -/

theorem crcBit_eq (p crc : U32) : crcBit p crc = bitStep p crc := by
  have hlow : crc &&& 1 ≠ 0 ↔ crc.getLsbD 0 = true := by
    rw [BitVec.ofNat_eq_ofNat, BitVec.and_one_eq_setWidth_ofBool_getLsbD]
    cases crc.getLsbD 0 <;> decide
  unfold crcBit bitStep
  by_cases h : crc.getLsbD 0 = true
  · rw [if_pos (hlow.2 h), if_pos h]
  · rw [if_neg (fun h0 => h (hlow.1 h0)), if_neg h]

theorem crcBit_iterate (p : U32) (n : Nat) (crc : U32) : (crcBit p)^[n] crc = bitSteps p n crc := by
  induction n generalizing crc with
  | zero => rfl
  | succ n ih => rw [Function.iterate_succ_apply, ih, crcBit_eq, bitSteps]

theorem lowByte_eq (x : U32) : lowByte x = x.setWidth 8 := by
  apply BitVec.eq_of_getLsbD_eq
  intro i hi
  have hff : (0xFF#32).getLsbD i = true := by
    have : ∀ i < 8, (0xFF#32).getLsbD i = true := by decide
    exact this i hi
  simp only [lowByte, BitVec.getLsbD_setWidth, BitVec.getLsbD_and, hff, Bool.and_true]

/-- Each derived table is one more byte of steps. -/
theorem makeCrcTable_eq (p : U32) (slice : Nat) (i : U8) :
    makeCrcTable p slice i = bitSteps p (8 * (slice + 1)) (i.setWidth 32) := by
  induction slice with
  | zero => rw [makeCrcTable, crcTableEntry, crcBit_iterate]
  | succ slice ih =>
    rw [makeCrcTable, crcTableEntry, crcBit_iterate, ih, lowByte_eq, Nat.mul_succ 8 (slice + 1), bitSteps_add,
      bitSteps_eight p (bitSteps p (8 * (slice + 1)) _) (by decide), BitVec.xor_comm]

/-- Which byte of a word of four bytes a bit lies in. -/
theorem bit_cases {i : Nat} (hi : i < 32) : i < 8 ∨ 8 ≤ i ∧ i < 16 ∨ 16 ≤ i ∧ i < 24 ∨ 24 ≤ i := by
  omega

theorem loadLe32_eq (b0 b1 b2 b3 : U8) : loadLe32 b0 b1 b2 b3 = packed [b0, b1, b2, b3] := by
  apply BitVec.eq_of_getLsbD_eq
  intro i hi
  simp only [loadLe32, packed, BitVec.getLsbD_or, BitVec.getLsbD_xor, BitVec.getLsbD_setWidth,
    BitVec.getLsbD_shiftLeft]
  have hb (b : U8) {k : Nat} (hk : 8 ≤ k) : b.getLsbD k = false := BitVec.getLsbD_of_ge b k hk
  rcases bit_cases hi with h | h | h | h <;> grind

theorem packed_bytes (x : U32) :
    packed [lowByte x, lowByte (x >>> 8), lowByte (x >>> 16), lowByte (x >>> 24)] = x := by
  apply BitVec.eq_of_getLsbD_eq
  intro i hi
  simp only [lowByte_eq, packed, BitVec.getLsbD_xor, BitVec.getLsbD_setWidth,
    BitVec.getLsbD_shiftLeft, BitVec.getLsbD_ushiftRight]
  rcases bit_cases hi with h | h | h | h <;> grind

/-- Thirty-two steps and `n` more, with the four bytes of a word looked up separately. -/
theorem bitSteps_lookup (p x : U32) (k : Nat) :
    bitSteps p (8 * (k + 4)) x = makeCrcTable p k (lowByte (x >>> 24)) ^^^
      makeCrcTable p (k + 1) (lowByte (x >>> 16)) ^^^ makeCrcTable p (k + 2) (lowByte (x >>> 8)) ^^^
      makeCrcTable p (k + 3) (lowByte x) := by
  have hcons (n : Nat) (b : U8) {bs : List U8} (h : bs.length ≤ 3) :
      bitSteps p (8 * (n + 1)) (packed (b :: bs)) = makeCrcTable p n b ^^^ bitSteps p (8 * n) (packed bs) := by
    rw [makeCrcTable_eq, Nat.mul_succ, Nat.add_comm (8 * n) 8, bitSteps_packed_cons p (8 * n) b (by omega)]
  conv => lhs; rw [← packed_bytes x]
  rw [hcons (k + 3) _ (by simp), hcons (k + 2) _ (by simp), hcons (k + 1) _ (by simp), hcons k _ (by simp), packed,
    bitSteps_zero]
  simp only [BitVec.ofNat_eq_ofNat, BitVec.xor_zero]
  ac_rfl

theorem crcBlock_eq (p crc : U32) (b0 b1 b2 b3 b4 b5 b6 b7 : U8) :
    crcBlock (makeCrcTable p) crc b0 b1 b2 b3 b4 b5 b6 b7 = fold p crc [b0, b1, b2, b3, b4, b5, b6, b7] := by
  have hfour (c0 c1 c2 c3 : U8) (state : U32) :
      fold p state [c0, c1, c2, c3] = bitSteps p 32 (loadLe32 c0 c1 c2 c3 ^^^ state) := by
    have hlen : 8 * [c0, c1, c2, c3].length = 32 := rfl
    rw [fold_eq_bitSteps p state hlen.le, hlen, loadLe32_eq, BitVec.xor_comm]
  have hlow (x : U32) := bitSteps_lookup p x 0
  have hhigh (x : U32) := bitSteps_lookup p x 4
  rw [show 8 * (0 + 4) = 32 from rfl] at hlow
  rw [show 8 * (4 + 4) = 32 + 32 from rfl] at hhigh
  rw [show [b0, b1, b2, b3, b4, b5, b6, b7] = [b0, b1, b2, b3] ++ [b4, b5, b6, b7] from rfl, fold_append, hfour, hfour,
    bitSteps_xor, ← bitSteps_add, hlow, hhigh, crcBlock]
  simp only [Nat.zero_add, Nat.reduceAdd]
  ac_rfl

theorem crcTail_eq (p crc : U32) (b : U8) : crcTail (makeCrcTable p) crc b = byteStep p crc b := by
  rw [crcTail, byteStep, bitSteps_eight p _ (by decide), makeCrcTable_eq, lowByte_eq]
  have hshift : (crc ^^^ b.setWidth 32) >>> 8 = crc >>> 8 := by
    apply BitVec.eq_of_getLsbD_eq
    intro i hi
    rw [BitVec.getLsbD_ushiftRight, BitVec.getLsbD_xor, getLsbD_setWidth_of_ge b (by omega), Bool.xor_false,
      BitVec.getLsbD_ushiftRight]
  rw [hshift]

/-- Slice-by-8 with the table of a polynomial is the fold of its bit steps, for every state and every string. -/
theorem crcSliceBy8_eq_fold (p crc : U32) (data : List U8) : crcSliceBy8 (makeCrcTable p) crc data = fold p crc data := by
  fun_induction crcSliceBy8 (makeCrcTable p) crc data with
  | case1 crc b0 b1 b2 b3 b4 b5 b6 b7 rest ih =>
    rw [ih, crcBlock_eq, ← fold_append]
    rfl
  | case2 crc rest =>
    rw [fold]
    congr 1
    funext s b
    exact crcTail_eq p s b

/-! ### The instructions -/

theorem mmCrc32U8_eq (crc : U32) (v : U8) : mmCrc32U8 crc v = byteStep kCrc32cPolynomial crc v :=
  serial_eq_byteStep kCrc32cPolynomial crc v (by decide)

/-- The instruction on a word of eight bytes is the fold of the bytes. -/
theorem mmCrc32U64_eq (crc : U64) {bs : List U8} (h : bs.length = 8) :
    mmCrc32U64 crc (BitVec.ofNat 64 (LittleEndian.value bs)) =
      (fold kCrc32cPolynomial (crc.setWidth 32) bs).setWidth 64 := by
  have hbits : (List.range 64).map (BitVec.ofNat 64 (LittleEndian.value bs)).getLsbD =
      (List.range (8 * bs.length)).map (LittleEndian.value bs).testBit := by
    rw [h]
    apply List.map_congr_left
    intro i hi
    rw [BitVec.getLsbD_ofNat, decide_eq_true (List.mem_range.1 hi), Bool.true_and]
  rw [mmCrc32U64, hbits, serial_eq_fold _ _ _ (by decide)]

theorem setWidth_setWidth_64 (x : U32) : (x.setWidth 64).setWidth 32 = x := by
  rw [BitVec.setWidth_setWidth_of_le x (by decide), BitVec.setWidth_eq]

/-- The words and the remaining bytes together are the whole string. -/
theorem crc32cWords_eq (wide : U64) (data : List U8) :
    fold kCrc32cPolynomial ((crc32cWords wide data).1.setWidth 32) (crc32cWords wide data).2 =
      fold kCrc32cPolynomial (wide.setWidth 32) data := by
  fun_induction crc32cWords wide data with
  | case1 wide b0 b1 b2 b3 b4 b5 b6 b7 rest word ih =>
    have hlen : [b0, b1, b2, b3, b4, b5, b6, b7].length = 8 := rfl
    rw [ih, mmCrc32U64_eq wide hlen, setWidth_setWidth_64, ← fold_append]
    rfl
  | case2 => rfl

theorem crc32cHardware_eq_fold (crc : U32) (data : List U8) :
    crc32cHardware crc data = fold kCrc32cPolynomial crc data := by
  have hbyte : mmCrc32U8 = byteStep kCrc32cPolynomial := by
    funext s b
    exact mmCrc32U8_eq s b
  have hwords := crc32cWords_eq (crc.setWidth 64) data
  rw [setWidth_setWidth_64] at hwords
  rw [← hwords, crc32cHardware, hbyte]
  rfl

/-! ### Every path is the fold -/

namespace Checksum

def polynomial : Checksum → U32
  | Crc32 => kCrc32Polynomial
  | Crc32c _ => kCrc32cPolynomial

theorem polynomial_msb (c : Checksum) : c.polynomial.msb = true := by
  cases c with
  | Crc32 => exact (by decide : kCrc32Polynomial.msb = true)
  | Crc32c _ => exact (by decide : kCrc32cPolynomial.msb = true)

theorem update_eq_fold (c : Checksum) (state : U32) (data : List U8) :
    c.update state data = fold c.polynomial state data := by
  cases c with
  | Crc32 => exact crcSliceBy8_eq_fold kCrc32Polynomial state data
  | Crc32c hardware =>
    cases hardware with
    | false => exact crcSliceBy8_eq_fold kCrc32cPolynomial state data
    | true => exact crc32cHardware_eq_fold state data

theorem update_append (c : Checksum) (state : U32) (xs ys : List U8) :
    c.update state (xs ++ ys) = c.update (c.update state xs) ys := by
  simp only [update_eq_fold, fold_append]

/-- Equal checksums are equal folds. -/
theorem fold_of_compute {c : Checksum} {xs ys : List U8} (h : c.compute xs = c.compute ys) :
    fold c.polynomial c.start xs = fold c.polynomial c.start ys := by
  simp only [compute, finish, update_eq_fold] at h
  exact (BitVec.xor_left_inj _).1 h

/-- The kind in a header fixes the polynomial, whichever path computes the checksum. -/
theorem compute_congr {c c' : Checksum} (h : c.kind = c'.kind) (data : List U8) : c.compute data = c'.compute data := by
  have hp : c.polynomial = c'.polynomial := by
    cases c <;> cases c' <;> first | rfl | (exact absurd h (by simp [kind]))
  simp only [compute, update_eq_fold, hp, start, finish]

end Checksum

theorem ChecksumRegistry.find_kind (registry : ChecksumRegistry) (c : Checksum) :
    ∃ c', registry.find c.kind = some c' ∧ c'.kind = c.kind := by
  cases c with
  | Crc32 => exact ⟨.Crc32, rfl, rfl⟩
  | Crc32c h => exact ⟨.Crc32c registry.hardware, rfl, rfl⟩

theorem ChecksumRegistry.kind_of_find {registry : ChecksumRegistry} {kind : U8} {c : Checksum}
    (h : registry.find kind = some c) : c.kind = kind := by
  unfold ChecksumRegistry.find at h
  split at h
  · cases h
    exact (by assumption : kind = 1).symm
  · split at h
    · cases h
      exact (by assumption : kind = 2).symm
    · cases h

end ProducerConsumer
