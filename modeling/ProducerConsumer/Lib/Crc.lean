import Mathlib.Data.List.Basic
import Mathlib.Tactic.Common
import ProducerConsumer.Lib.LittleEndian

/-!
# Reflected cyclic redundancy checks

A reflected CRC with polynomial `p` processes a state of `w` bits one bit at a time.  The bit step is linear over
`xor`, and injective when the top bit of `p` is set.  From linearity follow the multi-byte form (`fold_eq_bitSteps`)
that table methods rest on and the agreement with the bit-serial form in which the input is fed one bit at a time
(`serial_eq_byteStep`); from injectivity follows that two strings that differ only inside a window not longer than the
state have different checks (`fold_window_inj`).
-/

namespace ReflectedCrc

variable {w : Nat}

/-- One step of the division: the low bit decides whether the polynomial is added. -/
def bitStep (p s : BitVec w) : BitVec w := if s.getLsbD 0 then p ^^^ (s >>> 1) else s >>> 1

def bitSteps (p : BitVec w) : Nat → BitVec w → BitVec w
  | 0, s => s
  | n + 1, s => bitSteps p n (bitStep p s)

/-- Adds a byte to the low bits and divides eight times. -/
def byteStep (p s : BitVec w) (b : BitVec 8) : BitVec w := bitSteps p 8 (s ^^^ b.setWidth w)

def fold (p s : BitVec w) (bs : List (BitVec 8)) : BitVec w := bs.foldl (byteStep p) s

/-- One step of the bit-serial form, which takes the input bit by bit. -/
def serialStep (p s : BitVec w) (b : Bool) : BitVec w :=
  (s >>> 1) ^^^ (if (s.getLsbD 0 ^^ b) then p else 0)

/-! ### Linearity -/

@[simp] theorem bitStep_zero (p : BitVec w) : bitStep p 0 = 0 := by
  simp [bitStep]

theorem bitStep_xor (p s t : BitVec w) : bitStep p (s ^^^ t) = bitStep p s ^^^ bitStep p t := by
  unfold bitStep
  rw [BitVec.getLsbD_xor, BitVec.ushiftRight_xor_distrib]
  cases s.getLsbD 0 <;> cases t.getLsbD 0 <;>
    apply BitVec.eq_of_getLsbD_eq <;> intro i hi <;>
    simp [Bool.xor_left_comm]

@[simp] theorem bitSteps_zero (p : BitVec w) (n : Nat) : bitSteps p n 0 = 0 := by
  induction n with
  | zero => rfl
  | succ n ih => rw [bitSteps, bitStep_zero, ih]

theorem bitSteps_xor (p : BitVec w) (n : Nat) (s t : BitVec w) :
    bitSteps p n (s ^^^ t) = bitSteps p n s ^^^ bitSteps p n t := by
  induction n generalizing s t with
  | zero => rfl
  | succ n ih => rw [bitSteps, bitSteps, bitSteps, bitStep_xor, ih]

theorem bitSteps_add (p : BitVec w) (m n : Nat) (s : BitVec w) :
    bitSteps p (m + n) s = bitSteps p n (bitSteps p m s) := by
  induction m generalizing s with
  | zero => rw [Nat.zero_add]; rfl
  | succ m ih => rw [Nat.succ_add, bitSteps, bitSteps, ih]

/-- While the low bits are zero the steps only shift. -/
theorem bitSteps_of_low_zero (p : BitVec w) {n : Nat} {s : BitVec w} (h : ∀ i < n, s.getLsbD i = false) :
    bitSteps p n s = s >>> n := by
  induction n generalizing s with
  | zero => simp [bitSteps]
  | succ n ih =>
    have h0 : bitStep p s = s >>> 1 := by rw [bitStep, h 0 (by omega)]; rfl
    rw [bitSteps, h0, ih, ← BitVec.shiftRight_add, Nat.add_comm]
    intro i hi
    rw [BitVec.getLsbD_ushiftRight]
    exact h (1 + i) (by omega)

/-- Steps undo a shift to the left that loses no bit. -/
theorem bitSteps_shiftLeft (p : BitVec w) {n k : Nat} {s : BitVec w} (hs : ∀ i, k ≤ i → s.getLsbD i = false)
    (hk : k + n ≤ w) : bitSteps p n (s <<< n) = s := by
  rw [bitSteps_of_low_zero]
  · apply BitVec.eq_of_getLsbD_eq
    intro i hi
    rw [BitVec.getLsbD_ushiftRight, BitVec.getLsbD_shiftLeft]
    by_cases hik : k ≤ i
    · simp [hs i hik]
    · simp [show n + i < w by omega]
  · intro i hi
    simp [BitVec.getLsbD_shiftLeft, hi]

theorem getLsbD_setWidth_of_ge (b : BitVec 8) {i : Nat} (h : 8 ≤ i) : (b.setWidth w).getLsbD i = false := by
  rw [BitVec.getLsbD_setWidth, BitVec.getLsbD_of_ge b i h, Bool.and_false]

/-- Eight steps: the low byte goes through the division, the rest is shifted down. -/
theorem bitSteps_eight (p s : BitVec w) (hw : 8 ≤ w) :
    bitSteps p 8 s = bitSteps p 8 ((s.setWidth 8).setWidth w) ^^^ (s >>> 8) := by
  have hsplit : s = (s.setWidth 8).setWidth w ^^^ ((s >>> 8) <<< 8) := by
    apply BitVec.eq_of_getLsbD_eq
    intro i hi
    rw [BitVec.getLsbD_xor, BitVec.getLsbD_setWidth, BitVec.getLsbD_setWidth, BitVec.getLsbD_shiftLeft,
      BitVec.getLsbD_ushiftRight]
    by_cases h8 : i < 8
    · simp [h8, hi]
    · simp [h8, hi, show 8 + (i - 8) = i by omega]
  conv => lhs; rw [hsplit]
  rw [bitSteps_xor, bitSteps_shiftLeft p (k := w - 8) _ (by omega)]
  intro i hi
  rw [BitVec.getLsbD_ushiftRight]
  exact BitVec.getLsbD_of_ge s _ (by omega)

/-! ### Strings -/

theorem fold_append (p s : BitVec w) (bs cs : List (BitVec 8)) : fold p s (bs ++ cs) = fold p (fold p s bs) cs :=
  List.foldl_append

/-- The bytes of a string side by side, the first in the low bits. -/
def packed : List (BitVec 8) → BitVec w
  | [] => 0
  | b :: bs => b.setWidth w ^^^ (packed bs <<< 8)

theorem packed_high_zero (bs : List (BitVec 8)) {i : Nat} (h : 8 * bs.length ≤ i) :
    (packed bs : BitVec w).getLsbD i = false := by
  induction bs generalizing i with
  | nil => simp [packed]
  | cons b bs ih =>
    rw [List.length_cons] at h
    rw [packed, BitVec.getLsbD_xor, getLsbD_setWidth_of_ge b (by omega), BitVec.getLsbD_shiftLeft, ih (by omega)]
    simp

/-- A string not longer than the state is added at once and then divided bit by bit. -/
theorem fold_eq_bitSteps (p s : BitVec w) {bs : List (BitVec 8)} (h : 8 * bs.length ≤ w) :
    fold p s bs = bitSteps p (8 * bs.length) (s ^^^ packed bs) := by
  induction bs generalizing s with
  | nil => simp [fold, packed, bitSteps]
  | cons b bs ih =>
    rw [List.length_cons] at h ⊢
    have hshift : bitSteps p 8 (packed bs <<< 8) = packed bs :=
      bitSteps_shiftLeft p (fun i hi => packed_high_zero bs hi) (by omega)
    calc fold p s (b :: bs) = fold p (byteStep p s b) bs := rfl
      _ = bitSteps p (8 * bs.length) (byteStep p s b ^^^ packed bs) := ih _ (by omega)
      _ = bitSteps p (8 * bs.length) (bitSteps p 8 (s ^^^ packed (b :: bs))) := by
        conv => lhs; arg 3; arg 2; rw [← hshift]
        rw [byteStep, ← bitSteps_xor, packed, BitVec.xor_assoc]
      _ = bitSteps p (8 * (bs.length + 1)) (s ^^^ packed (b :: bs)) := by
        rw [← bitSteps_add, Nat.add_comm 8, Nat.mul_succ]

/-- The steps of a packed string, byte by byte: the first byte is divided by all of them, the rest by eight less. -/
theorem bitSteps_packed_cons (p : BitVec w) (n : Nat) (b : BitVec 8) {bs : List (BitVec 8)}
    (h : 8 * (bs.length + 1) ≤ w) :
    bitSteps p (8 + n) (packed (b :: bs)) = bitSteps p (8 + n) (b.setWidth w) ^^^ bitSteps p n (packed bs) := by
  have hshift : bitSteps p 8 (packed bs <<< 8) = packed bs :=
    bitSteps_shiftLeft p (fun i hi => packed_high_zero bs hi) (by omega)
  rw [packed, bitSteps_xor, bitSteps_add p 8 n (packed bs <<< 8), hshift]

theorem packed_inj {bs cs : List (BitVec 8)} (hl : bs.length = cs.length) (hw : 8 * bs.length ≤ w)
    (h : (packed bs : BitVec w) = packed cs) : bs = cs := by
  induction bs generalizing cs with
  | nil => exact (List.length_eq_zero_iff.1 hl.symm).symm
  | cons b bs ih =>
    obtain _ | ⟨c, cs⟩ := cs
    · simp at hl
    · simp only [List.length_cons] at hl hw
      have hbit (i : Nat) : (packed (b :: bs) : BitVec w).getLsbD i = (packed (c :: cs) : BitVec w).getLsbD i := by
        rw [h]
      simp only [packed, BitVec.getLsbD_xor, BitVec.getLsbD_setWidth, BitVec.getLsbD_shiftLeft] at hbit
      have hb : b = c := by
        apply BitVec.eq_of_getLsbD_eq
        intro i hi
        simpa [hi, show i < w by omega] using hbit i
      have hbs : (packed bs : BitVec w) = packed cs := by
        apply BitVec.eq_of_getLsbD_eq
        intro i hi
        by_cases hlow : i + 8 < w
        · have := hbit (i + 8)
          rw [hb] at this
          simpa [hlow, show ¬i + 8 < 8 by omega] using this
        · rw [packed_high_zero bs (by omega), packed_high_zero cs (by omega)]
      rw [hb, ih (by omega) (by omega) hbs]

/-! ### Injectivity -/

/-- The top bit of the polynomial marks that a bit was taken out. -/
theorem eq_zero_of_bitStep {p s : BitVec w} (hp : p.msb = true) (h : bitStep p s = 0) : s = 0 := by
  rw [BitVec.msb_eq_getLsbD_last] at hp
  have hw := BitVec.lt_of_getLsbD hp
  unfold bitStep at h
  split at h
  · have htop := congrArg (fun x : BitVec w => x.getLsbD (w - 1)) h
    simp only [BitVec.getLsbD_xor, BitVec.getLsbD_ushiftRight, hp] at htop
    rw [BitVec.getLsbD_of_ge s _ (by omega)] at htop
    simp at htop
  · rename_i hlow
    apply BitVec.eq_of_getLsbD_eq
    intro i hi
    rcases Nat.eq_zero_or_pos i with rfl | hpos
    · simpa using hlow
    · have hbit := congrArg (fun x : BitVec w => x.getLsbD (i - 1)) h
      simp only [BitVec.getLsbD_ushiftRight, show 1 + (i - 1) = i by omega] at hbit
      simpa using hbit

theorem bitStep_inj {p : BitVec w} (hp : p.msb = true) {s t : BitVec w} (h : bitStep p s = bitStep p t) : s = t := by
  have hzero : s ^^^ t = 0 := by
    apply eq_zero_of_bitStep hp
    rw [bitStep_xor, h]
    exact BitVec.xor_self
  exact BitVec.xor_eq_zero_iff.1 hzero

theorem bitSteps_inj {p : BitVec w} (hp : p.msb = true) {n : Nat} {s t : BitVec w}
    (h : bitSteps p n s = bitSteps p n t) : s = t := by
  induction n generalizing s t with
  | zero => exact h
  | succ n ih => exact bitStep_inj hp (ih h)

theorem fold_inj {p : BitVec w} (hp : p.msb = true) (bs : List (BitVec 8)) {s t : BitVec w}
    (h : fold p s bs = fold p t bs) : s = t := by
  induction bs generalizing s t with
  | nil => exact h
  | cons b bs ih =>
    have := bitSteps_inj hp (ih h)
    rwa [BitVec.xor_left_inj] at this

/-- Two strings that differ only in a window not longer than the state have different checks. -/
theorem fold_window_inj {p : BitVec w} (hp : p.msb = true) (s : BitVec w) (pre post : List (BitVec 8))
    {mid mid' : List (BitVec 8)} (hl : mid.length = mid'.length) (hw : 8 * mid.length ≤ w)
    (h : fold p s (pre ++ mid ++ post) = fold p s (pre ++ mid' ++ post)) : mid = mid' := by
  rw [fold_append, fold_append, fold_append p s (pre ++ mid'), fold_append p s pre mid'] at h
  generalize fold p s pre = t at h
  have hmid := fold_inj hp post h
  rw [fold_eq_bitSteps p t hw, fold_eq_bitSteps p t (by rw [← hl]; exact hw), ← hl] at hmid
  have hpacked := bitSteps_inj hp hmid
  rw [BitVec.xor_right_inj] at hpacked
  exact packed_inj hl hw hpacked

/-- Two strings of one length with the same check that agree outside `n` consecutive positions are equal, if the state
is at least that long. -/
theorem eq_of_fold_eq {p : BitVec w} (hp : p.msb = true) (s : BitVec w) {bs cs : List (BitVec 8)} {k n : Nat}
    (hn : 8 * n ≤ w) (hl : bs.length = cs.length) (hsame : ∀ i, i < k ∨ k + n ≤ i → bs[i]? = cs[i]?)
    (h : fold p s bs = fold p s cs) : bs = cs := by
  have hsplit (xs : List (BitVec 8)) : xs = xs.take k ++ (xs.drop k).take n ++ xs.drop (k + n) := by
    rw [List.append_assoc, ← List.drop_drop, List.take_append_drop, List.take_append_drop]
  have hpre : bs.take k = cs.take k := by
    apply List.ext_getElem?
    intro i
    rw [List.getElem?_take, List.getElem?_take]
    split
    · exact hsame i (.inl (by assumption))
    · rfl
  have hpost : bs.drop (k + n) = cs.drop (k + n) := by
    apply List.ext_getElem?
    intro i
    rw [List.getElem?_drop, List.getElem?_drop]
    exact hsame _ (.inr (by omega))
  have hmid : ((bs.drop k).take n).length = ((cs.drop k).take n).length := by
    simp only [List.length_take, List.length_drop, hl]
  have hshort : 8 * ((bs.drop k).take n).length ≤ w := by
    rw [List.length_take]
    omega
  rw [hsplit bs, hsplit cs, hpre, hpost] at h
  rw [hsplit bs, hsplit cs, hpre, hpost, fold_window_inj hp s _ _ hmid hshort h]

/-! ### The bit-serial form -/

theorem serialStep_eq_bitStep (p s : BitVec w) (b : Bool) (hw : 0 < w) :
    serialStep p s b = bitStep p (s ^^^ (BitVec.ofBool b).setWidth w) := by
  have hshift : (s ^^^ (BitVec.ofBool b).setWidth w) >>> 1 = s >>> 1 := by
    apply BitVec.eq_of_getLsbD_eq
    intro i hi
    simp [BitVec.getLsbD_ushiftRight]
  have hlow : (s ^^^ (BitVec.ofBool b).setWidth w).getLsbD 0 = (s.getLsbD 0 ^^ b) := by
    simp [hw]
  rw [serialStep, bitStep, hlow, hshift]
  split
  · rw [BitVec.xor_comm]
  · exact BitVec.xor_zero

/-- Feeding the low `n` bits of `x` one by one is adding `x` and dividing `n` times. -/
theorem serial_eq_bitSteps (p : BitVec w) {n : Nat} (hn : n ≤ w) (s x : BitVec w)
    (hx : ∀ i, n ≤ i → x.getLsbD i = false) :
    ((List.range n).map x.getLsbD).foldl (serialStep p) s = bitSteps p n (s ^^^ x) := by
  induction n generalizing s x with
  | zero =>
    have h0 : x = 0 := BitVec.eq_of_getLsbD_eq (fun i _ => by simp [hx i (Nat.zero_le i)])
    simp [h0, bitSteps]
  | succ n ih =>
    have hsplit : x = (BitVec.ofBool (x.getLsbD 0)).setWidth w ^^^ ((x >>> 1) <<< 1) := by
      apply BitVec.eq_of_getLsbD_eq
      intro i hi
      rcases Nat.eq_zero_or_pos i with rfl | hpos
      · simp [hi]
      · simp [BitVec.getLsbD_of_ge (BitVec.ofBool (x.getLsbD 0)) i (by omega), hi, show ¬i < 1 by omega,
          show 1 + (i - 1) = i by omega]
    have hrange : (List.range (n + 1)).map x.getLsbD = x.getLsbD 0 :: (List.range n).map (x >>> 1).getLsbD := by
      rw [List.range_succ_eq_map, List.map_cons, List.map_map]
      congr 1
      apply List.map_congr_left
      intro i _
      simp [Nat.add_comm]
    have hone : bitStep p ((x >>> 1) <<< 1) = x >>> 1 :=
      bitSteps_shiftLeft p (n := 1) (k := w - 1)
        (fun i hi => by rw [BitVec.getLsbD_ushiftRight]; exact BitVec.getLsbD_of_ge x _ (by omega)) (by omega)
    rw [hrange, List.foldl_cons, ih (by omega), serialStep_eq_bitStep p s _ (by omega), bitSteps]
    · conv => rhs; rw [hsplit, ← BitVec.xor_assoc, bitStep_xor, hone]
    · intro i hi
      rw [BitVec.getLsbD_ushiftRight]
      exact hx (1 + i) (by omega)

theorem serial_eq_byteStep (p s : BitVec w) (b : BitVec 8) (hw : 8 ≤ w) :
    ((List.range 8).map b.getLsbD).foldl (serialStep p) s = byteStep p s b := by
  rw [byteStep, ← serial_eq_bitSteps p hw s _ (fun i hi => getLsbD_setWidth_of_ge b hi)]
  congr 1
  apply List.map_congr_left
  intro i hi
  rw [BitVec.getLsbD_setWidth, decide_eq_true (by have := List.mem_range.1 hi; omega), Bool.true_and]

/-- Feeding the bits of a byte string one by one, from the least significant up, is folding its bytes. -/
theorem serial_eq_fold (p s : BitVec w) (bs : List (BitVec 8)) (hw : 8 ≤ w) :
    ((List.range (8 * bs.length)).map (LittleEndian.value bs).testBit).foldl (serialStep p) s = fold p s bs := by
  induction bs generalizing s with
  | nil => rfl
  | cons b bs ih =>
    have hlow : (List.range 8).map (LittleEndian.value (b :: bs)).testBit = (List.range 8).map b.getLsbD := by
      apply List.map_congr_left
      intro i hi
      rw [LittleEndian.testBit_value_cons, if_pos (List.mem_range.1 hi)]
    have hhigh : ((List.range (8 * bs.length)).map (8 + ·)).map (LittleEndian.value (b :: bs)).testBit =
        (List.range (8 * bs.length)).map (LittleEndian.value bs).testBit := by
      rw [List.map_map]
      apply List.map_congr_left
      intro i _
      rw [Function.comp_apply, LittleEndian.testBit_value_cons, if_neg (by omega), Nat.add_sub_cancel_left]
    rw [List.length_cons, Nat.mul_succ, Nat.add_comm, List.range_add, List.map_append, List.foldl_append, hlow, hhigh,
      serial_eq_byteStep p s b hw, ih]
    rfl

end ReflectedCrc
