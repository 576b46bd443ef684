import Mathlib.Data.BitVec
import Mathlib.Algebra.Group.Units.Basic
import Mathlib.Logic.Function.Iterate

/-!
# xoshiro256+

One generator with its transition, and the steps that such mixing functions are made of: adding a shifted copy without
carry and multiplying by an odd number.  All of them can be undone.
-/

namespace Xoshiro

/-! ### Mixing steps -/

section

variable {w k : Nat}

/-- The bits of the argument come back from the lowest one on. -/
theorem xorShiftLeft_injective (hk : 0 < k) : Function.Injective fun x : BitVec w => x ^^^ (x <<< k) := by
  intro x y h
  apply BitVec.eq_of_getLsbD_eq
  intro i hi
  induction i using Nat.strong_induction_on with
  | _ i ih =>
    have hbit := congrArg (fun z => z.getLsbD i) h
    simp only [BitVec.getLsbD_xor, BitVec.getLsbD_shiftLeft] at hbit
    by_cases hik : i < k
    · simpa [hik] using hbit
    · have hlow := ih (i - k) (by omega) (by omega)
      simpa [hik, hlow] using hbit

/-- The bits of the argument come back from the highest one on. -/
theorem xorShiftRight_injective (hk : 0 < k) : Function.Injective fun x : BitVec w => x ^^^ (x >>> k) := by
  intro x y h
  apply BitVec.eq_of_getLsbD_eq
  intro i hi
  obtain ⟨d, hd⟩ : ∃ d, d = w - i := ⟨_, rfl⟩
  induction d using Nat.strong_induction_on generalizing i with
  | _ d ih =>
    have hbit := congrArg (fun z => z.getLsbD i) h
    simp only [BitVec.getLsbD_xor, BitVec.getLsbD_ushiftRight] at hbit
    by_cases hik : w ≤ k + i
    · simpa [BitVec.getLsbD_of_ge, hik] using hbit
    · have hhigh := ih (w - (k + i)) (by omega) (k + i) (by omega) rfl
      simpa [hhigh] using hbit

/-- Bit `i` of the argument is found `r` places up, around the end. -/
theorem rotateLeft_injective {r : Nat} (hr : r < w) : Function.Injective fun x : BitVec w => x.rotateLeft r := by
  intro x y h
  apply BitVec.eq_of_getLsbD_eq
  intro i hi
  by_cases hup : i + r < w
  · have hbit := congrArg (fun z => z.getLsbD (i + r)) h
    have hhigh : ¬i + r < r := by omega
    simp only [BitVec.getLsbD_rotateLeft_of_le hr, hup, hhigh] at hbit
    simpa using hbit
  · have hbit := congrArg (fun z => z.getLsbD (i + r - w)) h
    have hlow : i + r - w < r := by omega
    have hback : w - r + (i + r - w) = i := by omega
    simp only [BitVec.getLsbD_rotateLeft_of_le hr, hlow, hback] at hbit
    simpa using hbit

theorem mul_right_injective_of_mul_eq_one {c d : BitVec w} (h : c * d = 1) :
    Function.Injective fun x : BitVec w => x * c :=
  (IsUnit.of_mul_eq_one d h).mul_left_injective

end

/-! ### The generator -/

/-- The four words of a generator. -/
structure State where
  s0 : BitVec 64
  s1 : BitVec 64
  s2 : BitVec 64
  s3 : BitVec 64
  deriving DecidableEq, Repr

namespace State

def zero : State := ⟨0, 0, 0, 0⟩

/-- The output of a step. -/
def result (s : State) : BitVec 64 := s.s0 + s.s3

/-- The state after a step. -/
def next (s : State) : State :=
  let t := s.s1 <<< 17
  let s2 := s.s2 ^^^ s.s0
  let s3 := s.s3 ^^^ s.s1
  let s1 := s.s1 ^^^ s2
  let s0 := s.s0 ^^^ s3
  ⟨s0, s1, s2 ^^^ t, s3.rotateLeft 45⟩

/-- Output number `i`, from 0 on. -/
def output (s : State) (i : Nat) : BitVec 64 := (next^[i] s).result

theorem next_zero : next zero = zero := by decide

/-- A step can be undone. -/
theorem next_injective : Function.Injective next := by
  intro a b h
  simp only [next, State.mk.injEq] at h
  obtain ⟨h0, h1, h2, h3⟩ := h
  have h31 : a.s3 ^^^ a.s1 = b.s3 ^^^ b.s1 := rotateLeft_injective (by decide) h3
  rw [h31] at h0
  have hs0 : a.s0 = b.s0 := (BitVec.xor_left_inj _).1 h0
  -- the new second and third words differ by `s1` and a shifted copy of it
  have hcancel : ∀ x m z : BitVec 64, (x ^^^ m) ^^^ (m ^^^ z) = x ^^^ z := by
    intro x m z
    rw [BitVec.xor_assoc, ← BitVec.xor_assoc m m z, BitVec.xor_self, BitVec.zero_xor]
  have hs1 : a.s1 = b.s1 := by
    refine xorShiftLeft_injective (k := 17) (by decide) ?_
    have hboth := congrArg₂ (· ^^^ ·) h1 h2
    simpa only [hcancel] using hboth
  have hs20 : a.s2 ^^^ a.s0 = b.s2 ^^^ b.s0 := by
    rw [hs1] at h1
    exact (BitVec.xor_right_inj _).1 h1
  rw [hs0] at hs20
  rw [hs1] at h31
  have hs2 : a.s2 = b.s2 := (BitVec.xor_left_inj _).1 hs20
  have hs3 : a.s3 = b.s3 := (BitVec.xor_left_inj _).1 h31
  cases a
  cases b
  simp only at hs0 hs1 hs2 hs3
  rw [hs0, hs1, hs2, hs3]

theorem iterate_next_zero (n : Nat) : next^[n] zero = zero := Function.iterate_fixed next_zero n

/-- No number of steps leads from another state to the fixed point. -/
theorem iterate_next_ne_zero {s : State} (h : s ≠ zero) (n : Nat) : next^[n] s ≠ zero := by
  intro hzero
  rw [← iterate_next_zero n] at hzero
  exact h (next_injective.iterate n hzero)

end State

end Xoshiro
