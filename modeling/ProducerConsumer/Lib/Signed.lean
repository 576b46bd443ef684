import Mathlib.Algebra.Order.BigOperators.Group.List
import Mathlib.Algebra.Order.Ring.Int
import Mathlib.Data.Nat.Cast.Basic

/-!
# Signed arithmetic without wrapping

Integers of a signed type of `w` bits, whose operations are undefined (`none`) where the exact result does not fit.  A
running sum is defined throughout if and only if all its partial sums fit (`SumsInRange`).
-/

namespace Signed

/-- The integers that a signed type of `w` bits holds. -/
def InRange (w : Nat) (n : Int) : Prop := -2 ^ (w - 1) ≤ n ∧ n ≤ 2 ^ (w - 1) - 1

instance (w : Nat) (n : Int) : Decidable (InRange w n) := inferInstanceAs (Decidable (_ ∧ _))

theorem inRange_64 {n : Int} : InRange 64 n ↔ -2 ^ 63 ≤ n ∧ n ≤ 2 ^ 63 - 1 := Iff.rfl

def checked (w : Nat) (n : Int) : Option Int := if InRange w n then some n else none

def add (w : Nat) (a b : Int) : Option Int := checked w (a + b)

def sub (w : Nat) (a b : Int) : Option Int := checked w (a - b)

/-- All sums of an initial part of `l`, added to `init`, fit. -/
def SumsInRange (w : Nat) (init : Int) (l : List Int) : Prop :=
  ∀ k < l.length, InRange w (init + (l.take (k + 1)).sum)

theorem SumsInRange.nil (w : Nat) (init : Int) : SumsInRange w init [] := by
  intro k hk
  cases hk

theorem sumsInRange_cons {w : Nat} {init n : Int} {l : List Int} :
    SumsInRange w init (n :: l) ↔ InRange w (init + n) ∧ SumsInRange w (init + n) l := by
  have hsucc (k : Nat) : init + ((n :: l).take (k + 1)).sum = init + n + (l.take k).sum := by
    rw [List.take_succ_cons, List.sum_cons, Int.add_assoc]
  constructor
  · intro h
    refine ⟨?_, fun k hk => ?_⟩
    · have hone := h 0 (Nat.succ_pos _)
      rw [hsucc] at hone
      simpa using hone
    · rw [← hsucc]
      exact h (k + 1) (Nat.succ_lt_succ hk)
  · rintro ⟨hone, hrest⟩ k hk
    rw [hsucc]
    cases k with
    | zero => simpa using hone
    | succ k => exact hrest k (Nat.lt_of_succ_lt_succ hk)

/-- Numbers of at most `bound` fit as long as `bound` times their count does. -/
theorem SumsInRange.of_bound {w : Nat} {bound : Int} {l : List Int} (h : ∀ n ∈ l, -bound ≤ n ∧ n ≤ bound)
    (hlen : l.length * bound ≤ 2 ^ (w - 1) - 1) : SumsInRange w 0 l := by
  intro k hk
  obtain ⟨m, hm⟩ : ∃ m, k + 1 = m := ⟨_, rfl⟩
  have hle : m ≤ l.length := by omega
  have hmem : ∀ n ∈ l.take m, -bound ≤ n ∧ n ≤ bound := fun n hn => h n (List.mem_of_mem_take hn)
  have hlow := (l.take m).card_nsmul_le_sum (-bound) fun n hn => (hmem n hn).1
  have hhigh := (l.take m).sum_le_card_nsmul bound fun n hn => (hmem n hn).2
  have hbound : 0 ≤ bound := by
    obtain ⟨n, hn⟩ := List.exists_mem_of_length_pos (Nat.zero_lt_of_lt hk)
    have := h n hn
    omega
  have hmul : (m : Int) * bound ≤ l.length * bound := Int.mul_le_mul_of_nonneg_right (Int.ofNat_le.2 hle) hbound
  rw [List.length_take_of_le hle, nsmul_eq_mul] at hlow hhigh
  rw [Int.mul_neg] at hlow
  rw [hm]
  constructor <;> omega

end Signed
