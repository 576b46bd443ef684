import Mathlib.Data.List.Basic
import Mathlib.Order.Interval.Finset.Nat

/-!
# Successive numbers

Numbers that should come one after the other: between two neighbours of a list some numbers may be skipped, or the second
may not come after the first.  Over the whole list, the numbers skipped less the distances fallen back telescope to the
distance of its ends (`telescope`); in an increasing list they are the numbers that are absent (`card_absent`).
-/

namespace Succession

/-- The numbers skipped between `a` and the next number `b`. -/
def skipped (a b : Nat) : Nat := b - (a + 1)

/-- How far `b` falls back behind the successor of `a`. -/
def fallen (a b : Nat) : Nat := a + 1 - b

/-- The sum of `f` over all neighbours. -/
def sumPairs (f : Nat → Nat → Nat) : List Nat → Nat
  | a :: b :: rest => f a b + sumPairs f (b :: rest)
  | _ => 0

theorem sumPairs_cons (f : Nat → Nat → Nat) (a b : Nat) (rest : List Nat) :
    sumPairs f (a :: b :: rest) = f a b + sumPairs f (b :: rest) := rfl

theorem sumPairs_eq_zero {f : Nat → Nat → Nat} {l : List Nat} :
    sumPairs f l = 0 ↔ l.IsChain fun a b => f a b = 0 := by
  induction l with
  | nil => exact iff_of_true rfl .nil
  | cons a rest ih =>
    cases rest with
    | nil => exact iff_of_true rfl (.singleton a)
    | cons b rest => rw [sumPairs_cons, Nat.add_eq_zero_iff, ih, List.isChain_cons_cons]

theorem sumPairs_fallen_eq_zero {l : List Nat} : sumPairs fallen l = 0 ↔ l.IsChain (· < ·) := by
  rw [sumPairs_eq_zero]
  exact ⟨fun h => h.imp fun a b => Nat.le_of_sub_eq_zero, fun h => h.imp fun a b => Nat.sub_eq_zero_of_le⟩

theorem telescope (a : Nat) (rest : List Nat) :
    (sumPairs skipped (a :: rest) : Int) - sumPairs fallen (a :: rest) =
      rest.getLastD a + 1 - a - (a :: rest).length := by
  induction rest generalizing a with
  | nil => simp [sumPairs]
  | cons b rest ih =>
    have hrest := ih b
    have hstep : (skipped a b : Int) - fallen a b = b - a - 1 := by
      simp only [skipped, fallen]
      omega
    rw [sumPairs_cons, sumPairs_cons, List.getLastD_cons, List.length_cons]
    push_cast
    omega

/-- Without numbers falling back, the list increases from its first to its last number. -/
theorem le_getLastD {a : Nat} {rest : List Nat} (h : (a :: rest).IsChain (· < ·)) {x : Nat} (hx : x ∈ a :: rest) :
    a ≤ x ∧ x ≤ rest.getLastD a := by
  induction rest generalizing a x with
  | nil =>
    rw [List.mem_singleton.1 hx]
    exact ⟨Nat.le_refl _, Nat.le_refl _⟩
  | cons b rest ih =>
    obtain ⟨hab, hrest⟩ := List.isChain_cons_cons.1 h
    rw [List.getLastD_cons]
    rcases List.mem_cons.1 hx with rfl | hx
    · have := ih hrest (x := b) (List.mem_cons_self ..)
      omega
    · have := ih hrest hx
      omega

/-- In an increasing list the skipped numbers are those between its ends that it does not have. -/
theorem card_absent {a : Nat} {rest : List Nat} (h : (a :: rest).IsChain (· < ·)) :
    (Finset.Icc a (rest.getLastD a) \ (a :: rest).toFinset).card = sumPairs skipped (a :: rest) := by
  have hsub : (a :: rest).toFinset ⊆ Finset.Icc a (rest.getLastD a) := by
    intro x hx
    exact Finset.mem_Icc.2 (le_getLastD h (List.mem_toFinset.1 hx))
  have hnodup : (a :: rest).Nodup := h.pairwise.imp fun hlt => Nat.ne_of_lt hlt
  have htelescope := telescope a rest
  rw [sumPairs_fallen_eq_zero.2 h] at htelescope
  rw [Finset.card_sdiff_of_subset hsub, Nat.card_Icc, List.toFinset_card_of_nodup hnodup]
  omega

/-- In an increasing list nothing is skipped exactly if each number is the successor of the one before. -/
theorem sumPairs_skipped_eq_zero {l : List Nat} (h : l.IsChain (· < ·)) :
    sumPairs skipped l = 0 ↔ l.IsChain fun a b => b = a + 1 := by
  rw [sumPairs_eq_zero]
  induction l with
  | nil => exact iff_of_true .nil .nil
  | cons a rest ih =>
    cases rest with
    | nil => exact iff_of_true (.singleton a) (.singleton a)
    | cons b rest =>
      obtain ⟨hab, hrest⟩ := List.isChain_cons_cons.1 h
      rw [List.isChain_cons_cons, List.isChain_cons_cons, ih hrest]
      refine and_congr_left fun _ => ?_
      simp only [skipped]
      omega

end Succession
