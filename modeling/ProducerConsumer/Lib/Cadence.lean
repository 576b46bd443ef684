import Mathlib.Algebra.Order.Group.Defs
import Mathlib.Algebra.Order.Group.Basic

/-!
# Schedules that keep a cadence

Slot `k` is scheduled at `n k` and taken at `g k`, not before its time.  The next slot follows one interval after the
scheduled time, or one interval after the slot was taken if that was a whole interval late.
-/

namespace Cadence

variable {T : Type*} [AddCommGroup T] [LinearOrder T] [IsOrderedAddMonoid T]

/-- The time of the slot after the one that was scheduled at `n` and taken at `g`. -/
def nextSlot (interval n g : T) : T := if g - n < interval then n + interval else g + interval

/-- The first `m` slots are taken no earlier than scheduled, and each schedules the next. -/
structure Keeps (interval : T) (n g : Nat → T) (m : Nat) : Prop where
  taken : ∀ k < m, n k ≤ g k
  next : ∀ k < m, n (k + 1) = nextSlot interval (n k) (g k)

theorem lt_nextSlot {interval n g : T} (hpos : 0 < interval) : g < nextSlot interval n g := by
  unfold nextSlot
  split
  · rename_i h
    rwa [sub_lt_iff_lt_add, add_comm] at h
  · exact lt_add_of_pos_right g hpos

theorem add_le_nextSlot {interval n g : T} (h : n ≤ g) : n + interval ≤ nextSlot interval n g := by
  unfold nextSlot
  split
  · exact le_rfl
  · exact add_le_add_left h interval

namespace Keeps

variable {interval : T} {n g : Nat → T} {m : Nat}

/-- Later slots are at least their number of intervals away. -/
theorem add_nsmul_le (h : Keeps interval n g m) {i d : Nat} (hd : i + d ≤ m) : n i + d • interval ≤ n (i + d) := by
  induction d with
  | zero => simp
  | succ d ih =>
    calc n i + (d + 1) • interval = n i + d • interval + interval := by rw [succ_nsmul, add_assoc]
      _ ≤ n (i + d) + interval := add_le_add_left (ih (by omega)) interval
      _ ≤ nextSlot interval (n (i + d)) (g (i + d)) := add_le_nextSlot (h.taken _ (by omega))
      _ = n (i + (d + 1)) := (h.next _ (by omega)).symm

/-- After any delay at most one slot follows early: `d + 1` slots later at least `d` whole intervals have passed. -/
theorem spaced (h : Keeps interval n g m) (hpos : 0 < interval) {i d : Nat} (hd : i + d + 1 < m) :
    d • interval < g (i + d + 1) - g i := by
  rw [lt_sub_iff_add_lt, add_comm]
  calc g i + d • interval < n (i + 1) + d • interval := by
        rw [h.next i (by omega)]
        exact add_lt_add_left (lt_nextSlot hpos) _
    _ ≤ n (i + 1 + d) := h.add_nsmul_le (by omega)
    _ ≤ g (i + 1 + d) := h.taken _ (by omega)
    _ = g (i + d + 1) := by rw [Nat.add_right_comm]

omit [IsOrderedAddMonoid T] in
/-- As long as no slot is a whole interval late, the schedule does not drift. -/
theorem on_time (h : Keeps interval n g m) (hlate : ∀ k < m, g k - n k < interval) {i : Nat} (hi : i ≤ m) :
    n i = n 0 + i • interval := by
  induction i with
  | zero => simp
  | succ i ih =>
    rw [h.next i (by omega), nextSlot, if_pos (hlate i (by omega)), ih (by omega), succ_nsmul, add_assoc]

end Keeps

end Cadence
