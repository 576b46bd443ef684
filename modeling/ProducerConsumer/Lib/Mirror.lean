import Mathlib.Logic.Function.Basic
import Mathlib.Data.List.Basic
import Mathlib.Data.List.Range
import Mathlib.Data.Int.ModEq
import Mathlib.Tactic.Common

/-!
# Mirrored memory

A memory of `capacity` cells that is mapped several times back to back: the address `a` denotes the cell
`a % capacity`, so `a` and `a + capacity` are the same cell and a block that crosses the end continues at the start.
Blocks are read and written by address; a write to a block does not show in a block whose cells are different.
-/

namespace Mirrored

/-- Cells addressed modulo the capacity. -/
structure Memory (α : Type) where
  capacity : Nat
  pos : 0 < capacity
  cells : Nat → α

namespace Memory

variable {α : Type}

def get (m : Memory α) (a : Nat) : α := m.cells (a % m.capacity)

def set (m : Memory α) (a : Nat) (v : α) : Memory α :=
  { m with cells := Function.update m.cells (a % m.capacity) v }

/-- The `n` values from the address `a` on. -/
def read (m : Memory α) (a n : Nat) : List α := (List.range n).map fun i => m.get (a + i)

/-- Stores the values one after another from the address `a` on. -/
def write (m : Memory α) (a : Nat) : List α → Memory α
  | [] => m
  | v :: vs => (m.set a v).write (a + 1) vs

/-! ### Addresses -/

@[simp] theorem set_capacity (m : Memory α) (a : Nat) (v : α) : (m.set a v).capacity = m.capacity := rfl

@[simp] theorem write_capacity (m : Memory α) (a : Nat) (vs : List α) : (m.write a vs).capacity = m.capacity := by
  induction vs generalizing m a with
  | nil => rfl
  | cons v vs ih => rw [write, ih, set_capacity]

theorem get_congr (m : Memory α) {a b : Nat} (h : a % m.capacity = b % m.capacity) : m.get a = m.get b := by
  rw [get, get, h]

/-- Different addresses less than a capacity apart are different cells. -/
theorem mod_ne {a b c : Nat} (hab : a < b) (hbc : b < a + c) : a % c ≠ b % c := by
  intro h
  have hdvd : c ∣ b - a := (Nat.modEq_iff_dvd' (Nat.le_of_lt hab)).1 h
  have := Nat.le_of_dvd (by omega) hdvd
  omega

/-! ### One cell -/

theorem get_set (m : Memory α) (a b : Nat) (v : α) :
    (m.set a v).get b = if b % m.capacity = a % m.capacity then v else m.get b := by
  simp only [get, set, Function.update_apply]

theorem get_set_self (m : Memory α) (a : Nat) (v : α) : (m.set a v).get a = v := by
  rw [get_set, if_pos rfl]

theorem get_set_ne (m : Memory α) {a b : Nat} (v : α) (h : b % m.capacity ≠ a % m.capacity) :
    (m.set a v).get b = m.get b := by
  rw [get_set, if_neg h]

theorem set_congr (m : Memory α) {a b : Nat} (v : α) (h : a % m.capacity = b % m.capacity) :
    m.set a v = m.set b v := by
  rw [set, set, h]

/-! ### Blocks -/

@[simp] theorem length_read (m : Memory α) (a n : Nat) : (m.read a n).length = n := by
  simp [read]

theorem read_succ (m : Memory α) (a n : Nat) : m.read a (n + 1) = m.get a :: m.read (a + 1) n := by
  simp only [read, List.range_succ_eq_map, List.map_cons, List.map_map, Nat.add_zero]
  congr 1
  apply List.map_congr_left
  intro i _
  simp only [Function.comp, Nat.succ_eq_add_one]
  rw [Nat.add_assoc, Nat.add_comm 1 i]

theorem read_add (m : Memory α) (a n k : Nat) : m.read a (n + k) = m.read a n ++ m.read (a + n) k := by
  simp only [read, List.range_add, List.map_append, List.map_map]
  congr 1
  apply List.map_congr_left
  intro i _
  simp only [Function.comp, Nat.add_assoc]

theorem getElem?_read (m : Memory α) (a : Nat) {n i : Nat} (h : i < n) : (m.read a n)[i]? = some (m.get (a + i)) := by
  simp [read, h]

theorem read_congr (m : Memory α) {a b : Nat} (n : Nat) (h : a % m.capacity = b % m.capacity) :
    m.read a n = m.read b n := by
  apply List.map_congr_left
  intro i _
  exact m.get_congr (by rw [Nat.add_mod, h, ← Nat.add_mod])

theorem write_congr (m : Memory α) {a b : Nat} (vs : List α) (h : a % m.capacity = b % m.capacity) :
    m.write a vs = m.write b vs := by
  induction vs generalizing m a b with
  | nil => rfl
  | cons v vs ih =>
    rw [write, write, m.set_congr v h]
    exact ih _ (by rw [set_capacity, Nat.add_mod, h, ← Nat.add_mod])

/-- Two memories that agree on the cells of a block show the same block. -/
theorem read_eq_of_get {m m' : Memory α} {a n : Nat} (h : ∀ i < n, m'.get (a + i) = m.get (a + i)) :
    m'.read a n = m.read a n := by
  apply List.map_congr_left
  intro i hi
  exact h i (List.mem_range.1 hi)

theorem get_write_of_disjoint (m : Memory α) {a b : Nat} {vs : List α}
    (h : ∀ i < vs.length, b % m.capacity ≠ (a + i) % m.capacity) : (m.write a vs).get b = m.get b := by
  induction vs generalizing m a with
  | nil => rfl
  | cons v vs ih =>
    rw [write, ih]
    · exact m.get_set_ne v (h 0 (by simp))
    · intro i hi
      rw [set_capacity, Nat.add_assoc, Nat.add_comm 1 i]
      exact h (i + 1) (by simpa using hi)

/-- A block that is written is read back, if it does not overlap itself. -/
theorem read_write (m : Memory α) (a : Nat) {vs : List α} (h : vs.length ≤ m.capacity) :
    (m.write a vs).read a vs.length = vs := by
  induction vs generalizing m a with
  | nil => rfl
  | cons v vs ih =>
    rw [List.length_cons] at h ⊢
    rw [write, read_succ, ih _ _ (by rw [set_capacity]; omega), get_write_of_disjoint, get_set_self]
    intro i hi
    rw [set_capacity]
    exact mod_ne (by omega) (by omega)

/-- A write between `hi` and `lo + capacity` leaves the block from `lo` to `hi` as it is. -/
theorem read_write_outside (m : Memory α) {lo n a : Nat} {vs : List α} (h₁ : lo + n ≤ a)
    (h₂ : a + vs.length ≤ lo + m.capacity) : (m.write a vs).read lo n = m.read lo n := by
  apply read_eq_of_get
  intro i hi
  apply get_write_of_disjoint
  intro j hj
  exact mod_ne (by omega) (by omega)

theorem read_set_outside (m : Memory α) {lo n a : Nat} {v : α} (h₁ : lo + n ≤ a)
    (h₂ : a < lo + m.capacity) : (m.set a v).read lo n = m.read lo n := by
  have h : a + [v].length ≤ lo + m.capacity := by simp; omega
  exact m.read_write_outside h₁ h

/-- Setting the cell number `i` of a block. -/
theorem read_set_inside (m : Memory α) {a n i : Nat} {v : α} (hi : i < n) (hn : n ≤ m.capacity) :
    (m.set (a + i) v).read a n = (m.read a n).set i v := by
  apply List.ext_getElem?
  intro j
  by_cases hj : j < n
  · rw [getElem?_read _ _ hj, List.getElem?_set, length_read, if_pos hi, getElem?_read _ _ hj]
    by_cases hij : i = j
    · subst hij
      rw [if_pos rfl, get_set_self]
    · rw [if_neg hij, get_set_ne]
      rcases Nat.lt_or_gt_of_ne hij with h | h
      · exact (mod_ne (by omega) (by omega)).symm
      · exact mod_ne (by omega) (by omega)
  · rw [List.getElem?_eq_none (by simp; omega), List.getElem?_eq_none (by simp; omega)]

end Memory

end Mirrored
