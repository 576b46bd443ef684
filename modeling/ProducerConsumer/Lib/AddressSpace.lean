import Mathlib.Logic.Equiv.Basic
import Mathlib.Tactic.Common

/-!
# Address spaces

An address space says what each address refers to, if it is mapped.  Mapping a range replaces what was there, unmapping a
range removes it.  A space is tiled by its parts if it is their union and no two of them have an address in common: every
mapped address then has one owner.  Mapping a free range for one owner, replacing or unmapping a range that no one else
has a part of, and handing all of one part over to an owner that has nothing keep a tiling.
-/

namespace AddressSpace

@[ext]
structure Space (β : Type) where
  get : Nat → Option β

namespace Space

variable {β : Type} {s : Space β} {base len a i : Nat} {f : Nat → β}

def empty : Space β := ⟨fun _ => none⟩

/-- The addresses from `base` on refer to `f 0`, `f 1`, and so on. -/
def map (s : Space β) (base len : Nat) (f : Nat → β) : Space β :=
  ⟨fun a => if base ≤ a ∧ a < base + len then some (f (a - base)) else s.get a⟩

def unmap (s : Space β) (base len : Nat) : Space β :=
  ⟨fun a => if base ≤ a ∧ a < base + len then none else s.get a⟩

/-- Some addresses of the range are unmapped, those that are kept are not. -/
def punch (s : Space β) (base len : Nat) (kept : Nat → Bool) : Space β :=
  ⟨fun a => if base ≤ a ∧ a < base + len ∧ kept a = false then none else s.get a⟩

def Free (s : Space β) (base len : Nat) : Prop := ∀ i < len, s.get (base + i) = none

instance : Decidable (s.Free base len) := by
  unfold Free
  infer_instance

theorem Free.get (h : s.Free base len) (ha : base ≤ a) (hlt : a < base + len) : s.get a = none := by
  have hi := h (a - base) (by omega)
  rwa [Nat.add_sub_cancel' ha] at hi

/-- A free range is beside every range that is mapped. -/
theorem Free.apart (h : s.Free base len) {other n : Nat} (hmapped : ∀ d < n, s.get (other + d) ≠ none) (hlen : 0 < len)
    (hn : 0 < n) : other + n ≤ base ∨ base + len ≤ other := by
  by_contra hboth
  rw [not_or, Nat.not_le, Nat.not_le] at hboth
  rcases Nat.le_total base other with hle | hle
  · exact hmapped 0 hn (h.get hle (by omega))
  · obtain ⟨d, rfl⟩ := Nat.exists_eq_add_of_le hle
    exact hmapped d (by omega) (h.get (Nat.le_refl _) (by omega))

theorem get_empty : (empty : Space β).get a = none := rfl

theorem get_map_inside (h : i < len) : (s.map base len f).get (base + i) = some (f i) := by
  show (if base ≤ base + i ∧ base + i < base + len then some (f (base + i - base)) else s.get (base + i)) = some (f i)
  rw [if_pos ⟨Nat.le_add_right _ _, Nat.add_lt_add_left h _⟩, Nat.add_sub_cancel_left]

theorem get_map_outside (h : ¬(base ≤ a ∧ a < base + len)) : (s.map base len f).get a = s.get a := if_neg h

theorem get_unmap_inside (h : base ≤ a ∧ a < base + len) : (s.unmap base len).get a = none := if_pos h

theorem get_unmap_outside (h : ¬(base ≤ a ∧ a < base + len)) : (s.unmap base len).get a = s.get a := if_neg h

theorem get_punch_inside {kept : Nat → Bool} (h : base ≤ a ∧ a < base + len) :
    (s.punch base len kept).get a = if kept a then s.get a else none := by
  show (if base ≤ a ∧ a < base + len ∧ kept a = false then none else s.get a) = _
  by_cases hkept : kept a = true
  · rw [if_neg fun hin => by simp [hkept] at hin, if_pos hkept]
  · rw [if_pos ⟨h.1, h.2, by simpa using hkept⟩, if_neg hkept]

theorem get_punch_outside {kept : Nat → Bool} (h : ¬(base ≤ a ∧ a < base + len)) :
    (s.punch base len kept).get a = s.get a := if_neg fun hin => h ⟨hin.1, hin.2.1⟩

theorem map_ne_none (h : (s.map base len f).get a ≠ none) : base ≤ a ∧ a < base + len ∨ s.get a ≠ none := by
  by_cases hin : base ≤ a ∧ a < base + len
  · exact .inl hin
  · rw [get_map_outside hin] at h
    exact .inr h

end Space

open Space

/-- The space is the union of the parts, and no two of them have an address in common. -/
structure Tiles {ι β : Type} (part : ι → Space β) (s : Space β) : Prop where
  sub : ∀ i a b, (part i).get a = some b → s.get a = some b
  cover : ∀ a b, s.get a = some b → ∃ i, (part i).get a = some b
  apart : ∀ i j a, (part i).get a ≠ none → (part j).get a ≠ none → i = j

namespace Tiles

variable {ι β : Type} {part part' : ι → Space β} {s s' : Space β} {i j : ι} {base len : Nat} {f : Nat → β}

/-- Nobody but `i` has an address of the range. -/
def Exclusive (part : ι → Space β) (i : ι) (base len : Nat) : Prop :=
  ∀ j a, base ≤ a → a < base + len → (part j).get a ≠ none → j = i

theorem exclusive_of_free (h : Tiles part s) (hfree : s.Free base len) (i : ι) : Exclusive part i base len := by
  intro j a hle hlt hj
  obtain ⟨b, hb⟩ := Option.ne_none_iff_exists'.1 hj
  have hnone := hfree.get hle hlt
  rw [h.sub j a b hb] at hnone
  cases hnone

/-- An owner with an address of a range has its part changed there, and nobody else is concerned. -/
theorem change [DecidableEq ι] (h : Tiles part s) (hown : Exclusive part i base len) {p : Space β}
    (hinside : ∀ a, base ≤ a → a < base + len → p.get a = s'.get a)
    (houtside : ∀ a, ¬(base ≤ a ∧ a < base + len) → p.get a = (part i).get a ∧ s'.get a = s.get a) :
    Tiles (Function.update part i p) s' := by
  refine ⟨fun j a b hj => ?_, fun a b ha => ?_, fun j k a hj hk => ?_⟩
  · by_cases hin : base ≤ a ∧ a < base + len
    · by_cases hji : j = i
      · subst hji
        rw [Function.update_self, hinside a hin.1 hin.2] at hj
        exact hj
      · rw [Function.update_of_ne hji] at hj
        exact absurd (hown j a hin.1 hin.2 (by simp [hj])) hji
    · obtain ⟨hp, hs⟩ := houtside a hin
      rw [hs]
      by_cases hji : j = i
      · subst hji
        rw [Function.update_self, hp] at hj
        exact h.sub j a b hj
      · rw [Function.update_of_ne hji] at hj
        exact h.sub j a b hj
  · by_cases hin : base ≤ a ∧ a < base + len
    · refine ⟨i, ?_⟩
      rw [Function.update_self, hinside a hin.1 hin.2, ha]
    · obtain ⟨hp, hs⟩ := houtside a hin
      rw [hs] at ha
      obtain ⟨j, hj⟩ := h.cover a b ha
      refine ⟨j, ?_⟩
      by_cases hji : j = i
      · subst hji
        rw [Function.update_self, hp, hj]
      · rw [Function.update_of_ne hji, hj]
  · -- a range that concerns only `i` cannot bring two owners together
    have hback {l : ι} (hl : (Function.update part i p l).get a ≠ none) :
        l = i ∨ (part l).get a ≠ none ∧ ¬(base ≤ a ∧ a < base + len) := by
      by_cases hli : l = i
      · exact .inl hli
      · rw [Function.update_of_ne hli] at hl
        exact .inr ⟨hl, fun hin => hli (hown l a hin.1 hin.2 hl)⟩
    rcases hback hj with rfl | ⟨hj', hout⟩
    · rcases hback hk with rfl | ⟨hk', hout⟩
      · rfl
      · rw [Function.update_self, (houtside a hout).1] at hj
        exact h.apart _ _ a hj hk'
    · rcases hback hk with rfl | ⟨hk', -⟩
      · rw [Function.update_self, (houtside a hout).1] at hk
        exact h.apart _ _ a hj' hk
      · exact h.apart _ _ a hj' hk'

/-- Mapping a range that nobody else has a part of. -/
theorem map [DecidableEq ι] (h : Tiles part s) (hown : Exclusive part i base len) :
    Tiles (Function.update part i ((part i).map base len f)) (s.map base len f) := by
  refine h.change hown (fun a hle hlt => ?_) fun a hout => ?_
  · obtain ⟨k, rfl⟩ := Nat.exists_eq_add_of_le hle
    rw [get_map_inside (by omega), get_map_inside (by omega)]
  · exact ⟨get_map_outside hout, get_map_outside hout⟩

/-- Unmapping a range that nobody else has a part of. -/
theorem unmap [DecidableEq ι] (h : Tiles part s) (hown : Exclusive part i base len) :
    Tiles (Function.update part i ((part i).unmap base len)) (s.unmap base len) := by
  refine h.change hown (fun a hle hlt => ?_) fun a hout => ?_
  · rw [get_unmap_inside ⟨hle, hlt⟩, get_unmap_inside ⟨hle, hlt⟩]
  · exact ⟨get_unmap_outside hout, get_unmap_outside hout⟩

/-- Holes in a range that is all of one part. -/
theorem punch [DecidableEq ι] (h : Tiles part s) (hown : Exclusive part i base len) (kept : Nat → Bool) :
    Tiles (Function.update part i ((part i).punch base len kept)) (s.punch base len kept) := by
  refine h.change hown (fun a hle hlt => ?_) fun a hout => ?_
  · rw [get_punch_inside ⟨hle, hlt⟩, get_punch_inside ⟨hle, hlt⟩]
    -- what the space has in the range is what the part has
    cases hpart : (part i).get a with
    | some b => rw [h.sub i a b hpart]
    | none =>
      cases hspace : s.get a with
      | none => rfl
      | some b =>
        obtain ⟨j, hj⟩ := h.cover a b hspace
        rw [hown j a hle hlt (by simp [hj]), hpart] at hj
        cases hj
  · exact ⟨get_punch_outside hout, get_punch_outside hout⟩

/-- Handing the parts over from owner to owner. -/
theorem relabel (h : Tiles part s) (σ : Equiv.Perm ι) : Tiles (part ∘ σ) s := by
  refine ⟨fun i => h.sub (σ i), fun a b ha => ?_, fun i j a hi hj => σ.injective (h.apart _ _ a hi hj)⟩
  obtain ⟨i, hi⟩ := h.cover a b ha
  exact ⟨σ.symm i, by rw [Function.comp_apply, Equiv.apply_symm_apply, hi]⟩

end Tiles

end AddressSpace
