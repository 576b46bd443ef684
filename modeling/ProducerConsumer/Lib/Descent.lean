import ProducerConsumer.Lib.Machine

/-!
# Descent

A measure that every step of a certain kind lowers bounds the runs of such steps.  If one of them is enabled wherever the
machine is not yet where it should come, each such run that cannot be continued has come there, and there is one.
-/

namespace Transition

namespace Machine

variable {σ α : Type} {M : Machine σ α} {G : σ → α → Bool} {I F : σ → Prop} {μ : σ → Nat} {s t : σ}

/-- Steps with `G` keep `I` and lower `μ`. -/
structure Descends (M : Machine σ α) (G : σ → α → Bool) (I : σ → Prop) (μ : σ → Nat) : Prop where
  keep : ∀ {s t a}, I s → G s a = true → M.step s a = some t → I t
  lower : ∀ {s t a}, I s → G s a = true → M.step s a = some t → μ t < μ s

theorem runUnder_cons {a : α} {as : List α} (h : M.runUnder G s (a :: as) = some t) :
    ∃ m, G s a = true ∧ M.step s a = some m ∧ M.runUnder G m as = some t := by
  unfold runUnder at h
  obtain ⟨hg, h⟩ := Option.ite_none_right_eq_some.1 h
  obtain ⟨m, hm, ht⟩ := Option.bind_eq_some_iff.1 h
  exact ⟨m, hg, hm, ht⟩

/-- The run rule: a run of such steps is no longer than the measure falls. -/
theorem Descends.run (h : Descends M G I μ) {as : List α} (hi : I s) (hr : M.runUnder G s as = some t) :
    I t ∧ as.length + μ t ≤ μ s := by
  induction as generalizing s with
  | nil =>
    cases hr
    exact ⟨hi, by simp⟩
  | cons a as ih =>
    obtain ⟨m, hg, hm, hr⟩ := runUnder_cons hr
    obtain ⟨ht, hle⟩ := ih (h.keep hi hg hm) hr
    have hlt := h.lower hi hg hm
    refine ⟨ht, ?_⟩
    rw [List.length_cons]
    omega

/-- Steps with `own` lower `μ`, and no other step raises it. -/
structure Bounds (M : Machine σ α) (G : σ → α → Bool) (own : α → Bool) (I : σ → Prop) (μ : σ → Nat) : Prop where
  keep : ∀ {s t a}, I s → G s a = true → M.step s a = some t → I t
  lower : ∀ {s t a}, I s → G s a = true → own a = true → M.step s a = some t → μ t < μ s
  others : ∀ {s t a}, I s → G s a = true → own a = false → M.step s a = some t → μ t ≤ μ s

theorem runUnder_true (s : σ) (as : List α) : M.runUnder (fun _ _ => true) s as = M.run s as := by
  induction as generalizing s with
  | nil => rfl
  | cons a as ih => simp only [runUnder, run, ih, if_true]

/-- The run rule where others take steps in between: a run has no more steps with `own` than the measure falls. -/
theorem Bounds.run {own : α → Bool} (h : Bounds M G own I μ) {as : List α} (hi : I s)
    (hr : M.runUnder G s as = some t) : I t ∧ as.countP own + μ t ≤ μ s := by
  induction as generalizing s with
  | nil =>
    cases hr
    exact ⟨hi, by simp⟩
  | cons a as ih =>
    obtain ⟨m, hg, hm, hr⟩ := runUnder_cons hr
    obtain ⟨ht, hle⟩ := ih (h.keep hi hg hm) hr
    refine ⟨ht, ?_⟩
    cases hown : own a with
    | true =>
      have hlt := h.lower hi hg hown hm
      rw [List.countP_cons_of_pos hown]
      omega
    | false =>
      have hle' := h.others hi hg hown hm
      rw [List.countP_cons_of_neg (by rw [hown]; nofun)]
      omega

end Machine

end Transition
