import Mathlib.Data.List.Basic

/-!
# State machines with partial steps

A machine is a set of initial states and a partial step function: an action is enabled in a state where its step is
defined.  A run is a list of enabled actions, so "every interleaving" is "every list of actions".  The two rules used
below are the invariant rule (`Reachable.invariant`) and the simulation rule (`Simulation.reachable`); both are also
available for runs all of whose steps satisfy a side condition (`ReachableUnder`).
-/

namespace Transition

/-- A machine with states `σ` and actions `α`. -/
structure Machine (σ α : Type) where
  init : σ → Prop
  step : σ → α → Option σ

namespace Machine

variable {σ α : Type}

/-- The state after the actions `as`, provided each of them is enabled when its turn comes. -/
def run (M : Machine σ α) (s : σ) : List α → Option σ
  | [] => some s
  | a :: as => (M.step s a).bind fun t => M.run t as

/-- The states of the runs all of whose steps satisfy `G`, a condition on the state before the step and the action. -/
inductive ReachableUnder (M : Machine σ α) (G : σ → α → Prop) : σ → Prop
  | init {s : σ} : M.init s → ReachableUnder M G s
  | step {s t : σ} {a : α} : ReachableUnder M G s → G s a → M.step s a = some t → ReachableUnder M G t

/-- The states of all runs. -/
def Reachable (M : Machine σ α) (s : σ) : Prop := M.ReachableUnder (fun _ _ => True) s

variable {M : Machine σ α} {G : σ → α → Prop}

theorem run_cons {s : σ} {a : α} {as : List α} {u : σ} (h : M.run s (a :: as) = some u) :
    ∃ t, M.step s a = some t ∧ M.run t as = some u := by
  unfold run at h
  exact Option.bind_eq_some_iff.1 h

theorem run_append {s t : σ} {as bs : List α} (h : M.run s as = some t) :
    M.run s (as ++ bs) = M.run t bs := by
  induction as generalizing s with
  | nil => cases h; rfl
  | cons a as ih =>
    obtain ⟨m, hm, ht⟩ := run_cons h
    simp only [List.cons_append, run, hm, Option.bind_some]
    exact ih ht

theorem Reachable.init {s : σ} (h : M.init s) : M.Reachable s := ReachableUnder.init h

theorem Reachable.step {s t : σ} {a : α} (h : M.Reachable s) (hs : M.step s a = some t) : M.Reachable t :=
  ReachableUnder.step h trivial hs

theorem ReachableUnder.reachable {s : σ} (h : M.ReachableUnder G s) : M.Reachable s := by
  induction h with
  | init h => exact Reachable.init h
  | step _ _ hs ih => exact ih.step hs

theorem ReachableUnder.mono {G' : σ → α → Prop} {s : σ} (h : M.ReachableUnder G s) (hG : ∀ s a, G s a → G' s a) :
    M.ReachableUnder G' s := by
  induction h with
  | init h => exact .init h
  | step _ hg hs ih => exact ih.step (hG _ _ hg) hs

/-- Reachability along a run. -/
theorem Reachable.run {s t : σ} {as : List α} (h : M.Reachable s) (hr : M.run s as = some t) :
    M.Reachable t := by
  induction as generalizing s with
  | nil => cases hr; exact h
  | cons a as ih =>
    obtain ⟨m, hm, ht⟩ := run_cons hr
    exact ih (h.step hm) ht

/-- The run of the actions `as`, provided each of them also meets a condition. -/
def runUnder (M : Machine σ α) (G : σ → α → Bool) (s : σ) : List α → Option σ
  | [] => some s
  | a :: as => if G s a then (M.step s a).bind fun t => M.runUnder G t as else none

/-- A run on which a check, by an invariant of the checked steps, grants the side condition. -/
theorem ReachableUnder.checked {check : σ → α → Bool} {I : σ → Prop} (hG : ∀ s a, I s → check s a = true → G s a)
    (hstep : ∀ s a t, I s → check s a = true → M.step s a = some t → I t) {s t : σ} {as : List α}
    (h : M.ReachableUnder G s) (hi : I s) (hr : M.runUnder check s as = some t) : M.ReachableUnder G t := by
  induction as generalizing s with
  | nil => cases hr; exact h
  | cons a as ih =>
    unfold Machine.runUnder at hr
    obtain ⟨hc, hr⟩ := Option.ite_none_right_eq_some.1 hr
    obtain ⟨m, hm, ht⟩ := Option.bind_eq_some_iff.1 hr
    exact ih (h.step (hG s a hi hc) hm) (hstep s a m hi hc hm) ht

theorem ReachableUnder.runUnder {G : σ → α → Bool} {s t : σ} {as : List α}
    (h : M.ReachableUnder (fun s a => G s a = true) s) (hr : M.runUnder G s as = some t) :
    M.ReachableUnder (fun s a => G s a = true) t :=
  checked (I := fun _ => True) (fun _ _ _ hc => hc) (fun _ _ _ _ _ _ => trivial) h trivial hr

/-- Some run leads from one state to the other. -/
def Leads (M : Machine σ α) (s t : σ) : Prop := ∃ as, M.run s as = some t

theorem Leads.refl (s : σ) : M.Leads s s := ⟨[], rfl⟩

theorem Leads.step {s m t : σ} (a : α) (hs : M.step s a = some m) (h : M.Leads m t) : M.Leads s t := by
  obtain ⟨as, hr⟩ := h
  refine ⟨a :: as, ?_⟩
  simp only [run, hs, Option.bind_some]
  exact hr

theorem Leads.trans {s m t : σ} (h : M.Leads s m) (h' : M.Leads m t) : M.Leads s t := by
  obtain ⟨as, hr⟩ := h
  obtain ⟨bs, hr'⟩ := h'
  exact ⟨as ++ bs, (run_append hr).trans hr'⟩

/-- The invariant rule: what holds initially and is preserved by every step from a state where it holds, holds in
every reachable state. -/
theorem ReachableUnder.invariant {I : σ → Prop} (h0 : ∀ s, M.init s → I s)
    (hstep : ∀ s a t, I s → G s a → M.step s a = some t → I t) {s : σ} (h : M.ReachableUnder G s) : I s := by
  induction h with
  | init h => exact h0 _ h
  | step _ hg hs ih => exact hstep _ _ _ ih hg hs

theorem Reachable.invariant {I : σ → Prop} (h0 : ∀ s, M.init s → I s)
    (hstep : ∀ s a t, I s → M.step s a = some t → I t) {s : σ} (h : M.Reachable s) : I s :=
  ReachableUnder.invariant h0 (fun s a t hi _ hs => hstep s a t hi hs) h

/-- What a step preserves along a run of actions from a set `A`. -/
theorem run_invariant {I : σ → Prop} {A : α → Prop} (hstep : ∀ s a t, A a → I s → M.step s a = some t → I t)
    {s t : σ} {as : List α} (hA : ∀ a ∈ as, A a) (hi : I s) (hr : M.run s as = some t) : I t := by
  induction as generalizing s with
  | nil => cases hr; exact hi
  | cons a as ih =>
    obtain ⟨m, hm, ht⟩ := run_cons hr
    exact ih (fun b hb => hA b (List.mem_cons_of_mem _ hb)) (hstep s a m (hA a (List.mem_cons_self ..)) hi hm) ht

/-- A run of actions from `A`, each of which meets the side condition as long as `I` holds. -/
theorem ReachableUnder.run {I : σ → Prop} {A : α → Prop} (hG : ∀ s a, A a → I s → G s a)
    (hstep : ∀ s a t, A a → I s → M.step s a = some t → I t) {s t : σ} {as : List α} (h : M.ReachableUnder G s)
    (hA : ∀ a ∈ as, A a) (hi : I s) (hr : M.run s as = some t) : M.ReachableUnder G t ∧ I t := by
  refine run_invariant (I := fun t => M.ReachableUnder G t ∧ I t) (A := A) ?_ hA ⟨h, hi⟩ hr
  rintro s a t ha ⟨hs, hi⟩ ht
  exact ⟨hs.step (hG s a ha hi) ht, hstep s a t ha hi ht⟩

/-- `M` is simulated by `N` along `f`, while `M` keeps the invariant `I`: every step of `M` is a run of `N`. -/
structure Simulation {τ β : Type} (M : Machine σ α) (N : Machine τ β) (f : σ → τ) (I : σ → Prop) : Prop where
  init : ∀ s, M.init s → N.init (f s)
  step : ∀ s a t, I s → M.step s a = some t → ∃ bs, N.run (f s) bs = some (f t)

/-- The simulation rule. -/
theorem Simulation.reachable {τ β : Type} {N : Machine τ β} {f : σ → τ} {I : σ → Prop}
    (h : Simulation M N f I) (hI : ∀ s, M.Reachable s → I s) {s : σ} (hs : M.Reachable s) :
    N.Reachable (f s) := by
  induction hs with
  | init h0 => exact Reachable.init (h.init _ h0)
  | step hr _ hst ih =>
    obtain ⟨bs, hbs⟩ := h.step _ _ _ (hI _ hr) hst
    exact ih.run hbs

end Machine

end Transition
