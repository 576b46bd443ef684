import Mathlib.Data.Nat.Init
import Mathlib.Tactic.Push
import ProducerConsumer.Lib.Machine

/-!
# Executions and fairness

An execution is an infinite sequence of states, each of which comes from the one before by a step of the machine or is
the same.  It is fair to a set of actions if these are not enabled for ever without one of them being taken.  The rule for
liveness is the descent of a measure over time: as long as the goal is not reached no step raises it, and again and again
one lowers it.
-/

namespace Transition

structure Execution {σ α : Type} (M : Machine σ α) where
  state : Nat → σ
  action : Nat → Option α
  next : ∀ i, (action i).elim (some (state i)) (M.step (state i)) = some (state (i + 1))

namespace Execution

variable {σ α : Type} {M : Machine σ α} {T : α → Bool} {P Q : Nat → Prop} {r : Nat → Nat} {i j : Nat}

/-- One of the actions in `T` is enabled. -/
def Enabled (M : Machine σ α) (T : α → Bool) (s : σ) : Prop := ∃ a t, T a = true ∧ M.step s a = some t

/-- Weak fairness: one of the actions in `T` is taken unless none of them is enabled at some later time. -/
def Fair (e : Execution M) (T : α → Bool) : Prop :=
  ∀ i, (∀ j, i ≤ j → Enabled M T (e.state j)) → ∃ j a, i ≤ j ∧ e.action j = some a ∧ T a = true

variable {e : Execution M}

/-- What happens at a time: nothing, or a step. -/
theorem cases (e : Execution M) (i : Nat) :
    e.action i = none ∧ e.state (i + 1) = e.state i ∨
      ∃ a, e.action i = some a ∧ M.step (e.state i) a = some (e.state (i + 1)) := by
  have hnext := e.next i
  cases ha : e.action i with
  | none =>
    rw [ha] at hnext
    exact .inl ⟨rfl, (Option.some.inj hnext).symm⟩
  | some a =>
    rw [ha] at hnext
    exact .inr ⟨a, rfl, hnext⟩

theorem step_of_action {a : α} (ha : e.action i = some a) : M.step (e.state i) a = some (e.state (i + 1)) := by
  have hnext := e.next i
  rw [ha] at hnext
  exact hnext

/-- What each step from a time on keeps. -/
theorem always {I : σ → Prop}
    (hstep : ∀ j a, i ≤ j → e.action j = some a → I (e.state j) → I (e.state (j + 1))) (hi : I (e.state i)) (hij : i ≤ j) :
    I (e.state j) := by
  induction j, hij using Nat.le_induction with
  | base => exact hi
  | succ j hij ih =>
    rcases e.cases j with ⟨-, hidle⟩ | ⟨a, ha, -⟩
    · rw [hidle]
      exact ih
    · exact hstep j a hij ha ih

theorem reachable (h : M.Reachable (e.state 0)) (i : Nat) : M.Reachable (e.state i) :=
  always (I := M.Reachable) (fun _ _ _ ha hr => hr.step (step_of_action ha)) h (Nat.zero_le i)

/-- The liveness rule. -/
theorem leadsTo (hkeep : ∀ i, P i → Q (i + 1) ∨ P (i + 1) ∧ r (i + 1) ≤ r i)
    (hlower : ∀ i, (∀ j, i ≤ j → P j ∧ ¬Q (j + 1)) → ∃ j, i ≤ j ∧ r (j + 1) < r j) (hi : P i) : ∃ j, i ≤ j ∧ Q j := by
  by_contra hnot
  push Not at hnot
  have hp : ∀ j, i ≤ j → P j := by
    intro j hij
    induction j, hij using Nat.le_induction with
    | base => exact hi
    | succ j hij ih => exact ((hkeep j ih).resolve_left (hnot _ (by omega))).1
  have hfall : ∀ k j, i ≤ j → j ≤ k → r k ≤ r j := by
    intro k j hij hjk
    induction k, hjk using Nat.le_induction with
    | base => exact Nat.le_refl _
    | succ k hjk ih =>
      have := ((hkeep k (hp k (by omega))).resolve_left (hnot _ (by omega))).2
      omega
  -- the measure falls for ever
  have hdeep : ∀ n, ∃ j, i ≤ j ∧ r j + n ≤ r i := by
    intro n
    induction n with
    | zero => exact ⟨i, Nat.le_refl _, Nat.le_refl _⟩
    | succ n ih =>
      obtain ⟨j, hij, hn⟩ := ih
      obtain ⟨k, hjk, hlt⟩ := hlower j fun k hjk => ⟨hp k (by omega), hnot _ (by omega)⟩
      have := hfall k j hij hjk
      exact ⟨k + 1, by omega, by omega⟩
  obtain ⟨j, -, hj⟩ := hdeep (r i + 1)
  omega

/-- The rule for an execution that is fair to steps that lower the measure. -/
theorem Fair.leadsTo (hfair : e.Fair T) (henabled : ∀ i, P i → Enabled M T (e.state i))
    (hkeep : ∀ i, P i → Q (i + 1) ∨ P (i + 1) ∧ r (i + 1) ≤ r i)
    (hlower : ∀ i a, P i → e.action i = some a → T a = true → Q (i + 1) ∨ r (i + 1) < r i) (hi : P i) :
    ∃ j, i ≤ j ∧ Q j := by
  refine Execution.leadsTo hkeep (fun i h => ?_) hi
  obtain ⟨j, a, hij, ha, hT⟩ := hfair i fun j hij => henabled j (h j hij).1
  obtain ⟨hp, hq⟩ := h j hij
  exact ⟨j, hij, (hlower j a hp ha hT).resolve_left hq⟩

/-! ### Runs that end -/

/-- A step before an execution. -/
def cons (e : Execution M) (s : σ) (a : α) (h : M.step s a = some (e.state 0)) : Execution M where
  state
    | 0 => s
    | i + 1 => e.state i
  action
    | 0 => some a
    | i + 1 => e.action i
  next
    | 0 => h
    | i + 1 => e.next i

/-- A run, after which nothing happens, is an execution. -/
theorem exists_of_run {s t : σ} {as : List α} (h : M.run s as = some t) :
    ∃ e : Execution M, e.state 0 = s ∧ (∀ i, e.action i = as[i]?) ∧ ∀ i, as.length ≤ i → e.state i = t := by
  induction as generalizing s with
  | nil =>
    cases h
    exact ⟨⟨fun _ => t, fun _ => none, fun _ => rfl⟩, rfl, fun _ => rfl, fun _ _ => rfl⟩
  | cons a as ih =>
    obtain ⟨m, hm, ht⟩ := Machine.run_cons h
    obtain ⟨e, h0, haction, hend⟩ := ih ht
    refine ⟨e.cons s a (by rw [hm, h0]), rfl, fun i => ?_, fun i hi => ?_⟩
    · cases i with
      | zero => rfl
      | succ i => exact haction i
    · cases i with
      | zero => cases hi
      | succ i => exact hend i (Nat.le_of_succ_le_succ hi)

/-- It is fair to the actions that are not enabled at its end. -/
theorem Fair.of_rest {t : σ} {n : Nat} (hend : ∀ i, n ≤ i → e.state i = t) (hT : ¬Enabled M T t) : e.Fair T := by
  intro i henabled
  have h := henabled (max i n) (Nat.le_max_left _ _)
  rw [hend _ (Nat.le_max_right _ _)] at h
  exact absurd h hT

end Execution

end Transition
