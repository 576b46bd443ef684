import ProducerConsumer.Lib.Machine

/-!
# The abstract channel

A reliable first-in first-out channel from one sender to one receiver: a message is sent by appending it to what was
sent before, and received only as the next of the messages sent.  Whatever is simulated by this machine delivers
every message at most once, in order and unchanged.
-/

namespace Channel

open Transition

structure State (μ : Type) where
  sent : List μ
  received : List μ

inductive Action (μ : Type)
  | send (m : μ)
  | receive

def machine (μ : Type) : Machine (State μ) (Action μ) where
  init s := s.sent = [] ∧ s.received = []
  step s
    | .send m => some { s with sent := s.sent ++ [m] }
    | .receive => s.sent[s.received.length]?.map fun m => { s with received := s.received ++ [m] }

theorem run_send {μ : Type} (s : State μ) (m : μ) :
    (machine μ).run s [.send m] = some { s with sent := s.sent ++ [m] } := rfl

theorem run_receive {μ : Type} {s : State μ} {m : μ} (h : s.sent[s.received.length]? = some m) :
    (machine μ).run s [.receive] = some { s with received := s.received ++ [m] } := by
  simp [Machine.run, machine, h]

/-- What is received is an initial part of what is sent. -/
theorem received_prefix {μ : Type} {s : State μ} (h : (machine μ).Reachable s) : s.received <+: s.sent := by
  refine Machine.Reachable.invariant (I := fun s => s.received <+: s.sent) ?_ ?_ h
  · rintro s ⟨h1, h2⟩
    have heq : s.received = s.sent := by rw [h1, h2]
    exact heq ▸ List.prefix_refl _
  · rintro s a t hi hs
    cases a with
    | send m =>
      cases hs
      exact hi.trans (List.prefix_append _ _)
    | receive =>
      obtain ⟨m, hm, rfl⟩ := Option.map_eq_some_iff.1 hs
      obtain ⟨rest, hrest⟩ := hi
      have hget : rest[0]? = some m := by
        rw [← hrest, List.getElem?_append_right (Nat.le_refl _), Nat.sub_self] at hm
        exact hm
      obtain _ | ⟨x, rest⟩ := rest
      · simp at hget
      · simp only [List.getElem?_cons_zero, Option.some.injEq] at hget
        subst hget
        exact ⟨rest, by simp [← hrest]⟩

end Channel
