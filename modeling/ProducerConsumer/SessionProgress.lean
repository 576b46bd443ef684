import ProducerConsumer.SessionEnd

/-!
# The progress of a session

What the steps of a session that is not paused come to.  While the producer runs, and as long as there are records to
release and every attempt of `receive` sees what was committed, each of them comes closer to the next release.  After the
producer each of them comes closer to the end, but for those of a call of `receive` that goes on.
-/

namespace ProducerConsumer

open Transition

namespace SessionPhase

/-- Between two attempts of the same call of `receive`. -/
def waiting : SessionPhase → Bool
  | wait _ | expire _ | peek _ true => true
  | _ => false

/-- The phase, with the rounds of a call of `receive` taken together. -/
def rest : SessionPhase → SessionPhase
  | expire call | peek call true => wait call
  | phase => phase

theorem rest_noRecord (call : ReceiveCall) : (SessionState.noRecord call).rest = SessionState.noRecord call := by
  cases call <;> rfl

end SessionPhase

namespace SessionState

variable {cfg : SessionSetup} {s t : SessionState} {base : List (List U8)}

/-! ### While the producer runs -/

/-- The steps to the next release of a record, if every attempt of `receive` finds one. -/
def stepsToRelease (s : SessionState) : Nat :=
  match s.phase, s.ring.view with
  | .connecting, _ | .ending _, _ | .done _, _ => 0
  | .release _, some _ => 0
  | .readPause, some _ | .whilePaused, some _ => 1
  | .loop, some _ => 2
  | .report, some _ => 3
  | .process _, _ | .drop, _ => 4
  | .peek _ _, _ => 5
  | .wait _, _ | .release _, none => 6
  | .readPause, none => 7
  | .loop, none => 8
  | .report, none => 9
  | .checkAlive _ _, _ | .whilePaused, none => 10
  | .loadState _, _ => 11
  | .loadPid, _ => 12
  | .expire _, _ => 13

def unreleasedRank (s : SessionState) : Nat :=
  14 * (s.ring.committed.length - s.ring.released.length) + s.stepsToRelease

/-- A step that releases nothing and comes closer to a release. -/
theorem unreleasedRank_lt (hcommitted : t.ring.committed = s.ring.committed) (hreleased : t.ring.released = s.ring.released)
    (hlt : t.stepsToRelease < s.stepsToRelease) : t.unreleasedRank < s.unreleasedRank := by
  rw [unreleasedRank, unreleasedRank, hcommitted, hreleased]
  omega

/-- A release in a phase from which none is farther than the steps of another round. -/
theorem unreleasedRank_release (h : s.Runs cfg base) {ring : SharedRing}
    (hring : s.ring.step cfg.cap .release = some ring) {phase : SessionPhase}
    (hsome : s.ring.view.isSome = true → ({ s with ring := ring }.goto phase).stepsToRelease < 14)
    (hnone : s.ring.view = none → ({ s with ring := ring }.goto phase).stepsToRelease < s.stepsToRelease) :
    ({ s with ring := ring }.goto phase).unreleasedRank < s.unreleasedRank := by
  obtain ⟨hcommitted, -, -, hreleased⟩ := SharedRing.release_effect hring
  cases hview : s.ring.view with
  | none =>
    rw [hview, Option.map_none, Option.toList_none, List.append_nil] at hreleased
    exact unreleasedRank_lt hcommitted hreleased (hnone hview)
  | some sp =>
    have hread := (h.ringInv.view_read hview).1
    obtain ⟨hlt, -⟩ := List.getElem?_eq_some_iff.1 hread
    have hlength : ring.released.length = s.ring.released.length + 1 := by
      rw [hreleased, hview]
      simp
    have := hsome (by rw [hview]; rfl)
    rw [unreleasedRank, unreleasedRank]
    simp only [goto] at this ⊢
    rw [hcommitted, hlength]
    omega

/-- An attempt of `receive` that sees all that was committed finds a record if there is one. -/
theorem peek_finds (h : s.Runs cfg base) {load : Nat} {ring : SharedRing}
    (hring : s.ring.step cfg.cap (.tryPeek load) = some ring) (hload : s.ring.committed.length ≤ load)
    (hleft : s.ring.released.length < s.ring.committed.length) : ring.view.isSome = true := by
  cases SharedRing.StepSpec.of_step hring with
  | tryPeek hc hl =>
    obtain ⟨hseen, hle, rfl⟩ := h.ringInv.headLoad hl
    have hcons := h.ringInv.consumer
    rw [hc] at hcons
    obtain ⟨-, -, -, hempty⟩ := hcons.1.tryPeek hcons.2 h.ringInv.short h.ringInv.capacity h.ringInv.framed
      h.ringInv.released_le hseen hle h.ringInv.room
    rw [Option.isSome_iff_ne_none]
    intro hnone
    have := (hempty hnone).2
    omega

/-- While records are left to release, every step of the session comes closer to a release. -/
theorem Unpaused.lower (h : s.Unpaused cfg base) (hover : ¬s.Over) (hstop : s.stop = false) {a : SessionAction}
    (ha : a.ofSession = true) (hs : s.step cfg a = some t)
    (hload : ∀ load, a = .tryPeek load → s.ring.committed.length ≤ load)
    (hleft : s.ring.released.length < s.ring.committed.length) : t.unreleasedRank < s.unreleasedRank := by
  have hrunning : s.finished = false ∧ s.alive = true := by
    simpa [Over] using hover
  cases StepSpec.of_step hs with
  | producer | finish | exit | setPaused | requestStop | claim _ _ | loadTail _ _ | start _ _ => cases ha
  | loop hphase =>
    refine unreleasedRank_lt rfl rfl ?_
    cases hview : s.ring.view <;> simp [goto, stepsToRelease, hphase, hstop, hview]
  | readPause hphase =>
    refine unreleasedRank_lt rfl rfl ?_
    cases hview : s.ring.view <;> simp [doReadPause, stepsToRelease, hphase, h.paused, hview]
  | waitPaused hphase _ hring =>
    have hview := (SharedRing.release_effect hring).2.2.1
    refine unreleasedRank_release h.runs hring (fun _ => ?_) fun hnone => ?_
    · simp [goto, stepsToRelease, hview]
    · simp [goto, stepsToRelease, hview, hphase, hnone]
  | discardPaused hphase _ =>
    refine unreleasedRank_lt rfl rfl ?_
    cases hview : s.ring.view <;> simp [goto, stepsToRelease, hphase, hview]
  | release hphase hring =>
    refine unreleasedRank_release h.runs hring (fun _ => ?_) fun hnone => ?_
    · simp [goto, stepsToRelease]
    · simp [goto, stepsToRelease, hphase, hnone]
  | wait hphase =>
    refine unreleasedRank_lt rfl rfl ?_
    simp [goto, stepsToRelease, hphase, hstop]
  | drop hphase _ =>
    have hview := h.runs.view (by rw [hphase]; rfl)
    refine unreleasedRank_lt rfl rfl ?_
    cases hsp : s.ring.view with
    | none => simp [hsp] at hview
    | some sp => simp [doDrop, stepsToRelease, hphase, hsp]
  | loadPid hphase =>
    refine unreleasedRank_lt rfl rfl ?_
    simp [goto, stepsToRelease, hphase]
  | ending hphase _ =>
    -- the session ends only after the producer or because of a stop request
    rename_i drained ring _
    have hok := h.runs.phaseOk hphase
    cases drained with
    | false => rw [show s.stop = true from hok] at hstop; cases hstop
    | true => exact absurd hok.1.1 hover
  | tryPeek hphase hring =>
    rename_i load call retry ring
    obtain ⟨hcommitted, hreleased, -, -⟩ := h.runs.ringInv.tryPeek_effect hring
    obtain ⟨sp, hsp⟩ := Option.isSome_iff_exists.1 (peek_finds h.runs hring (hload _ rfl) hleft)
    unfold afterPeek
    dsimp only
    rw [hsp]
    refine unreleasedRank_lt hcommitted hreleased ?_
    cases call <;> simp [stepsToRelease, hphase]
  | checkDeadline hphase =>
    rename_i expired call
    have hnone := (h.runs.phaseOk hphase).1
    have hne := (h.runs.phaseOk hphase).2
    refine unreleasedRank_lt rfl rfl ?_
    cases expired with
    | false => simp [goto, stepsToRelease, hphase]
    | true =>
      cases call with
      | paused => simp [goto, stepsToRelease, hphase, noRecord, show s.ring.view = none from hnone]
      | next => simp [goto, stepsToRelease, hphase, noRecord]
      | last => exact absurd rfl hne
  | process hphase _ =>
    rename_i nowNs call sp hsp
    refine unreleasedRank_lt rfl rfl ?_
    cases call <;> simp [doProcess, stepsToRelease, hphase, hsp]
  | sawFinished _ hfinished _ =>
    rw [hrunning.1] at hfinished
    cases hfinished
  | sawReady hphase =>
    refine unreleasedRank_lt rfl rfl ?_
    simp [goto, stepsToRelease, hphase]
  | peerAlive hphase _ =>
    rename_i pid finished _
    have hok := h.runs.phaseOk hphase
    cases finished with
    | true => exact absurd (hok.2 rfl).1 hover
    | false =>
      refine unreleasedRank_lt rfl rfl ?_
      cases hview : s.ring.view <;> simp [goto, stepsToRelease, hphase, hview]
  | peerGone hphase hgone _ =>
    rcases hgone with hle | ⟨-, hdead⟩
    · rw [(h.runs.phaseOk hphase).1] at hle
      exact absurd hle (Int.not_le.2 cfg.producerPid_pos)
    · rw [hrunning.2] at hdead
      cases hdead
  | noReport hphase =>
    refine unreleasedRank_lt rfl rfl ?_
    cases hview : s.ring.view <;> simp [goto, stepsToRelease, hphase, hview]
  | report hphase hring =>
    obtain ⟨rfl, -, -⟩ := h.runs.ringInv.observe_effect hring
    refine unreleasedRank_lt rfl rfl ?_
    cases hview : s.ring.view <;> simp [SharedRing.doObserve, stepsToRelease, hphase, hview]

/-! ### After the producer -/

def restRank (s : SessionState) : Nat := 21 * s.remaining + s.phaseRank s.phase.rest

theorem phaseRank_le_rest (s : SessionState) (phase : SessionPhase) : s.phaseRank phase ≤ s.phaseRank phase.rest := by
  unfold SessionPhase.rest
  split
  · rename_i call
    cases call <;> simp [phaseRank]
  · rename_i call
    cases call <;> simp [phaseRank]
  · exact Nat.le_refl _

/-- A step with what it asks the system for up to date, whether the deadline has passed or not. -/
def patient (s : SessionState) (a : SessionAction) : Bool := s.prompt a || a == .checkDeadline false

/-- Such a step comes closer to the end, unless it is one of a call of `receive` that goes on. -/
theorem Finishing.settle (h : s.Finishing cfg base) {a : SessionAction} (ha : s.patient a = true)
    (hs : s.step cfg a = some t) :
    t.restRank < s.restRank ∨ t.restRank = s.restRank ∧ s.phase.waiting = true ∧ t.phase.waiting = true := by
  have hlower (ha : s.prompt a = true) (hrest : t.phase.rest = t.phase) : t.restRank < s.restRank := by
    have hlt := h.lower ha hs
    have hle := s.phaseRank_le_rest s.phase
    rw [rank, rank] at hlt
    rw [restRank, restRank, hrest]
    omega
  have hwait (hremaining : t.remaining = s.remaining) (halive : t.alive = s.alive)
      (hrest : t.phase.rest = s.phase.rest) : t.restRank = s.restRank := by
    rw [restRank, restRank, hremaining, hrest, phaseRank_congr halive]
  cases StepSpec.of_step hs with
  | producer | finish | exit | setPaused | requestStop | claim _ _ | loadTail _ _ | start _ _ => cases ha
  | waitPaused _ _ _ | discardPaused _ _ | release _ _ | drop _ _ | loadPid _ | ending _ _ | noReport _ | report _ _ =>
    exact .inl (hlower rfl rfl)
  | sawFinished _ _ _ | sawReady _ | peerGone _ _ _ =>
    exact .inl (hlower (by simpa [patient] using ha) rfl)
  | loop _ | readPause _ | process _ _ =>
    refine .inl (hlower rfl ?_)
    simp only [goto, doReadPause, doProcess]
    split <;> rfl
  | peerAlive _ _ =>
    refine .inl (hlower (by simpa [patient] using ha) ?_)
    simp only [goto]
    split <;> rfl
  | wait hphase =>
    rename_i call
    by_cases hstop : s.stop = true
    · refine .inl (hlower rfl ?_)
      simp only [goto, hstop, if_true]
      exact SessionPhase.rest_noRecord call
    · have hnext : (if s.stop then noRecord call else .peek call true) = .peek call true := if_neg hstop
      refine .inr ⟨hwait rfl rfl ?_, by rw [hphase]; rfl, by rw [hnext]; rfl⟩
      rw [hnext, hphase]
      rfl
  | checkDeadline hphase =>
    rename_i expired call
    cases expired with
    | true => exact .inl (hlower rfl (SessionPhase.rest_noRecord call))
    | false =>
      refine .inr ⟨hwait rfl rfl ?_, by rw [hphase]; rfl, rfl⟩
      rw [hphase]
      rfl
  | tryPeek hphase hring =>
    rename_i load call retry ring
    have hremaining := remaining_peek h.runs hphase hring
    unfold afterPeek at hlower hwait ⊢
    cases hsp : ring.view with
    | some sp =>
      simp only [hsp] at hlower ⊢
      refine .inl (hlower rfl ?_)
      cases call <;> rfl
    | none =>
      simp only [hsp] at hlower hwait ⊢
      cases retry with
      | true =>
        rw [hsp, Option.toList_none, List.length_nil, Nat.zero_add] at hremaining
        refine .inr ⟨hwait hremaining rfl ?_, by rw [hphase]; rfl, rfl⟩
        rw [hphase]
        rfl
      | false =>
        refine .inl (hlower rfl ?_)
        simp only [goto, Bool.false_eq_true, if_false]
        split
        · exact SessionPhase.rest_noRecord call
        · rfl

/-- In a session on a new ring nothing was released before. -/
theorem waits_or_unpaused (h : (sessionMachine cfg).Reachable s) :
    s.Waits cfg [] ∨ s.Runs cfg [] ∧ ∃ c, s.ring.consumer = .attached c := by
  refine Machine.Reachable.invariant
    (I := fun s => s.Waits cfg [] ∨ s.Runs cfg [] ∧ ∃ c, s.ring.consumer = .attached c) ?_ ?_ h
  · rintro s ⟨hring, -, -, hphase, hreturned, hprocessed, hdropped⟩
    refine .inl ⟨hphase, Machine.Reachable.init hring, ?_, ?_, hreturned, hprocessed, hdropped⟩
    · rw [hring.2]
    · rw [hring.2]
  · rintro s a t (hw | ⟨hr, hattached⟩) hs
    · rcases hw.step hs with hw' | hr'
      · exact .inl hw'
      · exact .inr ⟨hr', attached_started hs (fun hne => absurd hw.phase hne) hr'.started⟩
    · exact .inr ⟨hr.step hs, attached_started hs (fun _ => hattached) (hr.step hs).started⟩

/-- Only the producer finishes the stream. -/
theorem finished_step {a : SessionAction} (ha : a.ofProducer = false) (hs : s.step cfg a = some t) :
    t.finished = s.finished := by
  cases StepSpec.of_step hs with
  | finish => cases ha
  | tryPeek _ _ =>
    unfold afterPeek
    split <;> rfl
  | _ => rfl

theorem ended_eq (h : s.alive = false) : { s with alive := false } = s := by
  rw [← h]

theorem dead_step (h : s.alive = false) {a : SessionAction} (hs : s.step cfg a = some t) : t.alive = false := by
  cases StepSpec.of_step hs with
  | exit => rfl
  | tryPeek _ _ =>
    unfold afterPeek
    split <;> exact h
  | _ => exact h

end SessionState

end ProducerConsumer
