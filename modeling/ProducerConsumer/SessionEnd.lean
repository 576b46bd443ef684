import ProducerConsumer.StreamConsumers
import ProducerConsumer.Lib.Descent

/-!
# The end of a session

Once the producer has finished or died, a session that is not paused ends: every run of its own steps, in which deadlines
pass and the loads of `state` and the liveness check are up to date, is bounded by the number of records that are left,
never gets stuck, and leaves nothing behind unless a stop is requested.  Loads of `head` may still be as late as they
like: a miss sends the session to `peer_status`, whose acquire makes the last store visible.
-/

namespace ProducerConsumer

open Transition

/-- The steps of the session itself. -/
def SessionAction.ofSession : SessionAction → Bool
  | .advance | .tryPeek _ | .checkDeadline _ | .process _ | .loadState _ | .checkAlive _ | .report _ => true
  | _ => false

namespace SessionState

variable {cfg : SessionSetup} {s t : SessionState} {base : List (List U8)}

/-- A step of the session, with what it asks the system for up to date. -/
def prompt (s : SessionState) : SessionAction → Bool
  | .advance | .tryPeek _ | .process _ | .report _ => true
  | .checkDeadline expired => expired
  | .loadState sawFinished => sawFinished == s.finished
  | .checkAlive alive => alive == s.alive
  | _ => false

/-- How far a phase is from the end when no record comes in between. -/
def phaseRank (s : SessionState) : SessionPhase → Nat
  | .connecting | .done _ => 0
  | .ending _ => 1
  | .peek .last _ => 2
  | .release .last | .wait .last | .expire .last => 3
  | .checkAlive _ finished => if finished || !s.alive then 4 else 20
  | .loadState _ => 5
  | .loadPid => 6
  | .expire .next => 7
  | .peek .next true => 8
  | .wait .next => 9
  | .peek .next false => 10
  | .release .next => 11
  | .readPause => 12
  | .loop => 13
  | .report => 14
  | .process _ | .drop | .expire .paused => 15
  | .peek .paused true => 16
  | .wait .paused => 17
  | .peek .paused false => 18
  | .release .paused => 19
  | .whilePaused => 20

/-- The records that were committed and not returned yet. -/
def remaining (s : SessionState) : Nat := s.ring.committed.length - s.ring.released.length - s.ring.view.toList.length

def rank (s : SessionState) : Nat := 21 * s.remaining + s.phaseRank s.phase

/-- A session that is not paused. -/
structure Unpaused (cfg : SessionSetup) (base : List (List U8)) (s : SessionState) : Prop where
  runs : s.Runs cfg base
  attached : ∃ c, s.ring.consumer = .attached c
  paused : s.paused = false

/-- After the producer. -/
structure Finishing (cfg : SessionSetup) (base : List (List U8)) (s : SessionState) : Prop
    extends Unpaused cfg base s where
  gone : s.Over

/-! ### What the steps leave as it is -/

/-- Only `disconnect` and the end of the process detach the consumer. -/
theorem attached_step {cap : Capacity} {ring ring' : SharedRing} {a : RingAction} (hs : ring.step cap a = some ring')
    (hleave : a ≠ .disconnect ∧ a ≠ .crash) (h : ∃ c, ring.consumer = .attached c) :
    ∃ c, ring'.consumer = .attached c := by
  obtain ⟨c, hc⟩ := h
  cases SharedRing.StepSpec.of_step hs with
  | tryReserve _ | writeSlot _ _ | commit | observeHead _ _ => exact ⟨c, hc⟩
  | claim hn | loadTail hn _ | loadHead hn _ | clearSlot hn =>
    rw [hc] at hn
    cases hn
  | tryPeek _ _ | release _ => exact ⟨_, rfl⟩
  | disconnect _ => exact absurd rfl hleave.1
  | crash _ => exact absurd rfl hleave.2

/-- What the session itself does not change. -/
structure SameSurroundings (s t : SessionState) : Prop where
  finished : t.finished = s.finished
  alive : t.alive = s.alive
  paused : t.paused = s.paused
  stop : t.stop = s.stop
  committed : t.ring.committed = s.ring.committed

theorem SameSurroundings.refl (s : SessionState) : s.SameSurroundings s := ⟨rfl, rfl, rfl, rfl, rfl⟩

theorem SameSurroundings.trans {u : SessionState} (h : s.SameSurroundings t) (h' : t.SameSurroundings u) :
    s.SameSurroundings u :=
  ⟨h'.finished.trans h.finished, h'.alive.trans h.alive, h'.paused.trans h.paused, h'.stop.trans h.stop,
    h'.committed.trans h.committed⟩

theorem ofSession_step {a : SessionAction} (ha : a.ofSession = true) (hs : s.step cfg a = some t) :
    s.SameSurroundings t := by
  have hcommitted : t.ring.committed = s.ring.committed := by
    refine (consumer_step ?_ hs).committed
    cases a <;> first | rfl | cases ha
  refine ⟨?_, ?_, ?_, ?_, hcommitted⟩
  all_goals
    cases StepSpec.of_step hs with
    | producer | finish | exit | setPaused | requestStop | claim _ _ | loadTail _ _ | start _ _ => cases ha
    | tryPeek _ _ =>
      unfold afterPeek
      split <;> rfl
    | _ => rfl

theorem ofSession_of_prompt {a : SessionAction} (ha : s.prompt a = true) : a.ofSession = true := by
  cases a <;> first | rfl | cases ha

/-- Nothing but `setPaused` pauses the session. -/
theorem Unpaused.keep (h : s.Unpaused cfg base) {a : SessionAction} (hs : s.step cfg a = some t)
    (hpaused : t.paused = s.paused) : t.Unpaused cfg base := by
  refine ⟨h.runs.step hs, ?_, hpaused.trans h.paused⟩
  rcases ring_step hs with hring | ⟨b, hleave, hring⟩
  · rw [hring]
    exact h.attached
  · exact attached_step hring hleave h.attached

theorem Finishing.keep (h : s.Finishing cfg base) {a : SessionAction} (ha : a.ofSession = true)
    (hs : s.step cfg a = some t) : t.Finishing cfg base := by
  have hsame := ofSession_step ha hs
  refine ⟨h.toUnpaused.keep hs hsame.paused, ?_⟩
  unfold Over
  rw [hsame.finished, hsame.alive]
  exact h.gone

/-! ### The descent -/

theorem Runs.ringInv (h : s.Runs cfg base) : s.ring.Inv cfg.cap := h.inv.ringInv

/-- What is known in a phase says nothing about the records returned before. -/
theorem Runs.phaseOk (h : s.Runs cfg base) {phase : SessionPhase} (hphase : s.phase = phase) :
    (s.after base).PhaseOk cfg phase := by
  subst hphase
  exact h.inv.phase

theorem remaining_release {ring : SharedRing} (hring : s.ring.step cfg.cap .release = some ring)
    {phase : SessionPhase} : ({ s with ring := ring }.goto phase).remaining = s.remaining := by
  obtain ⟨hcommitted, -, hview, hreleased⟩ := SharedRing.release_effect hring
  simp only [remaining, goto, hcommitted, hview, hreleased, List.length_append, Option.toList_none, List.length_nil]
  cases s.ring.view <;> simp
  omega

/-- A record that is returned is one of those that were left. -/
theorem remaining_peek {ring : SharedRing} (h : s.Runs cfg base) {call : ReceiveCall} {retry : Bool}
    (hphase : s.phase = .peek call retry) {load : Nat} (hring : s.ring.step cfg.cap (.tryPeek load) = some ring) :
    ring.view.toList.length + ({ s with ring := ring } : SessionState).remaining = s.remaining := by
  obtain ⟨hcommitted, hreleased, -, -⟩ := h.ringInv.tryPeek_effect hring
  have hnone : s.ring.view = none := (h.phaseOk hphase).1
  simp only [remaining, hcommitted, hreleased, hnone, Option.toList_none, List.length_nil]
  cases hsp : ring.view with
  | none => simp
  | some sp =>
    have hread := ((SharedRing.Inv.of_reachable (h.inv.ringStep hring)).view_read hsp).1
    rw [hcommitted, hreleased] at hread
    obtain ⟨hlt, -⟩ := List.getElem?_eq_some_iff.1 hread
    simp only [Option.toList_some, List.length_singleton]
    omega

theorem phaseRank_congr (halive : t.alive = s.alive) (phase : SessionPhase) : t.phaseRank phase = s.phaseRank phase := by
  unfold phaseRank
  rw [halive]

/-- A step that returns no record leads to a phase that is closer to the end. -/
theorem rank_lt (hremaining : t.remaining = s.remaining) (halive : t.alive = s.alive)
    (hlt : s.phaseRank t.phase < s.phaseRank s.phase) : t.rank < s.rank := by
  rw [rank, rank, hremaining, phaseRank_congr halive]
  omega

/-- `receive` gives up, or goes on. -/
theorem phaseRank_miss (s : SessionState) {call : ReceiveCall} {retry : Bool} (h : call = .last → retry = false) :
    s.phaseRank (if retry then .expire call else if call.timeout cfg = 0 then noRecord call else .wait call) <
      s.phaseRank (.peek call retry) := by
  cases call with
  | last => simp [h rfl, ReceiveCall.timeout, noRecord, phaseRank]
  | paused => cases retry <;> simp [ReceiveCall.timeout, kPausedTick, phaseRank]
  | next =>
    cases retry with
    | true => simp [phaseRank]
    | false =>
      simp only [Bool.false_eq_true, if_false]
      split <;> simp [noRecord, phaseRank]

/-- An attempt of `receive` either returns a record, or the call of `receive` goes on or ends. -/
theorem rank_peek {ring : SharedRing} (h : s.Runs cfg base) {call : ReceiveCall} {retry : Bool}
    (hphase : s.phase = .peek call retry) {load : Nat} (hring : s.ring.step cfg.cap (.tryPeek load) = some ring) :
    (afterPeek cfg call retry { s with ring := ring }).rank < s.rank := by
  have hremaining := remaining_peek h hphase hring
  unfold afterPeek
  cases hsp : ring.view with
  | some sp =>
    rw [hsp, Option.toList_some, List.length_singleton] at hremaining
    have hkeep : ({ s with ring := ring } : SessionState).remaining + 1 = s.remaining := by omega
    cases call <;> simp only [rank, hphase, phaseRank] <;> simp only [remaining] at hkeep ⊢ <;> omega
  | none =>
    rw [hsp, Option.toList_none, List.length_nil, Nat.zero_add] at hremaining
    refine rank_lt hremaining rfl ?_
    rw [hphase]
    exact phaseRank_miss s fun hc => ((h.phaseOk hphase).2 hc).2

/-- Every such step comes closer to the end. -/
theorem Finishing.lower (h : s.Finishing cfg base) {a : SessionAction} (ha : s.prompt a = true)
    (hs : s.step cfg a = some t) : t.rank < s.rank := by
  cases StepSpec.of_step hs with
  | producer | finish | exit | setPaused | requestStop | claim _ _ | loadTail _ _ | start _ _ => cases ha
  | loop hphase =>
    refine rank_lt rfl rfl ?_
    rw [hphase]
    simp only [goto]
    split <;> simp [phaseRank]
  | readPause hphase =>
    refine rank_lt rfl rfl ?_
    rw [hphase]
    simp [doReadPause, h.paused, phaseRank]
  | waitPaused hphase _ hring | ending hphase hring =>
    refine rank_lt (remaining_release hring) rfl ?_
    rw [hphase]
    simp [goto, phaseRank]
  | release hphase hring =>
    rename_i call ring
    refine rank_lt (remaining_release hring) rfl ?_
    rw [hphase]
    cases call <;> simp [goto, phaseRank]
  | discardPaused hphase _ | drop hphase _ | loadPid hphase | noReport hphase =>
    refine rank_lt rfl rfl ?_
    rw [hphase]
    simp [goto, doDrop, phaseRank]
  | wait hphase =>
    rename_i call
    refine rank_lt rfl rfl ?_
    rw [hphase]
    simp only [goto]
    cases call <;> split <;> simp [noRecord, phaseRank]
  | tryPeek hphase hring => exact rank_peek h.runs hphase hring
  | checkDeadline hphase =>
    rename_i expired call
    have hexpired : expired = true := ha
    refine rank_lt rfl rfl ?_
    rw [hphase, hexpired]
    cases call <;> simp [goto, noRecord, phaseRank]
  | process hphase _ =>
    refine rank_lt rfl rfl ?_
    rw [hphase]
    simp only [doProcess]
    split <;> simp [phaseRank]
  | sawFinished hphase _ hring =>
    obtain ⟨rfl, -, -⟩ := h.runs.ringInv.observe_effect hring
    refine rank_lt rfl rfl ?_
    rw [hphase]
    simp [goto, phaseRank]
  | sawReady hphase =>
    -- the producer has not finished, so it is dead
    have hdead : s.alive = false := by
      have hnot : false = s.finished := by simpa [prompt] using ha
      exact h.gone.resolve_left (by rw [← hnot]; exact Bool.false_ne_true)
    refine rank_lt rfl rfl ?_
    rw [hphase]
    simp [goto, phaseRank, hdead]
  | peerAlive hphase hpid =>
    rename_i pid finished
    have halive : s.alive = true := by simpa [prompt] using ha.symm
    refine rank_lt rfl rfl ?_
    rw [hphase]
    cases finished <;> simp [goto, phaseRank, halive]
  | peerGone hphase _ hring =>
    obtain ⟨rfl, -, -⟩ := h.runs.ringInv.observe_effect hring
    have hdead : s.alive = false := by simpa [prompt] using ha.symm
    refine rank_lt rfl rfl ?_
    rw [hphase]
    simp [goto, phaseRank, hdead]
  | report hphase hring =>
    obtain ⟨rfl, -, -⟩ := h.runs.ringInv.observe_effect hring
    refine rank_lt rfl rfl ?_
    rw [hphase]
    simp [phaseRank]

/-- The last value stored to `head` may be read. -/
theorem Runs.headLoad (h : s.Runs cfg base) : ∃ head, s.ring.headLoad s.lastHead = some head := by
  have hi := h.ringInv
  have hlast : s.lastHead = s.ring.committed.length := by simp [lastHead, hi.heads]
  refine ⟨counter s.ring.committed s.ring.committed.length, ?_⟩
  rw [SharedRing.headLoad, hlast, if_pos hi.headSeen_le, hi.heads]
  simp

/-- The operations on the ring that the session uses are enabled. -/
theorem Runs.attachedRing (h : s.Runs cfg base) (hattached : ∃ c, s.ring.consumer = .attached c)
    (next : SessionState → SessionState) :
    (∃ t, s.onRing cfg .release next = some t) ∧ (∃ t, s.onRing cfg (.tryPeek s.lastHead) next = some t) ∧
      ∃ t, s.onRing cfg (.observeHead s.lastHead) next = some t := by
  obtain ⟨c, hc⟩ := hattached
  obtain ⟨head, hhead⟩ := h.headLoad
  simp [SessionState.onRing, SharedRing.step, hc, SharedRing.consumerStep, hhead]

/-- Where the session is not done, one of its steps is enabled. -/
theorem Runs.live (h : s.Runs cfg base) (hattached : ∃ c, s.ring.consumer = .attached c)
    (hdone : ∀ drained, s.phase ≠ .done drained) : ∃ a t, s.prompt a = true ∧ s.step cfg a = some t := by
  have hadvance {t : SessionState} (ht : s.advance cfg = some t) : ∃ a t, s.prompt a = true ∧ s.step cfg a = some t :=
    ⟨.advance, t, rfl, ht⟩
  have hrelease (next : SessionState → SessionState) (hstep : s.advance cfg = s.onRing cfg .release next) :
      ∃ a t, s.prompt a = true ∧ s.step cfg a = some t := by
    obtain ⟨t, ht⟩ := (h.attachedRing hattached next).1
    exact hadvance (hstep.trans ht)
  cases hphase : s.phase with
  | connecting => exact absurd hphase h.started
  | done drained => exact absurd hphase (hdone drained)
  | loop | readPause | loadPid | wait call => exact hadvance (by simp only [SessionState.advance, hphase]; rfl)
  | release call | ending drained => exact hrelease _ (by simp only [SessionState.advance, hphase]; rfl)
  | whilePaused =>
    cases hpolicy : cfg.policy with
    | Blocking => exact hrelease _ (by simp only [SessionState.advance, hphase, hpolicy]; rfl)
    | Discarding => exact hadvance (by simp only [SessionState.advance, hphase, hpolicy]; rfl)
  | peek call retry =>
    obtain ⟨t, ht⟩ := (h.attachedRing hattached (afterPeek cfg call retry)).2.1
    exact ⟨.tryPeek s.lastHead, t, rfl, by simpa only [SessionState.step, hphase] using ht⟩
  | expire call => exact ⟨.checkDeadline true, _, rfl, by simp only [SessionState.step, hphase]; rfl⟩
  | drop =>
    obtain ⟨sp, hsp⟩ := Option.isSome_iff_exists.1 (h.view (by rw [hphase]; rfl))
    exact hadvance (by simp only [SessionState.advance, hphase, hsp]; rfl)
  | process call =>
    obtain ⟨sp, hsp⟩ := Option.isSome_iff_exists.1 (h.view (by rw [hphase]; rfl))
    exact ⟨.process 0, _, rfl, by simp only [SessionState.step, hphase, hsp]; rfl⟩
  | loadState pid =>
    cases hfinished : s.finished with
    | true =>
      obtain ⟨t, ht⟩ := (h.attachedRing hattached (·.goto (.checkAlive pid true))).2.2
      refine ⟨.loadState true, t, by simp [prompt, hfinished], ?_⟩
      simpa only [SessionState.step, hphase, hfinished, if_true] using ht
    | false =>
      exact ⟨.loadState false, _, by simp [prompt, hfinished], by simp only [SessionState.step, hphase]; rfl⟩
  | checkAlive pid finished =>
    have hpid : pid = cfg.producerPid := (h.phaseOk hphase).1
    subst hpid
    cases halive : s.alive with
    | true =>
      refine ⟨.checkAlive true, s.goto (if finished then .release .last else .report), by simp [prompt, halive], ?_⟩
      simp only [SessionState.step, hphase, if_true, if_pos cfg.producerPid_pos]
    | false =>
      obtain ⟨t, ht⟩ := (h.attachedRing hattached (·.goto (.release .last))).2.2
      refine ⟨.checkAlive false, t, by simp [prompt, halive], ?_⟩
      simpa [SessionState.step, hphase, halive] using ht
  | report => exact ⟨.report none, s.goto .loop, rfl, by simp only [SessionState.step, hphase]⟩

theorem Unpaused.live (h : s.Unpaused cfg base) (hdone : ∀ drained, s.phase ≠ .done drained) :
    ∃ a t, s.prompt a = true ∧ s.step cfg a = some t := h.runs.live h.attached hdone

/-- A session that is done without a stop request has released all records. -/
theorem Finishing.done (h : s.Finishing cfg base) {drained : Bool} (hphase : s.phase = .done drained)
    (hstop : s.stop = false) : drained = true ∧ s.ring.released = s.ring.committed := by
  cases drained with
  | true => exact ⟨rfl, (h.runs.released_all hphase).2⟩
  | false =>
    have hok : s.stop = true := h.runs.phaseOk hphase
    rw [hstop] at hok
    cases hok

/-- The start of the session attaches the consumer, and nothing that the session does detaches it. -/
theorem attached_started {a : SessionAction} (hs : s.step cfg a = some t)
    (h : s.phase ≠ .connecting → ∃ c, s.ring.consumer = .attached c) (hne : t.phase ≠ .connecting) :
    ∃ c, t.ring.consumer = .attached c := by
  by_cases hphase : s.phase = .connecting
  · cases StepSpec.of_step hs with
    | producer | finish | exit | setPaused | requestStop | claim _ _ | loadTail _ _ => exact absurd hphase hne
    | start _ hring =>
      cases SharedRing.StepSpec.of_step hring with
      | loadHead _ _ => exact ⟨_, rfl⟩
    | loop hp | readPause hp | waitPaused hp _ _ | discardPaused hp _ | release hp _ | wait hp | drop hp _ | loadPid hp
    | ending hp _ | tryPeek hp _ | checkDeadline hp | process hp _ | sawFinished hp _ _ | sawReady hp | peerAlive hp _
    | peerGone hp _ _ | noReport hp | report hp _ =>
      rw [hphase] at hp
      cases hp
  · rcases ring_step hs with hring | ⟨b, hleave, hring⟩
    · rw [hring]
      exact h hphase
    · exact attached_step hring hleave (h hphase)

end SessionState

theorem StreamConsumers.attached {g : ObjectSetup} {c : StreamConsumers} (h : (consumersMachine g).Reachable c) :
    c.mode = .engaged → c.session.phase ≠ .connecting → ∃ r, c.session.ring.consumer = .attached r := by
  refine Machine.Reachable.invariant
    (I := fun c => c.mode = .engaged → c.session.phase ≠ .connecting → ∃ r, c.session.ring.consumer = .attached r) ?_ ?_ h
  · rintro c ⟨-, hmode, -⟩ he
    rw [hmode] at he
    cases he
  · intro c a d hi hs hmode hne
    cases StepSpec.of_step hs with
    | attach _ _ => exact absurd rfl hne
    | session _ hsession => exact SessionState.attached_started hsession (hi hmode) hne
    | disconnect | clearSlot | crash | crashLeaving => cases hmode

end ProducerConsumer
