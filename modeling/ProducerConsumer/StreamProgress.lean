import ProducerConsumer.ProducerApp
import ProducerConsumer.RingCounters
import ProducerConsumer.SessionProgress
import ProducerConsumer.Lib.Fairness

/-!
# The stream comes to its end

`ProducerApp::run` with a packet limit and a session of the consumer, neither of them stopped or paused.  Under weak
fairness, and if a store is not hidden from the loads of the other side for ever, all packets are committed, the producer
closes, and the session ends with every packet released: neither side waits for ever for the other one.
-/

namespace ProducerConsumer

open Transition

/-! ### The course of `run` -/

/-- The record fits into the ring. -/
def ProducerConfig.Fits (config : ProducerConfig) (cap : Capacity) : Prop :=
  kHeaderSize + config.payloadSize.toNat ≤ min (cap.bytes - 4) (2 ^ 32 - 1)

theorem ProducerConfig.Fits.recordSize {config : ProducerConfig} {cap : Capacity} (h : config.Fits cap) :
    config.recordSize.toNat = kHeaderSize + config.payloadSize.toNat := by
  have hle : kHeaderSize + config.payloadSize.toNat ≤ 2 ^ 32 - 1 := Nat.le_trans h (Nat.min_le_right _ _)
  exact ProducerConfig.recordSize_toNat (by omega)

/-- A record that fits has room for its header. -/
theorem ProducerConfig.Fits.header {config : ProducerConfig} {cap : Capacity} (h : config.Fits cap) :
    32 ≤ config.recordSize.toNat := by
  rw [h.recordSize, kHeaderSize]
  exact Nat.le_add_right _ _

namespace StreamState

variable {cfg : StreamSetup} {s t : StreamState}

/-- What is known of `run` in its phases, if the record fits. -/
structure Course (cfg : StreamSetup) (s : StreamState) : Prop where
  finished : s.session.finished = true ↔ s.app.phase = .closed
  slot : s.app.phase = .stamp → s.session.ring.slot.isSome = true
  fits : s.app.phase ≠ .threw
  limit : s.app.phase = .returned ∨ s.app.phase = .closed →
    s.app.stop = true ∨
      cfg.producer.maxPackets ≠ 0 ∧ s.session.ring.committed.length = cfg.producer.maxPackets.toNat

theorem Course.init (h : s.Initial cfg) : s.Course cfg := by
  obtain ⟨⟨-, hfinished, -⟩, hphase, -⟩ := h
  refine ⟨?_, ?_, ?_, ?_⟩ <;> simp [hphase, hfinished]

/-- A step of `run` that is not its last. -/
theorem Course.next (h : s.Course cfg) (hphase : s.app.phase ≠ .closed) (hsame : t.session.finished = s.session.finished)
    (hnext : t.app.phase ≠ .closed ∧ t.app.phase ≠ .threw)
    (hslot : t.app.phase = .stamp → t.session.ring.slot.isSome = true)
    (hlimit : t.app.phase = .returned →
      t.app.stop = true ∨
        cfg.producer.maxPackets ≠ 0 ∧ t.session.ring.committed.length = cfg.producer.maxPackets.toNat) :
    t.Course cfg := by
  refine ⟨?_, hslot, hnext.2, ?_⟩
  · rw [hsame]
    exact ⟨fun hf => absurd (h.finished.1 hf) hphase, fun hp => absurd hp hnext.1⟩
  · rintro (hp | hp)
    · exact hlimit hp
    · exact absurd hp hnext.1

/-- The end of the loop. -/
theorem nextRound_returned (hi : s.Inv cfg) (h : s.app.nextRound cfg.producer = .returned) :
    s.app.stop = true ∨
      cfg.producer.maxPackets ≠ 0 ∧ s.session.ring.committed.length = cfg.producer.maxPackets.toNat := by
  unfold ProducerApp.nextRound at h
  by_cases hstop : s.app.stop = true
  · exact .inl hstop
  · rw [if_neg hstop] at h
    by_cases hreached : cfg.producer.maxPackets ≠ 0 ∧ s.app.sequence ≥ cfg.producer.maxPackets
    · obtain ⟨hne, hge⟩ := hreached
      have hle := hi.app.limit hne
      have hlt := cfg.producer.maxPackets.isLt
      refine .inr ⟨hne, ?_⟩
      rw [ge_iff_le, BitVec.le_def, hi.app.sequence, BitVec.toNat_ofNat, Nat.mod_eq_of_lt (by omega)] at hge
      omega
    · rw [if_neg hreached] at h
      cases h

theorem Course.step (h : s.Course cfg) (hi : s.Inv cfg) (hfits : cfg.producer.Fits cfg.session.cap) {a : StreamAction}
    (hs : s.step cfg a = some t) : t.Course cfg := by
  cases StepSpec.of_step hs with
  | checkSize hphase =>
    have hnot : ¬cfg.producer.recordSize > s.session.ring.producer.maxRecordSize := by
      have hmax := RingProducer.maxRecordSize_toNat hi.ring.producer.capacity
      rw [gt_iff_lt, BitVec.lt_def, hmax, hfits.recordSize]
      exact Nat.not_lt.2 hfits
    refine h.next (by simp [hphase]) rfl ?_ ?_ ?_
    all_goals
      simp only [StreamState.goto, ProducerApp.goto, ProducerApp.checkSize, if_neg hnot]
      split <;> simp
  | waitForPeer hphase =>
    refine h.next (by simp [hphase]) rfl ?_ ?_ fun hp => ?_
    · simp only [StreamState.goto, ProducerApp.goto]
      split <;> simp
    · simp only [StreamState.goto, ProducerApp.goto]
      split <;> simp
    · left
      by_contra hstop
      simp only [StreamState.goto, ProducerApp.goto] at hp hstop
      rw [if_neg hstop] at hp
      cases hp
  | pollPeer hphase | checkDeadline hphase | wait hphase =>
    refine h.next (by simp [hphase]) rfl ?_ ?_ ?_ <;> simp only [StreamState.goto, ProducerApp.goto] <;> split <;> simp
  | loop hphase =>
    have hround : ∀ phase, s.app.nextRound cfg.producer = phase → phase = .returned ∨ phase = .readPause := by
      rintro phase rfl
      unfold ProducerApp.nextRound
      split
      · exact .inl rfl
      · split
        · exact .inl rfl
        · exact .inr rfl
    refine h.next (by simp [hphase]) rfl ?_ ?_ (nextRound_returned hi)
    all_goals
      simp only [StreamState.goto, ProducerApp.goto]
      rcases hround _ rfl with hp | hp <;> simp [hp]
  | readPause hphase =>
    refine h.next (by simp [hphase]) rfl ?_ ?_ ?_ <;> simp only [ProducerApp.doReadPause] <;> split <;> simp
  | tryReserve hphase _ =>
    rename_i retry load ring hring
    unfold ProducerApp.afterReserve
    cases hslot : ring.slot with
    | some sp => refine h.next (by simp [hphase]) rfl ?_ ?_ ?_ <;> simp [ProducerApp.goto, hslot]
    | none =>
      refine h.next (by simp [hphase]) rfl ?_ ?_ ?_
      all_goals
        simp only [ProducerApp.goto]
        split
        · simp
        · split <;> simp
  | build hphase _ | writeSlot hphase _ | commit hphase _ =>
    refine h.next (by simp [hphase]) rfl ?_ ?_ ?_ <;> simp [ProducerApp.doBuild, ProducerApp.afterCommit, ProducerApp.goto]
  | close hphase _ =>
    have hreturned : s.app.phase = .returned := hphase.resolve_right h.fits
    refine ⟨?_, ?_, ?_, fun _ => h.limit (.inl hreturned)⟩ <;> simp [ProducerApp.goto]
  | setPaused => exact ⟨h.finished, h.slot, h.fits, h.limit⟩
  | requestStop => exact ⟨h.finished, h.slot, h.fits, fun _ => .inl rfl⟩
  | consumer ha hsession =>
    rename_i a session
    have hsame := SessionState.consumer_step ha hsession
    have hfinished : session.finished = s.session.finished := SessionState.finished_step ha hsession
    refine ⟨?_, ?_, h.fits, ?_⟩
    · rw [hfinished]
      exact h.finished
    · rw [hsame.slot]
      exact h.slot
    · rw [hsame.committed]
      exact h.limit

theorem Course.of_reachable (hfits : cfg.producer.Fits cfg.session.cap) (h : (streamMachine cfg).Reachable s) :
    s.Inv cfg ∧ s.Course cfg := by
  refine Machine.Reachable.invariant (I := fun s => s.Inv cfg ∧ s.Course cfg) (fun s hs => ⟨Inv.init hs, Course.init hs⟩) ?_ h
  rintro s a t ⟨hi, hc⟩ hs
  exact ⟨hi.step hfits.header hs, hc.step hi hfits hs⟩

end StreamState

/-! ### Fair executions -/

/-- The steps of `run`. -/
def StreamAction.ofProducer : StreamAction → Bool
  | .producer _ => true
  | _ => false

/-- The steps of the session. -/
def StreamAction.ofSession : StreamAction → Bool
  | .consumer a => a.ofSession
  | _ => false

namespace StreamState

variable {cfg : StreamSetup} {s t : StreamState}

/-- Neither side is stopped or paused, and the process of the producer does not end before `run` does. -/
def Undisturbed (s : StreamState) : StreamAction → Prop
  | .producer _ => True
  | .consumer .exit => s.app.phase = .closed
  | .consumer a => a.ofSession = true
  | _ => False

/-- What a step reads is not older than the state: the counters, the slot of the consumer, `state`, and whether the
process of the producer has ended. -/
def SeenBy (s : StreamState) : StreamAction → Prop
  | .producer (.tryReserve load) => s.session.ring.tailStores.length ≤ load + 1
  | .producer (.pollPeer alive) => (∃ c, s.session.ring.consumer = .attached c) → alive = true
  | .consumer (.tryPeek load) => s.session.ring.headStores.length ≤ load + 1
  | .consumer (.loadState sawFinished) => s.session.finished = true → sawFinished = true
  | .consumer (.checkAlive alive) => s.session.alive = false → alive = false
  | _ => True

end StreamState

/-- An execution that nobody interferes with and that is fair to both sides: every store is seen from some time on, and
no call of `receive` goes on for ever. -/
structure StreamSetup.FairExecution (cfg : StreamSetup) (e : Execution (streamMachine cfg)) : Prop where
  undisturbed : ∀ i a, e.action i = some a → (e.state i).Undisturbed a
  producer : e.Fair StreamAction.ofProducer
  session : e.Fair StreamAction.ofSession
  visible : ∀ i, ∃ j, i ≤ j ∧ ∀ k a, j ≤ k → e.action k = some a → (e.state i).SeenBy a
  returns : ∀ i, ∃ j, i ≤ j ∧ (e.state j).session.phase.waiting = false

namespace StreamState

variable {cfg : StreamSetup} {s t : StreamState}

/-- What holds all the time. -/
structure Going (cfg : StreamSetup) (s : StreamState) : Prop where
  inv : s.Inv cfg
  course : s.Course cfg
  unpaused : s.session.Unpaused cfg.session []
  appPaused : s.app.paused = false
  stop : s.session.stop = false
  appStop : s.app.stop = false
  alive : s.app.phase ≠ .closed → s.session.alive = true

/-- After `run` there are no more steps of it. -/
theorem no_step_of_closed (h : s.app.phase = .closed) (a : ProducerAction) : s.step cfg (.producer a) = none := by
  cases hs : s.step cfg (.producer a) with
  | none => rfl
  | some t =>
    cases StepSpec.of_step hs with
    | close hphase _ =>
      rw [h] at hphase
      rcases hphase with hphase | hphase <;> cases hphase
    | checkSize hphase | waitForPeer hphase | pollPeer hphase | loop hphase | readPause hphase | tryReserve hphase _
    | wait hphase | checkDeadline hphase | build hphase _ | writeSlot hphase _ | commit hphase _ =>
      rw [h] at hphase
      cases hphase

theorem closed_step (h : s.app.phase = .closed) {a : StreamAction} (hs : s.step cfg a = some t) : t.app.phase = .closed := by
  cases a with
  | producer a =>
    rw [no_step_of_closed h a] at hs
    cases hs
  | setPaused paused | requestStop =>
    cases hs
    exact h
  | consumer b =>
    cases StepSpec.of_step hs with
    | consumer _ _ => exact h

theorem app_step {a : StreamAction} (ha : s.Undisturbed a) (hs : s.step cfg a = some t) :
    t.app.paused = s.app.paused ∧ t.app.stop = s.app.stop := by
  cases StepSpec.of_step hs with
  | setPaused | requestStop => exact ha.elim
  | tryReserve _ _ =>
    unfold ProducerApp.afterReserve
    split <;> exact ⟨rfl, rfl⟩
  | _ => exact ⟨rfl, rfl⟩

/-- The controls of the session stay as they are. -/
theorem session_controls {a : StreamAction} (ha : s.Undisturbed a) (hs : s.step cfg a = some t) :
    t.session.paused = s.session.paused ∧ t.session.stop = s.session.stop ∧
      (s.app.phase ≠ .closed → t.session.alive = s.session.alive) := by
  rcases session_step hs with hsame | ⟨b, hstep, hb⟩
  · rw [hsame]
    exact ⟨rfl, rfl, fun _ => rfl⟩
  · generalize t.session = session at hstep ⊢
    rcases hb with hb | rfl
    · cases SessionState.StepSpec.of_step hstep with
      | producer _ _ _ | finish _ => exact ⟨rfl, rfl, fun _ => rfl⟩
      | _ => cases hb
    · by_cases hexit : b = .exit
      · subst hexit
        cases SessionState.StepSpec.of_step hstep with
        | exit => exact ⟨rfl, rfl, fun hne => absurd ha hne⟩
      · have hown : b.ofSession = true := by
          cases b <;> first | exact ha | exact absurd rfl hexit
        have hsame := SessionState.ofSession_step hown hstep
        exact ⟨hsame.paused, hsame.stop, fun _ => hsame.alive⟩

theorem Going.step (h : s.Going cfg) (hfits : cfg.producer.Fits cfg.session.cap) {a : StreamAction} (ha : s.Undisturbed a)
    (hs : s.step cfg a = some t) : t.Going cfg := by
  obtain ⟨hpaused, hstop, halive⟩ := session_controls ha hs
  obtain ⟨happPaused, happStop⟩ := app_step ha hs
  refine ⟨h.inv.step hfits.header hs, h.course.step h.inv hfits hs, ?_, happPaused.trans h.appPaused, hstop.trans h.stop,
    happStop.trans h.appStop, fun hne => ?_⟩
  · rcases session_step hs with hsame | ⟨b, hstep, -⟩
    · rw [hsame]
      exact h.unpaused
    · exact h.unpaused.keep hstep hpaused
  · have hopen : s.app.phase ≠ .closed := fun hp => hne (closed_step hp hs)
    rw [halive hopen]
    exact h.alive hopen

/-! ### What is enabled -/

theorem Going.enabled_session (h : s.Going cfg) (hdone : ∀ drained, s.session.phase ≠ .done drained) :
    Execution.Enabled (streamMachine cfg) StreamAction.ofSession s := by
  obtain ⟨a, session, ha, hs⟩ := h.unpaused.live hdone
  have hown := SessionState.ofSession_of_prompt ha
  have hconsumer : ¬a.ofProducer = true := by
    cases a <;> first | exact Bool.false_ne_true | cases hown
  refine ⟨.consumer a, ⟨session, s.app⟩, hown, ?_⟩
  show (if a.ofProducer then none else s.onSession cfg a fun _ => s.app) = some ⟨session, s.app⟩
  rw [if_neg hconsumer, onSession, hs]
  rfl

/-- The last value stored to `tail` may be read. -/
theorem Inv.tailLoad (h : s.Inv cfg) : ∃ tail, s.session.ring.tailLoad s.session.ring.released.length = some tail := by
  have hi := h.ring
  refine ⟨counter s.session.ring.committed s.session.ring.released.length, ?_⟩
  rw [SharedRing.tailLoad, if_pos hi.tailSeen_le, hi.tails]
  simp

/-- Where `run` is not over, one of its steps is enabled. -/
theorem Course.enabled_producer (h : s.Course cfg) (hi : s.Inv cfg) (halive : s.session.alive = true)
    (hopen : s.app.phase ≠ .closed) : Execution.Enabled (streamMachine cfg) StreamAction.ofProducer s := by
  have hfinished : s.session.finished = false := by
    have := mt h.finished.1 hopen
    simpa using this
  have henabled (a : ProducerAction) (ht : ∃ t, s.producerStep cfg a = some t) :
      Execution.Enabled (streamMachine cfg) StreamAction.ofProducer s := by
    obtain ⟨t, ht⟩ := ht
    refine ⟨.producer a, t, rfl, ?_⟩
    show (if s.session.alive then s.producerStep cfg a else none) = some t
    rw [if_pos halive, ht]
  have hring {a : RingAction} {ring : SharedRing} (ha : a.ofProducer = true)
      (hs : s.session.ring.step cfg.session.cap a = some ring) (next : SharedRing → ProducerApp) :
      s.onSession cfg (.producer a) next = some ⟨{ s.session with ring := ring }, next ring⟩ := by
    simp [onSession, SessionState.step, SessionState.onRing, halive, hfinished, ha, hs]
  have hok := hi.app.phase
  cases hphase : s.app.phase with
  | closed => exact absurd hphase hopen
  | checkSize | waitForPeer | loop | readPause | wait =>
    exact henabled .advance ⟨_, by simp only [producerStep, advance, hphase]; rfl⟩
  | pollPeer => exact henabled (.pollPeer true) ⟨_, by simp only [producerStep, hphase]; rfl⟩
  | expire => exact henabled (.checkDeadline true) ⟨_, by simp only [producerStep, hphase]; rfl⟩
  | reserve retry =>
    obtain ⟨tail, htail⟩ := hi.tailLoad
    have hstep : s.session.ring.step cfg.session.cap
        (.tryReserve cfg.producer.recordSize s.session.ring.released.length) =
          some (s.session.ring.doReserve cfg.producer.recordSize tail s.session.ring.released.length) := by
      simp only [SharedRing.step, htail, Option.map_some]
    exact henabled (.tryReserve s.session.ring.released.length)
      ⟨_, by simp only [producerStep, hphase]; exact hring rfl hstep _⟩
  | stamp =>
    obtain ⟨slot, hslot⟩ := Option.isSome_iff_exists.1 (h.slot hphase)
    exact henabled (.build 0) ⟨_, by simp only [producerStep, hphase, hslot]; rfl⟩
  | build stores =>
    rw [hphase] at hok
    obtain ⟨-, slot, hslot, hin, -⟩ := hok
    cases stores with
    | nil => exact henabled .advance ⟨_, by simp only [producerStep, advance, hphase]; exact hring rfl rfl _⟩
    | cons store stores =>
      have hstep : s.session.ring.step cfg.session.cap (.writeSlot store.1 store.2) =
          some (s.session.ring.doWrite slot store.1 store.2) := by
        simp only [SharedRing.step, hslot]
        rw [if_pos (hin store (List.mem_cons_self ..))]
      exact henabled .advance ⟨_, by simp only [producerStep, advance, hphase]; exact hring rfl hstep _⟩
  | returned | threw =>
    refine henabled .advance ⟨⟨{ s.session with finished := true }, s.app.goto .closed⟩, ?_⟩
    simp [producerStep, advance, hphase, onSession, SessionState.step, halive, hfinished]

theorem Going.enabled_producer (h : s.Going cfg) (hopen : s.app.phase ≠ .closed) :
    Execution.Enabled (streamMachine cfg) StreamAction.ofProducer s :=
  h.course.enabled_producer h.inv (h.alive hopen) hopen

/-- As long as `run` is not over, the session is not either. -/
theorem Going.not_over (h : s.Going cfg) (hopen : s.app.phase ≠ .closed) : ¬s.session.Over := by
  have halive := h.alive hopen
  have hfinished := mt h.course.finished.1 hopen
  rintro (hf | ha)
  · exact hfinished hf
  · rw [halive] at ha
    cases ha

theorem Going.not_done (h : s.Going cfg) (hopen : s.app.phase ≠ .closed) (drained : Bool) :
    s.session.phase ≠ .done drained := by
  intro hphase
  have hok := h.unpaused.runs.phaseOk hphase
  cases drained with
  | true => exact h.not_over hopen hok.1.1
  | false =>
    have hstop := h.stop
    rw [show s.session.stop = true from hok] at hstop
    cases hstop

/-! ### What the steps of the other side leave as it is -/

def releasedCount (s : StreamState) : Nat := s.session.ring.released.length

theorem Going.releasedCount_le (h : s.Going cfg) : s.releasedCount ≤ s.committedCount := h.inv.ring.released_le_committed

theorem counts_step {a : StreamAction} (hs : s.step cfg a = some t) :
    s.releasedCount ≤ t.releasedCount ∧ s.committedCount ≤ t.committedCount := by
  rcases session_step hs with hsame | ⟨b, hstep, -⟩
  · rw [releasedCount, releasedCount, committedCount, committedCount, hsame]
    exact ⟨Nat.le_refl _, Nat.le_refl _⟩
  · obtain ⟨hreleased, hcommitted⟩ := SessionState.ring_grows hstep
    exact ⟨hreleased.length_le, hcommitted.length_le⟩

theorem counts_later {e : Execution (streamMachine cfg)} {i j : Nat} (hij : i ≤ j) :
    (e.state i).releasedCount ≤ (e.state j).releasedCount ∧ (e.state i).committedCount ≤ (e.state j).committedCount := by
  refine Execution.always (I := fun s : StreamState => (e.state i).releasedCount ≤ s.releasedCount ∧
    (e.state i).committedCount ≤ s.committedCount) (fun k a _ ha hk => ?_) ⟨Nat.le_refl _, Nat.le_refl _⟩ hij
  have hstep := counts_step (Execution.step_of_action ha)
  omega

theorem closed_later {e : Execution (streamMachine cfg)} {i j : Nat} (hij : i ≤ j)
    (hclosed : (e.state i).app.phase = .closed) : (e.state j).app.phase = .closed :=
  Execution.always (I := fun s : StreamState => s.app.phase = .closed)
    (fun _ _ _ ha hs => closed_step hs (Execution.step_of_action ha)) hclosed hij

/-- A process that has ended does not come back. -/
theorem dead_later {e : Execution (streamMachine cfg)} {i j : Nat} (hij : i ≤ j)
    (hdead : (e.state i).session.alive = false) : (e.state j).session.alive = false := by
  refine Execution.always (I := fun s : StreamState => s.session.alive = false) (fun k a _ ha hk => ?_) hdead hij
  rcases session_step (Execution.step_of_action ha) with hsame | ⟨b, hstep, -⟩
  · rw [hsame]
    exact hk
  · generalize (e.state (k + 1)).session = session at hstep ⊢
    exact SessionState.dead_step hk hstep

/-- The session does not notice what the producer does, but for its commits. -/
theorem unreleasedRank_step (hopen : s.app.phase ≠ .closed) {a : StreamAction} (ha : s.Undisturbed a)
    (hs : s.step cfg a = some t) (hown : a.ofSession = false) (hcommitted : t.committedCount = s.committedCount) :
    t.session.unreleasedRank = s.session.unreleasedRank := by
  have hring {b : RingAction} {ring : SharedRing} (hop : s.OnRing cfg b ring) (hb : b.ofProducer = true)
      (hcommitted : ring.committed.length = s.committedCount) :
      ({ s.session with ring := ring } : SessionState).unreleasedRank = s.session.unreleasedRank := by
    obtain ⟨-, hview, hreleased, -⟩ := SharedRing.producer_step hb hop.ringStep
    simp only [SessionState.unreleasedRank, SessionState.stepsToRelease, hview, hreleased, hcommitted, committedCount]
  cases StepSpec.of_step hs with
  | tryReserve _ hop | writeSlot _ hop | commit _ hop => exact hring hop rfl hcommitted
  | consumer hb hsession =>
    rename_i b session
    have hexit : b = .exit := by
      by_contra hne
      have hb' : b.ofSession = true := by
        cases b <;> first | exact ha | exact absurd rfl hne
      rw [show (StreamAction.consumer b).ofSession = b.ofSession from rfl, hb'] at hown
      cases hown
    subst hexit
    exact absurd ha hopen
  | _ => rfl

/-- A step of the session that sees all that was committed comes closer to a release. -/
theorem unreleasedRank_lower (h : s.Going cfg) (hopen : s.app.phase ≠ .closed) {a : StreamAction} (hs : s.step cfg a = some t)
    (hown : a.ofSession = true) (hload : ∀ load, a = .consumer (.tryPeek load) → s.committedCount ≤ load)
    (hlt : s.releasedCount < s.committedCount) : t.session.unreleasedRank < s.session.unreleasedRank := by
  cases StepSpec.of_step hs with
  | consumer _ hsession =>
    exact h.unpaused.lower (h.not_over hopen) h.stop hown hsession (fun load hb => hload load (by rw [hb])) hlt
  | _ => cases hown

/-- The steps of the session and of its process leave `run` as it is. -/
theorem app_consumer {a : StreamAction} (ha : s.Undisturbed a) (hs : s.step cfg a = some t) (hown : a.ofProducer = false) :
    t.app = s.app ∧ t.committedCount = s.committedCount := by
  cases StepSpec.of_step hs with
  | consumer hb hsession =>
    refine ⟨rfl, ?_⟩
    simp only [committedCount, (SessionState.consumer_step hb hsession).committed]
  | setPaused | requestStop => exact ha.elim
  | _ => cases hown

/-! ### The session releases what was committed -/

/-- After `s`: more was committed, or `run` is over. -/
def Advanced (s u : StreamState) : Prop := s.committedCount < u.committedCount ∨ u.app.phase = .closed

/-- Or all that was committed is released. -/
def Emptied (s u : StreamState) : Prop := s.Advanced u ∨ u.releasedCount = u.committedCount

/-- Since `s` nothing was committed, and some of it is not released. -/
structure Releasing (s u : StreamState) : Prop where
  opened : u.app.phase ≠ .closed
  same : u.committedCount = s.committedCount
  left : u.releasedCount < u.committedCount

theorem Going.releasing (h : t.Going cfg) (hcommitted : s.committedCount ≤ t.committedCount) :
    s.Emptied t ∨ s.Releasing t := by
  have hle := h.releasedCount_le
  by_cases hclosed : t.app.phase = .closed
  · exact .inl (.inl (.inr hclosed))
  · by_cases hmore : s.committedCount < t.committedCount
    · exact .inl (.inl (.inl hmore))
    · by_cases hall : t.releasedCount = t.committedCount
      · exact .inl (.inr hall)
      · exact .inr ⟨hclosed, by omega, by omega⟩

/-! ### The producer commits the next packet -/

end StreamState

namespace ProducerPhase

/-- The steps to the start of a packet, if the ring has room. -/
def stepsToBuild : ProducerPhase → Nat
  | closed | build _ => 0
  | returned | threw => 1
  | stamp => 3
  | reserve _ => 4
  | readPause | wait => 5
  | loop => 6
  | pollPeer | expire => 7
  | waitForPeer => 8
  | checkSize => 9

def storesLeft : ProducerPhase → Nat
  | build stores => stores.length
  | _ => 0

end ProducerPhase

namespace StreamState

variable {cfg : StreamSetup} {s t : StreamState}

/-- Since `s` nothing was committed, all of it is released, and no packet is being built. -/
structure Reserving (s u : StreamState) : Prop where
  opened : u.app.phase ≠ .closed
  same : u.committedCount = s.committedCount
  empty : u.releasedCount = u.committedCount
  idle : ∀ stores, u.app.phase ≠ .build stores

/-- After `s`: a packet was committed or is being built, or `run` is over. -/
def Started (s u : StreamState) : Prop := s.Advanced u ∨ ∃ stores, u.app.phase = .build stores

/-- An attempt of `reserve` that sees that the ring is empty succeeds. -/
theorem reserve_succeeds (h : s.Inv cfg) (hfits : cfg.producer.Fits cfg.session.cap)
    (hempty : s.releasedCount = s.committedCount) {load : Nat} (hload : s.committedCount ≤ load) {ring : SharedRing}
    (hs : s.session.ring.step cfg.session.cap (.tryReserve cfg.producer.recordSize load) = some ring) :
    ring.slot.isSome = true := by
  have hi := h.ring
  cases SharedRing.StepSpec.of_step hs with
  | tryReserve hl =>
    obtain ⟨-, hle, htail⟩ := hi.tailLoad hl
    have hlast : load = s.session.ring.released.length := Nat.le_antisymm hle (Nat.le_trans (Nat.le_of_eq hempty) hload)
    rw [hlast, ← hi.controlTail] at htail
    subst htail
    have hnone := hi.tryReserve_none cfg.producer.recordSize
    have hslot : (s.session.ring.producer.tryReserve s.session.ring.controlTail cfg.producer.recordSize).slot ≠ none := by
      rw [Ne, hnone, not_or]
      have hunreleased : s.session.ring.unreleasedBytes = 0 := by
        have : s.session.ring.unreleased = [] := List.drop_eq_nil_iff.2 (Nat.le_of_eq hempty.symm)
        rw [SharedRing.unreleasedBytes, this]
        rfl
      have hmax := RingProducer.maxRecordSize_toNat hi.producer.capacity
      have hfour := cfg.session.cap.four_le
      have hsize := hfits.recordSize
      have hle : cfg.producer.recordSize.toNat ≤ min (cfg.session.cap.bytes - 4) (2 ^ 32 - 1) := by
        rw [hsize]
        exact hfits
      rw [BitVec.lt_def, hmax, hunreleased]
      omega
    obtain ⟨slot, hslot⟩ := Option.ne_none_iff_exists'.1 hslot
    simp [SharedRing.doReserve, hslot]

/-- Where the ring is empty, a step of `run` that sees it comes closer to the next packet. -/
theorem stepsToBuild_lower (h : s.Going cfg) (hfits : cfg.producer.Fits cfg.session.cap)
    (hempty : s.releasedCount = s.committedCount) (hidle : ∀ stores, s.app.phase ≠ .build stores) {a : StreamAction}
    (hs : s.step cfg a = some t) (hown : a.ofProducer = true)
    (hpoll : ∀ alive, a = .producer (.pollPeer alive) → alive = true)
    (hload : ∀ load, a = .producer (.tryReserve load) → s.committedCount ≤ load) :
    t.app.phase.stepsToBuild < s.app.phase.stepsToBuild := by
  cases StepSpec.of_step hs with
  | checkSize hphase =>
    rw [hphase]
    simp only [StreamState.goto, ProducerApp.goto, ProducerApp.checkSize]
    split
    · simp [ProducerPhase.stepsToBuild]
    · split <;> simp [ProducerPhase.stepsToBuild]
  | waitForPeer hphase =>
    rw [hphase]
    simp only [StreamState.goto, ProducerApp.goto]
    split <;> simp [ProducerPhase.stepsToBuild]
  | pollPeer hphase =>
    rename_i alive
    rw [hphase, hpoll alive rfl]
    simp [StreamState.goto, ProducerApp.goto, ProducerPhase.stepsToBuild]
  | loop hphase =>
    rw [hphase]
    simp only [StreamState.goto, ProducerApp.goto, ProducerApp.nextRound]
    split
    · simp [ProducerPhase.stepsToBuild]
    · split <;> simp [ProducerPhase.stepsToBuild]
  | readPause hphase =>
    rw [hphase]
    simp [ProducerApp.doReadPause, h.appPaused, ProducerPhase.stepsToBuild]
  | tryReserve hphase hop =>
    rename_i retry load ring
    obtain ⟨slot, hslot⟩ :=
      Option.isSome_iff_exists.1 (reserve_succeeds h.inv hfits hempty (hload load rfl) hop.ringStep)
    rw [hphase, hslot]
    simp [ProducerApp.afterReserve, ProducerApp.goto, ProducerPhase.stepsToBuild]
  | wait hphase =>
    rw [hphase]
    simp [StreamState.goto, ProducerApp.goto, h.appStop, ProducerPhase.stepsToBuild]
  | checkDeadline hphase =>
    rw [hphase]
    simp only [StreamState.goto, ProducerApp.goto]
    split <;> simp [ProducerPhase.stepsToBuild]
  | build hphase _ =>
    rw [hphase]
    simp [ProducerApp.doBuild, ProducerPhase.stepsToBuild]
  | writeSlot hphase _ | commit hphase _ => exact absurd hphase (hidle _)
  | close hphase _ => rcases hphase with hp | hp <;> simp [hp, ProducerApp.goto, ProducerPhase.stepsToBuild]
  | _ => cases hown

/-- The stores of a packet come to an end, and then it is committed. -/
theorem storesLeft_lower (h : s.Inv cfg) {stores : List (Nat × U8)} (hphase : s.app.phase = .build stores)
    {a : StreamAction} (hs : s.step cfg a = some t) (hown : a.ofProducer = true) :
    s.committedCount < t.committedCount ∨
      (∃ stores, t.app.phase = .build stores) ∧ t.app.phase.storesLeft < s.app.phase.storesLeft := by
  cases StepSpec.of_step hs with
  | writeSlot hp _ =>
    refine .inr ⟨⟨_, rfl⟩, ?_⟩
    rw [hp]
    exact Nat.lt_succ_self _
  | commit hp hop =>
    left
    simp only [committedCount, committedCount_commit h hp hop]
    exact Nat.lt_succ_self _
  | close hp _ =>
    rw [hphase] at hp
    rcases hp with hp | hp <;> cases hp
  | checkSize hp | waitForPeer hp | pollPeer hp | loop hp | readPause hp | tryReserve hp _ | wait hp | checkDeadline hp
  | build hp _ =>
    rw [hphase] at hp
    cases hp
  | _ => cases hown

/-! ### The session after the producer -/

theorem consumer_action {b : SessionAction} (hs : s.step cfg (.consumer b) = some t) :
    (s.session.step cfg.session b).map (fun session => (⟨session, s.app⟩ : StreamState)) = some t :=
  (Option.ite_none_left_eq_some.1 hs).2

/-- After `run` only the session takes steps, and the process of the producer ends. -/
theorem step_of_closed (hclosed : s.app.phase = .closed) {a : StreamAction} (ha : s.Undisturbed a)
    (hs : s.step cfg a = some t) :
    a.ofSession = false ∧ (t.session = s.session ∨ t.session = { s.session with alive := false }) ∨
      ∃ b, a = .consumer b ∧ b.ofSession = true ∧ s.session.step cfg.session b = some t.session := by
  cases a with
  | producer a =>
    rw [no_step_of_closed hclosed a] at hs
    cases hs
  | setPaused | requestStop => exact ha.elim
  | consumer b =>
    obtain ⟨session, hsession, rfl⟩ := Option.map_eq_some_iff.1 (consumer_action hs)
    by_cases hexit : b = .exit
    · subst hexit
      cases SessionState.StepSpec.of_step hsession with
      | exit => exact .inl ⟨rfl, .inr rfl⟩
    · have hown : b.ofSession = true := by
        cases b <;> first | exact ha | exact absurd rfl hexit
      exact .inr ⟨b, rfl, hown, hsession⟩

theorem Going.finishing (h : s.Going cfg) (hclosed : s.app.phase = .closed) : s.session.Finishing cfg.session [] :=
  ⟨h.unpaused, .inl (h.course.finished.2 hclosed)⟩

/-- A step of the session that reads the last values is up to date. -/
theorem Going.patient (h : s.Going cfg) (hclosed : s.app.phase = .closed) {b : SessionAction} (hown : b.ofSession = true)
    {session : SessionState} (hs : s.session.step cfg.session b = some session)
    (hstate : ∀ sawFinished, b = .loadState sawFinished → sawFinished = true)
    (hgone : s.session.alive = false → ∀ alive, b = .checkAlive alive → alive = false) : s.session.patient b = true := by
  have hfinished : s.session.finished = true := h.course.finished.2 hclosed
  cases b with
  | advance | tryPeek _ | process _ | report _ => rfl
  | checkDeadline expired => cases expired <;> rfl
  | loadState sawFinished =>
    rw [hstate sawFinished rfl]
    simp [SessionState.patient, SessionState.prompt, hfinished]
  | checkAlive alive =>
    cases hdead : s.session.alive with
    | false =>
      rw [hgone hdead alive rfl]
      simp [SessionState.patient, SessionState.prompt, hdead]
    | true =>
      -- a process that has not ended is found
      cases alive with
      | true => simp [SessionState.patient, SessionState.prompt, hdead]
      | false =>
        cases SessionState.StepSpec.of_step hs with
        | peerGone hphase hgone _ =>
          rcases hgone with hle | ⟨-, hdead'⟩
          · rw [(h.unpaused.runs.phaseOk hphase).1] at hle
            exact absurd hle (Int.not_le.2 cfg.session.producerPid_pos)
          · rw [hdead] at hdead'
            cases hdead'
  | _ => cases hown

/-! ### One side after the other -/

section

variable {e : Execution (streamMachine cfg)} (hfair : cfg.FairExecution e) (hgoing : ∀ i, (e.state i).Going cfg)
include hfair hgoing

/-- All that was committed is released, unless the producer goes on. -/
theorem releases_all (i : Nat) : ∃ j, i ≤ j ∧ (e.state i).Emptied (e.state j) := by
  obtain ⟨j, hij, hvisible⟩ := hfair.visible i
  have hcases (k : Nat) (hjk : j ≤ k) :
      (e.state i).Emptied (e.state k) ∨ j ≤ k ∧ (e.state i).Releasing (e.state k) := by
    have hgrow := (counts_later (e := e) (Nat.le_trans hij hjk)).2
    exact ((hgoing k).releasing hgrow).imp_right fun h => ⟨hjk, h⟩
  have hlower (k : Nat) (a : StreamAction) (hk : j ≤ k ∧ (e.state i).Releasing (e.state k))
      (ha : e.action k = some a) (hown : a.ofSession = true) :
      (e.state (k + 1)).session.unreleasedRank < (e.state k).session.unreleasedRank := by
    obtain ⟨hjk, hr⟩ := hk
    refine unreleasedRank_lower (hgoing k) hr.opened (Execution.step_of_action ha) hown (fun load hload => ?_) hr.left
    subst hload
    have hseen : (e.state i).session.ring.headStores.length ≤ load + 1 := hvisible k _ hjk ha
    rw [(hgoing i).inv.ring.heads, List.length_map, List.length_range] at hseen
    rw [hr.same]
    exact Nat.le_of_succ_le_succ hseen
  have hkeep (k : Nat) (hk : j ≤ k ∧ (e.state i).Releasing (e.state k)) :
      (e.state i).Emptied (e.state (k + 1)) ∨ (j ≤ k + 1 ∧ (e.state i).Releasing (e.state (k + 1))) ∧
        (e.state (k + 1)).session.unreleasedRank ≤ (e.state k).session.unreleasedRank := by
    refine (hcases (k + 1) (Nat.le_succ_of_le hk.1)).imp_right fun hnext => ⟨hnext, ?_⟩
    rcases e.cases k with ⟨-, hidle⟩ | ⟨a, ha, hs⟩
    · rw [hidle]
    · by_cases hown : a.ofSession = true
      · exact Nat.le_of_lt (hlower k a hk ha hown)
      · exact Nat.le_of_eq (unreleasedRank_step hk.2.opened (hfair.undisturbed k a ha) hs (by simpa using hown)
          (hnext.2.same.trans hk.2.same.symm))
  rcases hcases j (Nat.le_refl _) with hnow | hj
  · exact ⟨j, hij, hnow⟩
  · obtain ⟨k, hjk, hk⟩ := hfair.session.leadsTo (Q := fun k => (e.state i).Emptied (e.state k))
      (r := fun k => (e.state k).session.unreleasedRank)
      (fun k hk => (hgoing k).enabled_session ((hgoing k).not_done hk.2.opened)) hkeep
      (fun k a hk ha hown => .inr (hlower k a hk ha hown)) hj
    exact ⟨k, Nat.le_trans hij hjk, hk⟩

/-- In an empty ring the next packet is started. -/
theorem starts_packet (hfits : cfg.producer.Fits cfg.session.cap) {i : Nat}
    (hempty : (e.state i).releasedCount = (e.state i).committedCount) :
    ∃ j, i ≤ j ∧ (e.state i).Started (e.state j) := by
  obtain ⟨j, hij, hvisible⟩ := hfair.visible i
  have hcases (k : Nat) (hjk : j ≤ k) :
      (e.state i).Started (e.state k) ∨ j ≤ k ∧ (e.state i).Reserving (e.state k) := by
    obtain ⟨hreleased, hgrow⟩ := counts_later (e := e) (Nat.le_trans hij hjk)
    have hle := (hgoing k).releasedCount_le
    by_cases hmore : (e.state i).committedCount < (e.state k).committedCount
    · exact .inl (.inl (.inl hmore))
    · by_cases hclosed : (e.state k).app.phase = .closed
      · exact .inl (.inl (.inr hclosed))
      · by_cases hbuild : ∃ stores, (e.state k).app.phase = .build stores
        · exact .inl (.inr hbuild)
        · exact .inr ⟨hjk, hclosed, by omega, by omega, fun stores hp => hbuild ⟨stores, hp⟩⟩
  have hlower (k : Nat) (a : StreamAction) (hk : j ≤ k ∧ (e.state i).Reserving (e.state k))
      (ha : e.action k = some a) (hown : a.ofProducer = true) :
      (e.state (k + 1)).app.phase.stepsToBuild < (e.state k).app.phase.stepsToBuild := by
    obtain ⟨hjk, hr⟩ := hk
    refine stepsToBuild_lower (hgoing k) hfits hr.empty hr.idle (Execution.step_of_action ha) hown
      (fun alive hpoll => ?_) fun load hload => ?_
    · subst hpoll
      exact hvisible k _ hjk ha (hgoing i).unpaused.attached
    · subst hload
      have hseen : (e.state i).session.ring.tailStores.length ≤ load + 1 := hvisible k _ hjk ha
      rw [(hgoing i).inv.ring.tails, List.length_map, List.length_range] at hseen
      rw [hr.same, ← hempty]
      exact Nat.le_of_succ_le_succ hseen
  have hkeep (k : Nat) (hk : j ≤ k ∧ (e.state i).Reserving (e.state k)) :
      (e.state i).Started (e.state (k + 1)) ∨ (j ≤ k + 1 ∧ (e.state i).Reserving (e.state (k + 1))) ∧
        (e.state (k + 1)).app.phase.stepsToBuild ≤ (e.state k).app.phase.stepsToBuild := by
    refine (hcases (k + 1) (Nat.le_succ_of_le hk.1)).imp_right fun hnext => ⟨hnext, ?_⟩
    rcases e.cases k with ⟨-, hidle⟩ | ⟨a, ha, hs⟩
    · rw [hidle]
    · by_cases hown : a.ofProducer = true
      · exact Nat.le_of_lt (hlower k a hk ha hown)
      · rw [(app_consumer (hfair.undisturbed k a ha) hs (by simpa using hown)).1]
  rcases hcases j (Nat.le_refl _) with hnow | hj
  · exact ⟨j, hij, hnow⟩
  · obtain ⟨k, hjk, hk⟩ := hfair.producer.leadsTo (Q := fun k => (e.state i).Started (e.state k))
      (r := fun k => (e.state k).app.phase.stepsToBuild) (fun k hk => (hgoing k).enabled_producer hk.2.opened) hkeep
      (fun k a hk ha hown => .inr (hlower k a hk ha hown)) hj
    exact ⟨k, Nat.le_trans hij hjk, hk⟩

/-- A packet that is being built is committed. -/
theorem commits_packet {i : Nat} {stores : List (Nat × U8)} (hphase : (e.state i).app.phase = .build stores) :
    ∃ j, i ≤ j ∧ (e.state i).committedCount < (e.state j).committedCount := by
  have hkeep (k : Nat) (a : StreamAction) (ha : e.action k = some a) (hown : ¬a.ofProducer = true) :
      (e.state (k + 1)).app = (e.state k).app ∧ (e.state (k + 1)).committedCount = (e.state k).committedCount :=
    app_consumer (hfair.undisturbed k a ha) (Execution.step_of_action ha) (by simpa using hown)
  have hlower (k : Nat) (a : StreamAction) (hk : (e.state i).committedCount ≤ (e.state k).committedCount ∧
      ∃ stores, (e.state k).app.phase = .build stores) (ha : e.action k = some a) (hown : a.ofProducer = true) :
      (e.state i).committedCount < (e.state (k + 1)).committedCount ∨
        (∃ stores, (e.state (k + 1)).app.phase = .build stores) ∧
          (e.state (k + 1)).app.phase.storesLeft < (e.state k).app.phase.storesLeft := by
    obtain ⟨hle, stores, hp⟩ := hk
    refine (storesLeft_lower (hgoing k).inv hp (Execution.step_of_action ha) hown).imp_left fun hlt => ?_
    omega
  refine hfair.producer.leadsTo (Q := fun k => (e.state i).committedCount < (e.state k).committedCount)
    (P := fun k => (e.state i).committedCount ≤ (e.state k).committedCount ∧ ∃ stores, (e.state k).app.phase = .build stores)
    (r := fun k => (e.state k).app.phase.storesLeft) (fun k hk => ?_) (fun k hk => ?_)
    (fun k a hk ha hown => (hlower k a hk ha hown).imp_right And.right) ⟨Nat.le_refl _, stores, hphase⟩
  · obtain ⟨-, stores, hp⟩ := hk
    exact (hgoing k).enabled_producer (by rw [hp]; exact nofun)
  · have hgrow := (counts_later (e := e) (Nat.le_add_right k 1)).2
    rcases e.cases k with ⟨-, hidle⟩ | ⟨a, ha, -⟩
    · rw [hidle]
      exact .inr ⟨hk, Nat.le_refl _⟩
    · by_cases hown : a.ofProducer = true
      · refine (hlower k a hk ha hown).imp_right fun hnext => ⟨⟨by omega, hnext.1⟩, Nat.le_of_lt hnext.2⟩
      · obtain ⟨happ, hcount⟩ := hkeep k a ha hown
        rw [happ, hcount]
        exact .inr ⟨hk, Nat.le_refl _⟩

/-- The producer does not stand still. -/
theorem advances (hfits : cfg.producer.Fits cfg.session.cap) (i : Nat) :
    ∃ j, i ≤ j ∧ (e.state i).Advanced (e.state j) := by
  have hadvanced {j k : Nat} (hij : i ≤ j) (h : (e.state j).Advanced (e.state k)) : (e.state i).Advanced (e.state k) :=
    h.imp_left fun hlt => Nat.lt_of_le_of_lt (counts_later hij).2 hlt
  obtain ⟨j, hij, hnow | hempty⟩ := releases_all hfair hgoing i
  · exact ⟨j, hij, hnow⟩
  · obtain ⟨k, hjk, hnow | ⟨stores, hphase⟩⟩ := starts_packet hfair hgoing hfits hempty
    · exact ⟨k, by omega, hadvanced hij hnow⟩
    · obtain ⟨l, hkl, hlt⟩ := commits_packet hfair hgoing hphase
      exact ⟨l, by omega, hadvanced (by omega : i ≤ k) (.inl hlt)⟩

/-- With a packet limit, `run` ends. -/
theorem run_ends (hfits : cfg.producer.Fits cfg.session.cap) (hlimit : cfg.producer.maxPackets ≠ 0) (i : Nat) :
    ∃ j, i ≤ j ∧ (e.state j).app.phase = .closed := by
  induction hn : cfg.producer.maxPackets.toNat - (e.state i).committedCount using Nat.strongRecOn generalizing i with
  | _ n ih =>
    obtain ⟨j, hij, hlt | hclosed⟩ := advances hfair hgoing hfits i
    · have hle : (e.state j).committedCount ≤ cfg.producer.maxPackets.toNat := (hgoing j).inv.app.limit hlimit
      obtain ⟨k, hjk, hk⟩ := ih _ (by omega) j rfl
      exact ⟨k, by omega, hk⟩
    · exact ⟨j, hij, hclosed⟩

/-- From some time on the steps of the session are up to date, and the process of the producer has ended or never does. -/
theorem settles {i : Nat} (hclosed : (e.state i).app.phase = .closed) :
    ∃ j, i ≤ j ∧ (∀ k, j ≤ k → (e.state k).session.alive = (e.state j).session.alive) ∧
      ∀ k b, j ≤ k → e.action k = some (.consumer b) → b.ofSession = true → (e.state k).session.patient b = true := by
  obtain ⟨l, hil, halive⟩ : ∃ l, i ≤ l ∧ ∀ k, l ≤ k → (e.state k).session.alive = (e.state l).session.alive := by
    by_cases hdead : ∃ l, i ≤ l ∧ (e.state l).session.alive = false
    · obtain ⟨l, hil, hl⟩ := hdead
      exact ⟨l, hil, fun k hlk => (dead_later hlk hl).trans hl.symm⟩
    · have hlive (k : Nat) (hik : i ≤ k) : (e.state k).session.alive = true := by
        by_contra hk
        exact hdead ⟨k, hik, by simpa using hk⟩
      exact ⟨i, Nat.le_refl _, fun k hik => (hlive k hik).trans (hlive i (Nat.le_refl _)).symm⟩
  obtain ⟨j, hlj, hvisible⟩ := hfair.visible l
  refine ⟨j, Nat.le_trans hil hlj, fun k hjk => (halive k (by omega)).trans (halive j hlj).symm, ?_⟩
  intro k b hjk ha hown
  have hseen := hvisible k _ hjk ha
  have hclosedl := closed_later (e := e) hil hclosed
  obtain ⟨session, hsession, -⟩ := Option.map_eq_some_iff.1 (consumer_action (Execution.step_of_action ha))
  refine (hgoing k).patient (closed_later (by omega) hclosed) hown hsession (fun saw hb => ?_) fun hdead alive hb => ?_
  · subst hb
    exact hseen ((hgoing l).course.finished.2 hclosedl)
  · subst hb
    exact hseen ((halive k (by omega)).symm.trans hdead)

/-- The session ends. -/
theorem session_over {i : Nat} (hclosed : (e.state i).app.phase = .closed) :
    ∃ j, i ≤ j ∧ ∃ drained, (e.state j).session.phase = .done drained := by
  obtain ⟨j, hij, halive, hpatient⟩ := settles hfair hgoing hclosed
  have hclosed' (k : Nat) (hjk : j ≤ k) : (e.state k).app.phase = .closed := closed_later (by omega) hclosed
  -- a step comes closer to the end, or is one of a call of `receive` that goes on
  have hstep (k : Nat) (hjk : j ≤ k) :
      (e.state (k + 1)).session = (e.state k).session ∧ (∀ a, e.action k = some a → a.ofSession = false) ∨
        (e.state (k + 1)).session.restRank < (e.state k).session.restRank ∨
        (e.state (k + 1)).session.restRank = (e.state k).session.restRank ∧
          (e.state k).session.phase.waiting = true ∧ (e.state (k + 1)).session.phase.waiting = true := by
    rcases e.cases k with ⟨hnone, hidle⟩ | ⟨a, ha, hs⟩
    · refine .inl ⟨by rw [hidle], fun a ha => ?_⟩
      rw [hnone] at ha
      cases ha
    · rcases step_of_closed (hclosed' k hjk) (hfair.undisturbed k a ha) hs with ⟨hown, hsame⟩ | ⟨b, rfl, hown, hsession⟩
      · refine .inl ⟨?_, fun a' ha' => ?_⟩
        · rcases hsame with hsame | hexit
          · exact hsame
          · -- the process had ended before
            have hbefore := (halive k hjk).trans (halive (k + 1) (by omega)).symm
            rw [hexit] at hbefore
            exact hexit.trans (SessionState.ended_eq hbefore)
        · rw [ha] at ha'
          cases ha'
          exact hown
      · exact .inr (((hgoing k).finishing (hclosed' k hjk)).settle (hpatient k b hjk ha hown) hsession)
  have hkeep (k : Nat) (hjk : j ≤ k) : (e.state (k + 1)).session.restRank ≤ (e.state k).session.restRank := by
    rcases hstep k hjk with ⟨hsame, -⟩ | hlt | ⟨heq, -⟩
    · rw [hsame]
    · exact Nat.le_of_lt hlt
    · exact Nat.le_of_eq heq
  have hlower (k : Nat) (hall : ∀ l, k ≤ l → j ≤ l ∧ ¬∃ drained, (e.state (l + 1)).session.phase = .done drained) :
      ∃ l, k ≤ l ∧ (e.state (l + 1)).session.restRank < (e.state l).session.restRank := by
    by_contra hnot
    push Not at hnot
    have hquiet (l : Nat) (hkl : k ≤ l) :
        (e.state (l + 1)).session = (e.state l).session ∧ (∀ a, e.action l = some a → a.ofSession = false) ∨
          (e.state l).session.phase.waiting = true :=
      (hstep l (hall l hkl).1).imp_right fun h => (h.resolve_left (Nat.not_lt.2 (hnot l hkl))).2.1
    -- once a call has returned, none of them goes on, so the session would take no step any more
    obtain ⟨l, hkl, hl⟩ := hfair.returns k
    have hrest (m : Nat) (hlm : l ≤ m) : (e.state m).session.phase.waiting = false := by
      induction m, hlm using Nat.le_induction with
      | base => exact hl
      | succ m hlm ih =>
        rcases hquiet m (by omega) with ⟨hsame, -⟩ | hw
        · rw [hsame]
          exact ih
        · rw [ih] at hw
          cases hw
    obtain ⟨m, a, hlm, ha, hown⟩ := hfair.session (l + 1) fun m hlm => by
      refine (hgoing m).enabled_session fun drained hphase => (hall (m - 1) (by omega)).2 ⟨drained, ?_⟩
      rwa [Nat.sub_add_cancel (by omega)]
    rcases hquiet m (by omega) with ⟨-, hnone⟩ | hw
    · rw [hnone a ha] at hown
      cases hown
    · rw [hrest m (by omega)] at hw
      cases hw
  obtain ⟨k, hjk, hk⟩ := Execution.leadsTo (P := fun k => j ≤ k)
    (Q := fun k => ∃ drained, (e.state k).session.phase = .done drained) (r := fun k => (e.state k).session.restRank)
    (fun k hjk => .inr ⟨Nat.le_succ_of_le hjk, hkeep k hjk⟩) hlower (Nat.le_refl j)
  exact ⟨k, Nat.le_trans hij hjk, hk⟩

end

/-- `run` and the session are under way, and nobody has stopped or paused them. -/
structure Underway (s : StreamState) : Prop where
  started : s.session.phase ≠ .connecting
  alive : s.session.alive = true
  stop : s.session.stop = false
  paused : s.session.paused = false
  appStop : s.app.stop = false
  appPaused : s.app.paused = false

theorem Underway.going (h : s.Underway) (hfits : cfg.producer.Fits cfg.session.cap)
    (hreach : (streamMachine cfg).Reachable s) : s.Going cfg := by
  obtain ⟨hi, hc⟩ := Course.of_reachable hfits hreach
  obtain hw | ⟨hruns, hattached⟩ := SessionState.waits_or_unpaused hi.session
  · exact absurd hw.phase h.started
  · exact ⟨hi, hc, ⟨hruns, hattached, h.paused⟩, h.appPaused, h.stop, h.appStop, fun _ => h.alive⟩

end StreamState

/-- The stream is delivered to its end.  In every fair execution from a reachable state in which both sides are under way,
with a packet limit and records that fit into the ring, `run` comes to an end, and the session ends by itself when all
packets up to the limit are committed and released, each of them processed or dropped. -/
theorem stream_completes (cfg : StreamSetup) {e : Execution (streamMachine cfg)} (hfair : cfg.FairExecution e)
    (hreach : (streamMachine cfg).Reachable (e.state 0)) (hunderway : (e.state 0).Underway)
    (hfits : cfg.producer.Fits cfg.session.cap) (hlimit : cfg.producer.maxPackets ≠ 0) :
    ∃ i, (e.state i).app.phase = .closed ∧ (e.state i).session.phase = .done true ∧
      (e.state i).session.ring.committed.length = cfg.producer.maxPackets.toNat ∧
      (e.state i).session.ring.released = (e.state i).session.ring.committed ∧
      ((e.state i).session.processed ++ (e.state i).session.dropped).Perm (e.state i).session.ring.committed := by
  have hgoing (i : Nat) : (e.state i).Going cfg :=
    Execution.always (I := fun s : StreamState => s.Going cfg)
      (fun j a _ ha hs => hs.step hfits (hfair.undisturbed j a ha) (Execution.step_of_action ha))
      (hunderway.going hfits hreach) (Nat.zero_le i)
  obtain ⟨i, -, hclosed⟩ := StreamState.run_ends hfair hgoing hfits hlimit 0
  obtain ⟨j, hij, drained, hphase⟩ := StreamState.session_over hfair hgoing hclosed
  have hclosed' := StreamState.closed_later hij hclosed
  obtain ⟨rfl, hreleased⟩ := ((hgoing j).finishing hclosed').done hphase (hgoing j).stop
  have hcommitted := ((hgoing j).course.limit (.inr hclosed')).resolve_left (by rw [(hgoing j).appStop]; exact nofun)
  exact ⟨j, hclosed', hphase, hcommitted.2, hreleased, (SessionState.all_handled (hgoing j).inv.session hphase).2⟩

/-! ### A fair execution -/

namespace StreamState

variable {cfg : StreamSetup} {s t : StreamState}

theorem not_enabled_of_closed (h : s.app.phase = .closed) :
    ¬Execution.Enabled (streamMachine cfg) StreamAction.ofProducer s := by
  rintro ⟨a, t, hown, hs⟩
  cases a with
  | producer a =>
    rw [show (streamMachine cfg).step s (.producer a) = none from no_step_of_closed h a] at hs
    cases hs
  | _ => cases hown

theorem not_enabled_of_done {drained : Bool} (h : s.session.phase = .done drained) :
    ¬Execution.Enabled (streamMachine cfg) StreamAction.ofSession s := by
  rintro ⟨a, t, hown, hs⟩
  cases StepSpec.of_step hs with
  | consumer _ hsession =>
    cases SessionState.StepSpec.of_step hsession with
    | producer | finish | exit | setPaused | requestStop | claim _ _ | loadTail _ _ | start _ _ => cases hown
    | loop hp | readPause hp | waitPaused hp _ _ | discardPaused hp _ | release hp _ | wait hp | drop hp _ | loadPid hp
    | ending hp _ | tryPeek hp _ | checkDeadline hp | process hp _ | sawFinished hp _ _ | sawReady hp | peerAlive hp _
    | peerGone hp _ _ | noReport hp | report hp _ =>
      rw [h] at hp
      cases hp
  | _ => cases hown

end StreamState

/-- A run of steps of both sides to the end of the stream, after which nothing happens, is a fair execution. -/
theorem StreamSetup.fairExecution_of_run {cfg : StreamSetup} {s t : StreamState} {as : List StreamAction}
    (hr : (streamMachine cfg).run s as = some t) (hown : ∀ a ∈ as, (a.ofProducer || a.ofSession) = true)
    (hclosed : t.app.phase = .closed) {drained : Bool} (hdone : t.session.phase = .done drained) :
    ∃ e : Execution (streamMachine cfg), e.state 0 = s ∧ cfg.FairExecution e := by
  obtain ⟨e, h0, haction, hend⟩ := Execution.exists_of_run hr
  refine ⟨e, h0, ⟨fun i a ha => ?_, ?_, ?_, fun i => ?_, fun i => ?_⟩⟩
  · rw [haction] at ha
    have ha := hown a (List.mem_of_getElem? ha)
    cases a with
    | producer a => trivial
    | consumer a =>
      have ha : a.ofSession = true := ha
      cases a <;> first | exact ha | cases ha
    | _ => cases ha
  · exact .of_rest hend (StreamState.not_enabled_of_closed hclosed)
  · exact .of_rest hend (StreamState.not_enabled_of_done hdone)
  · refine ⟨max i as.length, Nat.le_max_left _ _, fun k a hk ha => ?_⟩
    rw [haction, List.getElem?_eq_none (by omega)] at ha
    cases ha
  · refine ⟨max i as.length, Nat.le_max_left _ _, ?_⟩
    rw [hend _ (Nat.le_max_right _ _), hdone]
    rfl

/-- The run of one packet, from the time at which the consumer has attached. -/
theorem stream_completes_one_packet : ∃ e : Execution (streamMachine .onePacket),
    ∃ i, (e.state i).session.phase = .done true ∧ (e.state i).session.ring.committed.length = 1 := by
  have hattach : ((streamMachine .onePacket).run (.fresh .onePacket) (onePacketConsumed.take 3)).map
      (fun s => (s.session.phase, s.session.alive, s.session.stop, s.session.paused, s.app.stop, s.app.paused)) =
        some (.loop, true, false, false, false, false) := by
    decide +kernel
  obtain ⟨s, hs, hstart⟩ := Option.map_eq_some_iff.1 hattach
  have hrun : ((streamMachine .onePacket).run (.fresh .onePacket)
      (onePacketConsumed.take 3 ++ (onePacketProduced ++ onePacketConsumed.drop 3))).map
        (fun s => (s.session.phase, s.app.phase)) = some (.done true, .closed) := by
    decide +kernel
  rw [Machine.run_append hs] at hrun
  obtain ⟨t, ht, hend⟩ := Option.map_eq_some_iff.1 hrun
  simp only [Prod.mk.injEq] at hstart hend
  obtain ⟨hphase, halive, hstop, hpaused, happStop, happPaused⟩ := hstart
  obtain ⟨e, h0, hfair⟩ := StreamSetup.fairExecution_of_run ht (by decide) hend.2 hend.1
  have hunderway : (e.state 0).Underway := by
    rw [h0]
    exact ⟨by rw [hphase]; exact nofun, halive, hstop, hpaused, happStop, happPaused⟩
  have hreach : (streamMachine .onePacket).Reachable (e.state 0) := by
    rw [h0]
    exact (Machine.Reachable.init (StreamState.fresh_initial _)).run hs
  obtain ⟨i, -, hdone, hcommitted, -⟩ :=
    stream_completes .onePacket hfair hreach hunderway (by unfold ProducerConfig.Fits; decide) (by decide)
  exact ⟨e, i, hdone, hcommitted⟩

end ProducerConsumer
