import ProducerConsumer.ControlSources
import ProducerConsumer.StreamProgress

/-!
# Stop and pause

The producer and a session of the consumer, each process with its own sources of signals and keys.  What the processes do
is a stream with flags that are set and cleared in some way, so all that holds of streams holds of them.  In addition a
stop that has been requested ends either side within a bounded number of its own steps, at most one packet later, and while
a process is paused at most the packet that it was at before is still committed, or processed.
-/

namespace ProducerConsumer

open Transition

/-! ### The processes -/

structure ControlledStream where
  stream : StreamState
  producer : ControlPlane
  consumer : ControlPlane

inductive ControlledAction
  | stream (a : StreamAction)
  | producer (a : ControlAction)
  | consumer (a : ControlAction)

/-- A change of the flags, which is left to the sources. -/
def StreamAction.ofControl : StreamAction → Bool
  | .setPaused _ | .requestStop | .consumer (.setPaused _) | .consumer .requestStop => true
  | _ => false

/-- `main` constructs the keyboard before it calls `run`, and destroys the sources after `run` has returned. -/
def ControlAction.allowed (starting ended : Bool) : ControlAction → Bool
  | .openKeyboard => starting
  | .closeKeyboard | .closeSignals => ended
  | _ => true

namespace StreamState

def controlProducer (s : StreamState) (control : RunControl) : StreamState :=
  { s with app := { s.app with stop := control.stop, paused := control.isPaused } }

def controlConsumer (s : StreamState) (control : RunControl) : StreamState :=
  { s with session := { s.session with stop := control.stop, paused := control.isPaused } }

end StreamState

namespace ControlledStream

def step (cfg : StreamSetup) (s : ControlledStream) : ControlledAction → Option ControlledStream
  | .stream a => if a.ofControl then none else (s.stream.step cfg a).map fun stream => { s with stream := stream }
  | .producer a =>
    if a.allowed (s.stream.app.phase = .checkSize) (s.stream.app.phase = .closed) then
      (s.producer.step a).map fun plane =>
        { s with stream := s.stream.controlProducer plane.control, producer := plane }
    else none
  | .consumer a =>
    if a.allowed (s.stream.session.phase = .connecting)
        (s.stream.session.phase = .done true ∨ s.stream.session.phase = .done false) then
      (s.consumer.step a).map fun plane =>
        { s with stream := s.stream.controlConsumer plane.control, consumer := plane }
    else none

def Initial (cfg : StreamSetup) (s : ControlledStream) : Prop :=
  s.stream.Initial cfg ∧ s.producer.Initial ∧ s.consumer.Initial ∧
    s.stream = (s.stream.controlProducer ⟨false, 0⟩).controlConsumer ⟨false, 0⟩

end ControlledStream

def controlledMachine (cfg : StreamSetup) : Machine ControlledStream ControlledAction where
  init := ControlledStream.Initial cfg
  step := ControlledStream.step cfg

/-! ### The processes are a stream -/

namespace SessionState

variable {cfg : SessionSetup} {s t : SessionState}

/-- Only the sources change the flags of the session. -/
theorem flags_step {a : SessionAction} (hpaused : ∀ paused, a ≠ .setPaused paused) (hstop : a ≠ .requestStop)
    (hs : s.step cfg a = some t) : t.stop = s.stop ∧ t.paused = s.paused := by
  cases StepSpec.of_step hs with
  | setPaused => exact absurd rfl (hpaused _)
  | requestStop => exact absurd rfl hstop
  | tryPeek _ _ =>
    unfold afterPeek
    split <;> exact ⟨rfl, rfl⟩
  | _ => exact ⟨rfl, rfl⟩

end SessionState

namespace StreamState

variable {cfg : StreamSetup} {s t : StreamState}

theorem flags_step {a : StreamAction} (ha : a.ofControl = false) (hs : s.step cfg a = some t) :
    (t.app.stop = s.app.stop ∧ t.app.paused = s.app.paused) ∧
      t.session.stop = s.session.stop ∧ t.session.paused = s.session.paused := by
  refine ⟨?_, ?_⟩
  · cases StepSpec.of_step hs with
    | setPaused | requestStop => cases ha
    | tryReserve _ _ =>
      unfold ProducerApp.afterReserve
      split <;> exact ⟨rfl, rfl⟩
    | _ => exact ⟨rfl, rfl⟩
  · rcases session_step hs with hsame | ⟨b, hstep, hb⟩
    · rw [hsame]
      exact ⟨rfl, rfl⟩
    · refine SessionState.flags_step ?_ ?_ hstep
      · rintro paused rfl
        rcases hb with hb | rfl
        · cases hb
        · cases ha
      · rintro rfl
        rcases hb with hb | rfl
        · cases hb
        · cases ha

/-- A change of the flags of one side, in which a stop is not taken back, is a run of the stream. -/
theorem controlProducer_run {control : RunControl} (hkeep : s.app.stop = true → control.stop = true) :
    ∃ as, (streamMachine cfg).run s as = some (s.controlProducer control) := by
  cases hstop : control.stop with
  | true =>
    refine ⟨[.setPaused control.isPaused, .requestStop], ?_⟩
    simp [Machine.run, streamMachine, StreamState.step, controlProducer, hstop]
  | false =>
    have happ : s.app.stop = false := by simpa [hstop] using hkeep
    refine ⟨[.setPaused control.isPaused], ?_⟩
    simp [Machine.run, streamMachine, StreamState.step, controlProducer, hstop, ← happ]

theorem controlConsumer_run {control : RunControl} (hkeep : s.session.stop = true → control.stop = true) :
    ∃ as, (streamMachine cfg).run s as = some (s.controlConsumer control) := by
  cases hstop : control.stop with
  | true =>
    refine ⟨[.consumer (.setPaused control.isPaused), .consumer .requestStop], ?_⟩
    simp [Machine.run, streamMachine, StreamState.step, onSession, SessionState.step, SessionAction.ofProducer,
      controlConsumer, hstop]
  | false =>
    have hsession : s.session.stop = false := by simpa [hstop] using hkeep
    refine ⟨[.consumer (.setPaused control.isPaused)], ?_⟩
    simp [Machine.run, streamMachine, StreamState.step, onSession, SessionState.step, SessionAction.ofProducer,
      controlConsumer, hstop, ← hsession]

end StreamState

namespace ControlledStream

variable {cfg : StreamSetup} {s t : ControlledStream}

/-- What a step changes: the stream, by a step that is not a change of the flags, or the flags and the sources of one side. -/
theorem step_cases {a : ControlledAction} (hs : s.step cfg a = some t) :
    (∃ b u, a = .stream b ∧ b.ofControl = false ∧ s.stream.step cfg b = some u ∧ t = { s with stream := u }) ∨
      (∃ b plane, a = .producer b ∧ s.producer.step b = some plane ∧
        t = { s with stream := s.stream.controlProducer plane.control, producer := plane }) ∨
      ∃ b plane, a = .consumer b ∧ s.consumer.step b = some plane ∧
        t = { s with stream := s.stream.controlConsumer plane.control, consumer := plane } := by
  cases a with
  | stream b =>
    simp only [ControlledStream.step, Option.ite_none_left_eq_some, Bool.not_eq_true] at hs
    obtain ⟨u, hu, rfl⟩ := Option.map_eq_some_iff.1 hs.2
    exact .inl ⟨b, u, rfl, hs.1, hu, rfl⟩
  | producer b =>
    obtain ⟨-, hs⟩ := Option.ite_none_right_eq_some.1 hs
    obtain ⟨plane, hplane, rfl⟩ := Option.map_eq_some_iff.1 hs
    exact .inr (.inl ⟨b, plane, rfl, hplane, rfl⟩)
  | consumer b =>
    obtain ⟨-, hs⟩ := Option.ite_none_right_eq_some.1 hs
    obtain ⟨plane, hplane, rfl⟩ := Option.map_eq_some_iff.1 hs
    exact .inr (.inr ⟨b, plane, rfl, hplane, rfl⟩)

/-- The flags of both sides are those of their controls. -/
structure Coupled (s : ControlledStream) : Prop where
  producer : controlMachine.Reachable s.producer
  consumer : controlMachine.Reachable s.consumer
  appFlags : s.stream.app.stop = s.producer.control.stop ∧ s.stream.app.paused = s.producer.control.isPaused
  sessionFlags : s.stream.session.stop = s.consumer.control.stop ∧ s.stream.session.paused = s.consumer.control.isPaused

theorem Coupled.init (h : s.Initial cfg) : s.Coupled := by
  obtain ⟨-, hproducer, hconsumer, hstream⟩ := h
  refine ⟨Machine.Reachable.init hproducer, Machine.Reachable.init hconsumer, ?_, ?_⟩
  · rw [hstream, hproducer.1]
    exact ⟨rfl, rfl⟩
  · rw [hstream, hconsumer.1]
    exact ⟨rfl, rfl⟩

theorem Coupled.step (h : s.Coupled) {a : ControlledAction} (hs : s.step cfg a = some t) : t.Coupled := by
  rcases step_cases hs with ⟨b, u, -, hb, hu, rfl⟩ | ⟨b, plane, -, hplane, rfl⟩ | ⟨b, plane, -, hplane, rfl⟩
  · obtain ⟨⟨hstop, hpaused⟩, hstop', hpaused'⟩ := StreamState.flags_step hb hu
    exact ⟨h.producer, h.consumer, ⟨hstop.trans h.appFlags.1, hpaused.trans h.appFlags.2⟩,
      hstop'.trans h.sessionFlags.1, hpaused'.trans h.sessionFlags.2⟩
  · exact ⟨h.producer.step hplane, h.consumer, ⟨rfl, rfl⟩, h.sessionFlags⟩
  · exact ⟨h.producer, h.consumer.step hplane, h.appFlags, ⟨rfl, rfl⟩⟩

theorem Coupled.of_reachable (h : (controlledMachine cfg).Reachable s) : s.Coupled := by
  refine Machine.Reachable.invariant (I := ControlledStream.Coupled) (fun _ hs => Coupled.init hs) ?_ h
  intro s a t hi hs
  exact hi.step hs

/-- Every step is one of the stream, or a change of the flags of one side. -/
theorem simulation (cfg : StreamSetup) :
    Machine.Simulation (controlledMachine cfg) (streamMachine cfg) ControlledStream.stream Coupled := by
  refine ⟨fun s hs => hs.1, fun s a t hi hs => ?_⟩
  rcases step_cases hs with ⟨b, u, -, -, hu, rfl⟩ | ⟨b, plane, -, hplane, rfl⟩ | ⟨b, plane, -, hplane, rfl⟩
  · refine ⟨[b], ?_⟩
    simp only [Machine.run, streamMachine, hu, Option.bind_some]
  · refine StreamState.controlProducer_run fun hstop => ControlPlane.stop_step hplane ?_
    rw [← hi.appFlags.1, hstop]
  · refine StreamState.controlConsumer_run fun hstop => ControlPlane.stop_step hplane ?_
    rw [← hi.sessionFlags.1, hstop]

/-- All that holds of streams holds of the processes. -/
theorem stream_reachable (h : (controlledMachine cfg).Reachable s) : (streamMachine cfg).Reachable s.stream :=
  (simulation cfg).reachable (fun _ hs => Coupled.of_reachable hs) h

end ControlledStream

/-! ### The producer after a stop -/

namespace ProducerPhase

/-- `run` has read the flags and may commit a packet before it reads them again. -/
def inPacket : ProducerPhase → Bool
  | reserve _ | wait | expire | stamp | build _ => true
  | _ => false

/-- The same for the stop alone, which is read before the pause. -/
def mayCommit : ProducerPhase → Bool
  | readPause => true
  | phase => phase.inPacket

theorem mayCommit_iff {phase : ProducerPhase} :
    phase.mayCommit = true ↔ phase = .readPause ∨ phase.inPacket = true := by
  cases phase <;> simp [mayCommit, inPacket]

/-- The steps to the end of `run` once a stop is requested; a record takes `stores` stores. -/
def stepsToClose (stores : Nat) : ProducerPhase → Nat
  | closed => 0
  | returned | threw => 1
  | loop | waitForPeer => 2
  | checkSize | pollPeer | wait => 3
  | expire => 4
  | build left => 3 + left.length
  | stamp => 4 + stores
  | reserve _ => 5 + stores
  | readPause => 6 + stores

end ProducerPhase

namespace StreamState

variable {cfg : StreamSetup} {s t : StreamState}

/-- The stores that a record takes: each byte once, and the checksum once more. -/
def recordStores (cfg : StreamSetup) : Nat := cfg.producer.recordSize.toNat + 4

def BuildOk (cfg : StreamSetup) (s : StreamState) : Prop :=
  ∀ stores, s.app.phase = .build stores → stores.length ≤ recordStores cfg

theorem length_doBuild (h : s.Inv cfg) (hheader : 32 ≤ cfg.producer.recordSize.toNat) (hphase : s.app.phase = .stamp)
    {slot : Span} (hslot : s.session.ring.slot = some slot) (nowNs : I64) :
    (s.app.builder.stores slot.size s.app.sequence nowNs).1.length = recordStores cfg := by
  have hok := h.app.phase
  rw [hphase] at hok
  have hsize := hok.2 slot hslot
  rw [s.app.builder.length_stores (by rw [hsize]; exact hheader), hsize]
  rfl

theorem BuildOk.step (h : s.BuildOk cfg) (hi : s.Inv cfg) (hheader : 32 ≤ cfg.producer.recordSize.toNat)
    {a : StreamAction} (hs : s.step cfg a = some t) : t.BuildOk cfg := by
  intro stores hphase
  cases StepSpec.of_step hs with
  | build hp hslot =>
    rw [← length_doBuild hi hheader hp hslot]
    cases hphase
    exact Nat.le_refl _
  | writeSlot hp _ =>
    have hle := h _ hp
    cases hphase
    rw [List.length_cons] at hle
    omega
  | setPaused | requestStop | consumer _ _ => exact h stores hphase
  | tryReserve _ _ =>
    unfold ProducerApp.afterReserve at hphase
    split at hphase
    · cases hphase
    · simp only [ProducerApp.goto] at hphase
      split at hphase
      · cases hphase
      · split at hphase <;> cases hphase
  | loop _ =>
    rcases s.app.nextRound_cases cfg.producer with hround | hround <;>
      simp [StreamState.goto, ProducerApp.goto, hround] at hphase
  | checkSize _ =>
    simp only [StreamState.goto, ProducerApp.goto, ProducerApp.checkSize] at hphase
    split at hphase
    · cases hphase
    · split at hphase <;> cases hphase
  | waitForPeer _ | pollPeer _ | wait _ | checkDeadline _ =>
    simp only [StreamState.goto, ProducerApp.goto] at hphase
    split at hphase <;> cases hphase
  | readPause _ =>
    simp only [ProducerApp.doReadPause] at hphase
    split at hphase <;> cases hphase
  | commit _ _ | close _ _ => cases hphase

theorem BuildOk.of_reachable (hfits : cfg.producer.Fits cfg.session.cap) (h : (streamMachine cfg).Reachable s) :
    s.BuildOk cfg := by
  have hboth : s.Inv cfg ∧ s.BuildOk cfg := by
    refine Machine.Reachable.invariant (I := fun s => s.Inv cfg ∧ s.BuildOk cfg) ?_ ?_ h
    · rintro s hs
      refine ⟨Inv.init hs, fun stores hphase => ?_⟩
      rw [hs.2.1] at hphase
      cases hphase
    · rintro s a t ⟨hi, hbuild⟩ hs
      exact ⟨hi.step hfits.header hs, hbuild.step hi hfits.header hs⟩
  exact hboth.2

theorem BuildOk.stepsToClose_le (h : s.BuildOk cfg) :
    s.app.phase.stepsToClose (recordStores cfg) ≤ cfg.producer.recordSize.toNat + 10 := by
  have hstores : recordStores cfg = cfg.producer.recordSize.toNat + 4 := rfl
  cases hphase : s.app.phase with
  | build stores =>
    have hlength := h stores hphase
    simp only [ProducerPhase.stepsToClose]
    omega
  | _ =>
    simp only [ProducerPhase.stepsToClose]
    omega

/-- After a stop request a step of `run` comes closer to its end. -/
theorem stepsToClose_lower (h : s.Inv cfg) (hheader : 32 ≤ cfg.producer.recordSize.toNat)
    (hstop : s.app.stop = true) {a : StreamAction} (hs : s.step cfg a = some t) (hown : a.ofProducer = true) :
    t.app.phase.stepsToClose (recordStores cfg) < s.app.phase.stepsToClose (recordStores cfg) := by
  cases StepSpec.of_step hs with
  | checkSize hphase =>
    rw [hphase]
    simp only [StreamState.goto, ProducerApp.goto, ProducerApp.checkSize]
    split
    · simp [ProducerPhase.stepsToClose]
    · split <;> simp [ProducerPhase.stepsToClose]
  | waitForPeer hphase | wait hphase =>
    rw [hphase]
    simp [StreamState.goto, ProducerApp.goto, hstop, ProducerPhase.stepsToClose]
  | pollPeer hphase | checkDeadline hphase =>
    rw [hphase]
    simp only [StreamState.goto, ProducerApp.goto]
    split <;> simp [ProducerPhase.stepsToClose]
  | loop hphase =>
    rw [hphase]
    simp [StreamState.goto, ProducerApp.goto, ProducerApp.nextRound, hstop, ProducerPhase.stepsToClose]
  | readPause hphase =>
    rw [hphase]
    simp only [ProducerApp.doReadPause]
    split <;> simp only [ProducerPhase.stepsToClose] <;> omega
  | tryReserve hphase _ =>
    rw [hphase]
    unfold ProducerApp.afterReserve
    split
    · simp [ProducerApp.goto, ProducerPhase.stepsToClose]
    · simp only [ProducerApp.goto]
      split
      · simp only [ProducerPhase.stepsToClose]
        omega
      · split <;> simp only [ProducerPhase.stepsToClose] <;> omega
  | build hphase hslot =>
    have hlength := length_doBuild h hheader hphase hslot
    rw [hphase]
    simp only [ProducerApp.doBuild, ProducerPhase.stepsToClose, hlength]
    omega
  | writeSlot hphase _ | commit hphase _ =>
    rw [hphase]
    simp [ProducerApp.goto, ProducerApp.afterCommit, ProducerPhase.stepsToClose]
  | close hphase _ => rcases hphase with hp | hp <;> simp [hp, ProducerApp.goto, ProducerPhase.stepsToClose]
  | _ => cases hown

/-- The other steps leave `run` where it is. -/
theorem phase_others {a : StreamAction} (hs : s.step cfg a = some t) (hown : a.ofProducer = false) :
    t.app.phase = s.app.phase := by
  cases StepSpec.of_step hs with
  | setPaused | requestStop | consumer _ _ => rfl
  | _ => cases hown

/-- A commit ends a packet, and nothing else commits one. -/
theorem committed_step {a : StreamAction} (hs : s.step cfg a = some t) :
    t.committedCount = s.committedCount ∨
      s.app.phase = .build [] ∧ t.app.phase = .loop ∧ t.committedCount ≤ s.committedCount + 1 := by
  by_cases hcommit : s.app.phase = .build [] ∧ a = .producer .advance
  · obtain ⟨hphase, rfl⟩ := hcommit
    obtain ⟨ring, hop, rfl⟩ := step_of_built (StepSpec.of_step hs) hphase
    refine .inr ⟨hphase, rfl, ?_⟩
    have hring := hop.ringStep
    cases SharedRing.StepSpec.of_step hring with
    | commit =>
      simp only [committedCount, SharedRing.doCommit, List.length_append]
      cases s.session.ring.slot <;> simp
  · exact .inl (committedCount_same hs fun hphase ha => hcommit ⟨hphase, ha⟩)

/-- If no step but a commit gets the packet that may be committed, the commits are bounded by it. -/
theorem committed_le {may : ProducerPhase → Bool} (hbuild : may (.build []) = true) (hloop : may .loop = false)
    {a : StreamAction} (hs : s.step cfg a = some t) (hmay : may t.app.phase = true → may s.app.phase = true) :
    t.committedCount + (may t.app.phase).toNat ≤ s.committedCount + (may s.app.phase).toNat := by
  rcases committed_step hs with hsame | ⟨hphase, hphase', hle⟩
  · have hless : (may t.app.phase).toNat ≤ (may s.app.phase).toNat := Bool.toNat_le_toNat hmay
    omega
  · rw [hphase, hphase', hbuild, hloop]
    exact hle

/-- A packet is begun where `run` has read that it is not paused. -/
theorem inPacket_origin {a : StreamAction} (hs : s.step cfg a = some t) (hin : t.app.phase.inPacket = true) :
    s.app.phase.inPacket = true ∨ s.app.phase = .readPause ∧ s.app.paused = false := by
  cases StepSpec.of_step hs with
  | checkSize hphase =>
    simp only [StreamState.goto, ProducerApp.goto, ProducerApp.checkSize] at hin
    split at hin
    · cases hin
    · split at hin <;> cases hin
  | waitForPeer hphase | pollPeer hphase =>
    simp only [StreamState.goto, ProducerApp.goto] at hin
    split at hin <;> cases hin
  | loop hphase =>
    rcases s.app.nextRound_cases cfg.producer with hround | hround <;>
      simp [StreamState.goto, ProducerApp.goto, hround, ProducerPhase.inPacket] at hin
  | readPause hphase =>
    refine .inr ⟨hphase, ?_⟩
    simp only [ProducerApp.doReadPause] at hin
    split at hin
    · cases hin
    · exact (Bool.not_eq_true _).mp ‹_›
  | commit _ _ | close _ _ => cases hin
  | tryReserve hphase _ | wait hphase | checkDeadline hphase | build hphase _ | writeSlot hphase _ =>
    rw [hphase]
    exact .inl rfl
  | setPaused | requestStop | consumer _ _ => exact .inl hin

/-- `run` comes to its load of the pause where it has read that it is not stopped. -/
theorem readPause_origin {a : StreamAction} (hs : s.step cfg a = some t) (hphase : t.app.phase = .readPause) :
    s.app.phase = .readPause ∨ s.app.phase = .loop ∧ s.app.stop = false := by
  cases StepSpec.of_step hs with
  | readPause hp => exact .inl hp
  | setPaused | requestStop | consumer _ _ => exact .inl hphase
  | loop hp =>
    refine .inr ⟨hp, ?_⟩
    simp only [StreamState.goto, ProducerApp.goto, ProducerApp.nextRound] at hphase
    split at hphase
    · cases hphase
    · exact (Bool.not_eq_true _).mp ‹_›
  | checkSize hp =>
    simp only [StreamState.goto, ProducerApp.goto, ProducerApp.checkSize] at hphase
    split at hphase
    · cases hphase
    · split at hphase <;> cases hphase
  | waitForPeer hp | pollPeer hp | wait hp | checkDeadline hp =>
    simp only [StreamState.goto, ProducerApp.goto] at hphase
    split at hphase <;> cases hphase
  | tryReserve hp _ =>
    unfold ProducerApp.afterReserve at hphase
    split at hphase
    · cases hphase
    · simp only [ProducerApp.goto] at hphase
      split at hphase
      · cases hphase
      · split at hphase <;> cases hphase
  | build _ _ | writeSlot _ _ | commit _ _ | close _ _ => cases hphase

/-- After a stop request `run` begins no packet, unless it is past its load of the stop. -/
theorem mayCommit_step (hstop : s.app.stop = true) {a : StreamAction} (hs : s.step cfg a = some t)
    (hmay : t.app.phase.mayCommit = true) : s.app.phase.mayCommit = true := by
  rw [ProducerPhase.mayCommit_iff] at hmay ⊢
  rcases hmay with hphase | hin
  · rcases readPause_origin hs hphase with hbefore | ⟨-, hnot⟩
    · exact .inl hbefore
    · rw [hstop] at hnot
      cases hnot
  · exact (inPacket_origin hs hin).elim .inr fun hbefore => .inl hbefore.1

end StreamState

/-! ### The session after a stop -/

namespace SessionPhase

/-- The steps to the end of a session once a stop is requested. -/
def stepsToEnd : SessionPhase → Nat
  | connecting | done _ => 0
  | ending _ => 1
  | loop | wait .last => 2
  | report | expire .last => 3
  | process _ | drop | wait .paused => 4
  | peek .last _ | expire .paused => 5
  | release .last | peek .paused _ => 6
  | checkAlive _ _ | release .paused => 7
  | loadState _ | whilePaused => 8
  | loadPid => 9
  | wait .next => 10
  | expire .next => 11
  | peek .next _ => 12
  | release .next => 13
  | readPause => 14

theorem stepsToEnd_le (phase : SessionPhase) : phase.stepsToEnd ≤ 14 := by
  unfold stepsToEnd
  split <;> omega

/-- A record may be processed or dropped before the session reads its stop. -/
def mayHandle : SessionPhase → Bool
  | connecting | done _ | ending _ | loop | report => false
  | wait call | expire call => call == .next
  | _ => true

end SessionPhase

namespace SessionState

variable {cfg : SessionSetup} {s t : SessionState}

/-- After a stop request a step of the session comes closer to its end. -/
theorem stepsToEnd_lower (hstop : s.stop = true) {a : SessionAction} (ha : a.ofSession = true) (hs : s.step cfg a = some t) :
    t.phase.stepsToEnd < s.phase.stepsToEnd := by
  cases StepSpec.of_step hs with
  | producer | finish | exit | setPaused | requestStop | claim _ _ | loadTail _ _ | start _ _ => cases ha
  | loop hphase | wait hphase =>
    rw [hphase]
    simp only [goto, hstop, if_true]
    first | decide | (rename_i call; cases call <;> decide)
  | readPause hphase =>
    rw [hphase]
    simp only [doReadPause]
    split <;> simp [SessionPhase.stepsToEnd]
  | waitPaused hphase _ _ | discardPaused hphase _ | drop hphase _ | loadPid hphase | ending hphase _ | noReport hphase
  | report hphase _ | sawFinished hphase _ _ | sawReady hphase | peerGone hphase _ _ =>
    rw [hphase]
    simp [goto, doDrop, SessionPhase.stepsToEnd]
  | release hphase hring =>
    rename_i call ring
    rw [hphase]
    cases call <;> simp [goto, SessionPhase.stepsToEnd]
  | tryPeek hphase hring =>
    rename_i load call retry ring
    rw [hphase]
    unfold afterPeek
    split
    · cases call <;> simp [SessionPhase.stepsToEnd]
    · simp only [goto]
      split
      · cases call <;> simp [SessionPhase.stepsToEnd]
      · split <;> cases call <;> simp [noRecord, SessionPhase.stepsToEnd]
  | checkDeadline hphase =>
    rename_i expired call
    rw [hphase]
    simp only [goto]
    split <;> cases call <;> simp [noRecord, SessionPhase.stepsToEnd]
  | process hphase _ =>
    rw [hphase]
    simp only [doProcess]
    split <;> simp [SessionPhase.stepsToEnd]
  | peerAlive hphase _ =>
    rw [hphase]
    simp only [goto]
    split <;> simp [SessionPhase.stepsToEnd]

/-- The other steps leave a session that has begun where it is. -/
theorem phase_others (hstarted : s.phase ≠ .connecting) {a : SessionAction} (ha : a.ofSession = false)
    (hs : s.step cfg a = some t) : t.phase = s.phase := by
  cases StepSpec.of_step hs with
  | producer | finish | exit | setPaused | requestStop => rfl
  | claim hphase _ | loadTail hphase _ | start hphase _ => exact absurd hphase hstarted
  | _ => cases ha

/-- The records that the session has processed or dropped. -/
def handledCount (s : SessionState) : Nat := s.processed.length + s.dropped.length

/-- Only `process` and `drop` handle a record, each of them one, and then the session goes on to a report or a new round. -/
theorem handled_step {a : SessionAction} (hs : s.step cfg a = some t) :
    t.processed = s.processed ∧ t.dropped = s.dropped ∨
      (t.phase = .loop ∨ t.phase = .report) ∧
        (s.phase = .drop ∧ t.processed = s.processed ∧ t.dropped.length = s.dropped.length + 1 ∨
          (∃ call, s.phase = .process call) ∧ t.processed.length = s.processed.length + 1 ∧ t.dropped = s.dropped) := by
  cases StepSpec.of_step hs with
  | drop hphase _ => exact .inr ⟨.inr rfl, .inl ⟨hphase, rfl, List.length_append⟩⟩
  | process hphase _ =>
    refine .inr ⟨?_, .inr ⟨⟨_, hphase⟩, List.length_append, rfl⟩⟩
    simp only [doProcess]
    split
    · exact .inl rfl
    · exact .inr rfl
  | tryPeek _ _ =>
    unfold afterPeek
    split <;> exact .inl ⟨rfl, rfl⟩
  | _ => exact .inl ⟨rfl, rfl⟩

/-- After a stop request the session takes no further record, unless it is past its load of the stop. -/
theorem mayHandle_step (hstop : s.stop = true) {a : SessionAction} (hs : s.step cfg a = some t)
    (hmay : t.phase.mayHandle = true) : s.phase.mayHandle = true := by
  cases StepSpec.of_step hs with
  | producer | finish | exit | setPaused | requestStop | claim _ _ | loadTail _ _ => exact hmay
  | start _ _ | drop _ _ | ending _ _ | noReport _ | report _ _ | waitPaused _ _ _ => cases hmay
  | loop hphase =>
    simp only [goto, hstop, if_true] at hmay
    cases hmay
  | wait hphase =>
    rename_i call
    rw [hphase]
    simp only [goto, hstop, if_true] at hmay
    cases call <;> first | rfl | cases hmay
  | checkDeadline hphase =>
    rename_i expired call
    rw [hphase]
    simp only [goto] at hmay
    split at hmay <;> cases call <;> first | rfl | cases hmay
  | process hphase _ | readPause hphase | discardPaused hphase _ | release hphase _ | loadPid hphase | tryPeek hphase _
  | sawFinished hphase _ _ | sawReady hphase | peerAlive hphase _ | peerGone hphase _ _ =>
    rw [hphase]
    rfl

theorem handledCount_le (hstop : s.stop = true) {a : SessionAction} (hs : s.step cfg a = some t) :
    t.handledCount + t.phase.mayHandle.toNat ≤ s.handledCount + s.phase.mayHandle.toNat := by
  rcases handled_step hs with ⟨hprocessed, hdropped⟩ | ⟨hphase, hhandled⟩
  · have hless : t.phase.mayHandle.toNat ≤ s.phase.mayHandle.toNat := Bool.toNat_le_toNat (mayHandle_step hstop hs)
    rw [handledCount, handledCount, hprocessed, hdropped]
    omega
  · have hafter : t.phase.mayHandle = false := by
      rcases hphase with hp | hp <;> rw [hp] <;> rfl
    rcases hhandled with ⟨hp, hprocessed, hdropped⟩ | ⟨⟨call, hp⟩, hprocessed, hdropped⟩
    · rw [hafter, hp, handledCount, handledCount, hprocessed, hdropped]
      exact Nat.le_refl _
    · rw [hafter, hp, handledCount, handledCount, hprocessed, hdropped]
      simp only [SessionPhase.mayHandle, Bool.toNat_false, Bool.toNat_true]
      omega

end SessionState

/-! ### Runs after a stop, and while paused -/

def ControlledAction.ofStream (own : StreamAction → Bool) : ControlledAction → Bool
  | .stream a => own a
  | _ => false

/-- The steps of the producer's `run`. -/
def ControlledAction.ofProducer : ControlledAction → Bool := ofStream StreamAction.ofProducer

/-- The steps of the session. -/
def ControlledAction.ofSession : ControlledAction → Bool := ofStream StreamAction.ofSession

/-- A signal or a key that asks for a stop has been handled. -/
def ControlPlane.Stopped (s : ControlPlane) : Prop := ∃ e ∈ s.history, e.op = some .requestStop

namespace ControlledStream

variable {cfg : StreamSetup} {s t : ControlledStream}

/-- A measure of the stream that the flags do not enter bounds the runs of the processes as it bounds those of the stream. -/
theorem bounds_stream {G : ControlledStream → ControlledAction → Bool} {own : StreamAction → Bool}
    {I : ControlledStream → Prop} {μ : StreamState → Nat}
    (hkeep : ∀ {s t a}, I s → G s a = true → s.step cfg a = some t → I t)
    (hlower : ∀ {s : ControlledStream} {a u}, I s → G s (.stream a) = true → own a = true → s.stream.step cfg a = some u →
      μ u < μ s.stream)
    (hothers : ∀ {s : ControlledStream} {a u}, I s → G s (.stream a) = true → own a = false →
      s.stream.step cfg a = some u → μ u ≤ μ s.stream)
    (hflags : ∀ (s : StreamState) (control : RunControl), μ (s.controlProducer control) = μ s ∧
      μ (s.controlConsumer control) = μ s) :
    (controlledMachine cfg).Bounds G (ControlledAction.ofStream own) I fun s => μ s.stream := by
  refine ⟨hkeep, fun {s t a} hi hg hown hs => ?_, fun {s t a} hi hg hown hs => ?_⟩
  · rcases step_cases hs with ⟨b, u, rfl, -, hu, rfl⟩ | ⟨b, plane, rfl, -, rfl⟩ | ⟨b, plane, rfl, -, rfl⟩
    · exact hlower hi hg hown hu
    · cases hown
    · cases hown
  · rcases step_cases hs with ⟨b, u, rfl, -, hu, rfl⟩ | ⟨b, plane, rfl, -, rfl⟩ | ⟨b, plane, rfl, -, rfl⟩
    · exact hothers hi hg hown hu
    · exact Nat.le_of_eq (hflags _ _).1
    · exact Nat.le_of_eq (hflags _ _).2

/-- A stop has been requested of the producer. -/
structure ProducerStops (cfg : StreamSetup) (s : ControlledStream) : Prop where
  reachable : (controlledMachine cfg).Reachable s
  stop : s.producer.control.stop = true

theorem ProducerStops.flag (h : s.ProducerStops cfg) : s.stream.app.stop = true :=
  (Coupled.of_reachable h.reachable).appFlags.1.trans h.stop

theorem ProducerStops.step (h : s.ProducerStops cfg) {a : ControlledAction} (hs : s.step cfg a = some t) :
    t.ProducerStops cfg := by
  refine ⟨h.reachable.step hs, ?_⟩
  rcases step_cases hs with ⟨b, u, -, -, -, rfl⟩ | ⟨b, plane, -, hplane, rfl⟩ | ⟨b, plane, -, -, rfl⟩
  · exact h.stop
  · exact ControlPlane.stop_step hplane h.stop
  · exact h.stop

/-- A stop has been requested of a session that has begun. -/
structure SessionStops (cfg : StreamSetup) (s : ControlledStream) : Prop where
  reachable : (controlledMachine cfg).Reachable s
  stop : s.consumer.control.stop = true
  started : s.stream.session.phase ≠ .connecting

theorem SessionStops.flag (h : s.SessionStops cfg) : s.stream.session.stop = true :=
  (Coupled.of_reachable h.reachable).sessionFlags.1.trans h.stop

theorem SessionStops.step (h : s.SessionStops cfg) {a : ControlledAction} (hs : s.step cfg a = some t) :
    t.SessionStops cfg := by
  have hreachable := h.reachable.step hs
  rcases step_cases hs with ⟨b, u, -, -, hu, rfl⟩ | ⟨b, plane, -, -, rfl⟩ | ⟨b, plane, -, hplane, rfl⟩
  · refine ⟨hreachable, h.stop, ?_⟩
    rcases StreamState.session_step hu with hsame | ⟨c, hc, -⟩
    · rw [hsame]
      exact h.started
    · exact SessionState.started_step h.started hc
  · exact ⟨hreachable, h.stop, h.started⟩
  · exact ⟨hreachable, ControlPlane.stop_step hplane h.stop, h.started⟩

theorem bounds_stepsToClose (hfits : cfg.producer.Fits cfg.session.cap) :
    (controlledMachine cfg).Bounds (fun _ _ => true) ControlledAction.ofProducer (ProducerStops cfg)
      fun s => s.stream.app.phase.stepsToClose (StreamState.recordStores cfg) := by
  refine bounds_stream (μ := fun s => s.app.phase.stepsToClose (StreamState.recordStores cfg))
    (fun {s t a} h _ hs => h.step hs) (fun {s a u} h _ hown hu => ?_) (fun {s a u} _ _ hown hu => ?_)
    fun _ _ => ⟨rfl, rfl⟩
  · have hinv := (StreamState.Course.of_reachable hfits (stream_reachable h.reachable)).1
    exact StreamState.stepsToClose_lower hinv hfits.header h.flag hu hown
  · rw [StreamState.phase_others hu hown]

theorem bounds_committed : (controlledMachine cfg).Bounds (fun _ _ => true) (ControlledAction.ofStream fun _ => false)
    (ProducerStops cfg) fun s => s.stream.committedCount + s.stream.app.phase.mayCommit.toNat :=
  bounds_stream (μ := fun s => s.committedCount + s.app.phase.mayCommit.toNat) (fun {_ _ _} h _ hs => h.step hs) nofun
    (fun {_ _ _} h _ _ hu => StreamState.committed_le rfl rfl hu (StreamState.mayCommit_step h.flag hu))
    fun _ _ => ⟨rfl, rfl⟩

theorem bounds_stepsToEnd : (controlledMachine cfg).Bounds (fun _ _ => true) ControlledAction.ofSession (SessionStops cfg)
    fun s => s.stream.session.phase.stepsToEnd := by
  refine bounds_stream (μ := fun s => s.session.phase.stepsToEnd) (fun {s t a} h _ hs => h.step hs)
    (fun {s a u} h _ hown hu => ?_) (fun {s a u} h _ hown hu => ?_) fun _ _ => ⟨rfl, rfl⟩
  · cases StreamState.StepSpec.of_step hu with
    | consumer _ hsession => exact SessionState.stepsToEnd_lower h.flag hown hsession
    | _ => cases hown
  · rcases StreamState.session_step hu with hsame | ⟨b, hb, hproducer⟩
    · rw [hsame]
    · refine Nat.le_of_eq (congrArg _ (SessionState.phase_others h.started ?_ hb))
      rcases hproducer with hproducer | rfl
      · cases b <;> first | rfl | cases hproducer
      · exact hown

theorem bounds_handled : (controlledMachine cfg).Bounds (fun _ _ => true) (ControlledAction.ofStream fun _ => false)
    (SessionStops cfg) fun s => s.stream.session.handledCount + s.stream.session.phase.mayHandle.toNat := by
  refine bounds_stream (μ := fun s => s.session.handledCount + s.session.phase.mayHandle.toNat)
    (fun {s t a} h _ hs => h.step hs) nofun (fun {s a u} h _ _ hu => ?_) fun _ _ => ⟨rfl, rfl⟩
  rcases StreamState.session_step hu with hsame | ⟨b, hb, -⟩
  · rw [hsame]
  · exact SessionState.handledCount_le h.flag hb

/-- Where `run` is not over and its process has not ended, one of its steps is enabled. -/
theorem producer_live (hfits : cfg.producer.Fits cfg.session.cap) (h : (controlledMachine cfg).Reachable s)
    (halive : s.stream.session.alive = true) (hopen : s.stream.app.phase ≠ .closed) :
    ∃ a, a.ofProducer = true ∧ (s.step cfg a).isSome = true := by
  obtain ⟨hinv, hcourse⟩ := StreamState.Course.of_reachable hfits (stream_reachable h)
  obtain ⟨a, u, hown, hu⟩ := hcourse.enabled_producer hinv halive hopen
  have hfree : a.ofControl = false := by
    cases a <;> first | rfl | cases hown
  refine ⟨.stream a, hown, ?_⟩
  simp [ControlledStream.step, hfree, show s.stream.step cfg a = some u from hu]

/-- Where the session has begun and is not done, one of its steps is enabled. -/
theorem session_live (hheader : 32 ≤ cfg.producer.recordSize.toNat) (h : (controlledMachine cfg).Reachable s)
    (hstarted : s.stream.session.phase ≠ .connecting) (hdone : ∀ drained, s.stream.session.phase ≠ .done drained) :
    ∃ a, a.ofSession = true ∧ (s.step cfg a).isSome = true := by
  have hsession := (StreamState.Inv.of_reachable hheader (stream_reachable h)).session
  rcases SessionState.waits_or_unpaused hsession with hwaits | ⟨hruns, hattached⟩
  · exact absurd hwaits.phase hstarted
  · obtain ⟨b, u, hprompt, hu⟩ := hruns.live hattached hdone
    have hown := SessionState.ofSession_of_prompt hprompt
    have hfree : (StreamAction.consumer b).ofControl = false := by
      cases b <;> first | rfl | cases hown
    have hproducer : b.ofProducer = false := by
      cases b <;> first | rfl | cases hown
    refine ⟨.stream (.consumer b), hown, ?_⟩
    simp [ControlledStream.step, hfree, StreamState.step, hproducer, StreamState.onSession, hu]

end ControlledStream

/-- A stop is prompt.  The producer commits at most one packet more, the one that it has begun or begins because it is past
the test of the stop, and returns from `run` and destroys the sink after at most as many of its steps as the record has
bytes and ten more.  The session processes or drops at most one record more, and ends after at most fourteen of its steps.
Neither of them is stuck before, whatever the other side, the ring and the sources do meanwhile. -/
theorem stop_is_prompt (cfg : StreamSetup) (hfits : cfg.producer.Fits cfg.session.cap) {s : ControlledStream}
    (h : (controlledMachine cfg).Reachable s) :
    (s.stream.session.alive = true → s.stream.app.phase ≠ .closed →
      ∃ a, a.ofProducer = true ∧ (s.step cfg a).isSome = true) ∧
    (s.producer.Stopped → ∀ as t, (controlledMachine cfg).run s as = some t →
      as.countP ControlledAction.ofProducer ≤ cfg.producer.recordSize.toNat + 10 ∧
        t.stream.committedCount ≤ s.stream.committedCount + s.stream.app.phase.mayCommit.toNat) ∧
    (s.stream.session.phase ≠ .connecting → (∀ drained, s.stream.session.phase ≠ .done drained) →
      ∃ a, a.ofSession = true ∧ (s.step cfg a).isSome = true) ∧
    (s.stream.session.phase ≠ .connecting → s.consumer.Stopped → ∀ as t, (controlledMachine cfg).run s as = some t →
      as.countP ControlledAction.ofSession ≤ 14 ∧
        t.stream.session.handledCount ≤ s.stream.session.handledCount + s.stream.session.phase.mayHandle.toNat) := by
  have hcoupled := ControlledStream.Coupled.of_reachable h
  refine ⟨ControlledStream.producer_live hfits h, fun hstopped as t hr => ?_,
    ControlledStream.session_live hfits.header h, fun hstarted hstopped as t hr => ?_⟩
  · have hstop := (ControlPlane.Inv.of_reachable hcoupled.producer).replayed.stop.2 hstopped
    rw [← Machine.runUnder_true] at hr
    obtain ⟨-, hsteps⟩ := (ControlledStream.bounds_stepsToClose hfits).run ⟨h, hstop⟩ hr
    obtain ⟨-, hcommits⟩ := ControlledStream.bounds_committed.run ⟨h, hstop⟩ hr
    have hle := (StreamState.BuildOk.of_reachable hfits (ControlledStream.stream_reachable h)).stepsToClose_le
    exact ⟨by omega, by omega⟩
  · have hstop := (ControlPlane.Inv.of_reachable hcoupled.consumer).replayed.stop.2 hstopped
    rw [← Machine.runUnder_true] at hr
    obtain ⟨-, hsteps⟩ := ControlledStream.bounds_stepsToEnd.run ⟨h, hstop, hstarted⟩ hr
    obtain ⟨-, hhandled⟩ := ControlledStream.bounds_handled.run ⟨h, hstop, hstarted⟩ hr
    have hle := s.stream.session.phase.stepsToEnd_le
    exact ⟨by omega, by omega⟩

def StreamSetup.unlimited : StreamSetup := ⟨StreamSetup.twoPackets.session, ⟨1, 0, 0, false⟩⟩

def ControlledStream.fresh (cfg : StreamSetup) : ControlledStream := ⟨.fresh cfg, .fresh, .fresh⟩

theorem ControlledStream.fresh_initial (cfg : StreamSetup) : (fresh cfg).Initial cfg :=
  ⟨StreamState.fresh_initial _, ControlPlane.fresh_initial, ControlPlane.fresh_initial, rfl⟩

/-- The session has the first packet while the second one is built. -/
def secondPacketBegun : List StreamAction :=
  [.producer .advance] ++ packetProduced ++ packetProduced.take 14 ++
    [SessionAction.connect .claim, .connect .loadTail, .connect (.loadHead 0), .advance, .advance, .advance,
      .tryPeek 1].map StreamAction.consumer

def signalHandled (sig : Signal) : List ControlAction :=
  [.raise sig, .sigwait false sig, .checkStopping, .handleSignal]

def keyHandled (key : U8) : List ControlAction :=
  [.type key, .loop, .checkControl, .poll .ready, .read .key, .handleKey]

/-- Then a signal comes for the producer and a key for the consumer. -/
def controlledMidway (sig : Signal) (key : U8) : List ControlledAction :=
  [.consumer .openKeyboard] ++ secondPacketBegun.map .stream ++ (signalHandled sig).map .producer ++
    (keyHandled key).map .consumer

/-- Both sides to their ends. -/
def stopObeyed : List ControlledAction :=
  (packetProduced.drop 14 ++ [StreamAction.producer .advance, .producer .advance] ++
    [SessionAction.process 9, .report none, .advance, .advance].map StreamAction.consumer).map .stream

theorem stop_is_prompt_midway : ∃ s t,
    (controlledMachine .unlimited).run (.fresh .unlimited) (controlledMidway .SIGTERM 113) = some s ∧
      (controlledMachine .unlimited).run s stopObeyed = some t ∧
      t.stream.app.phase = .closed ∧ t.stream.committedCount ≤ 2 ∧
      t.stream.session.phase = .done false ∧ t.stream.session.handledCount ≤ 1 := by
  have hrun : ((controlledMachine .unlimited).run (.fresh .unlimited) (controlledMidway .SIGTERM 113)).map (fun s =>
      (s.producer.history, s.stream.committedCount, s.consumer.history, s.stream.session.phase,
        s.stream.session.handledCount)) =
      some ([.raised .SIGTERM, .signal .SIGTERM], 1, [.typed 113, .key 113], .process .next, 0) := by
    decide +kernel
  have hend : (((controlledMachine .unlimited).run (.fresh .unlimited) (controlledMidway .SIGTERM 113)).bind fun s =>
      (controlledMachine .unlimited).run s stopObeyed).map (fun t => (t.stream.app.phase, t.stream.session.phase)) =
      some (.closed, .done false) := by
    decide +kernel
  obtain ⟨s, hs, hstate⟩ := Option.map_eq_some_iff.1 hrun
  simp only [Prod.mk.injEq] at hstate
  obtain ⟨hproducer, hcommitted, hconsumer, hphase, hhandled⟩ := hstate
  rw [hs, Option.bind_some] at hend
  obtain ⟨t, ht, hend⟩ := Option.map_eq_some_iff.1 hend
  obtain ⟨hclosed, hdone⟩ := Prod.mk.inj hend
  obtain ⟨-, hstop, -, hstop'⟩ := stop_is_prompt .unlimited (by unfold ProducerConfig.Fits; decide)
    ((Machine.Reachable.init (ControlledStream.fresh_initial _)).run hs)
  have hcommits := (hstop ⟨.signal .SIGTERM, by rw [hproducer]; decide, rfl⟩ _ t ht).2
  have hhandles := (hstop' (by rw [hphase]; nofun) ⟨.key 113, by rw [hconsumer]; decide, rfl⟩ _ t ht).2
  have hone := Bool.toNat_le s.stream.app.phase.mayCommit
  have hone' := Bool.toNat_le s.stream.session.phase.mayHandle
  exact ⟨s, t, hs, ht, hclosed, by omega, hdone, by omega⟩

end ProducerConsumer
