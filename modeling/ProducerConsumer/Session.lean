import ProducerConsumer.RingFifo
import ProducerConsumer.Stats

/-!
# A consumer session

`ConsumerApp::run_session` on a shared ring, step by step, against an arbitrary producer that reserves, writes and
commits and then stores `ProducerFinished` or just ends.  Every access to shared state is a step of its own: the control
flags, the two counters, the loads of `peer_status` and the liveness check, and every attempt of `receive` in between.
A load of `state` may be late; one that returns `ProducerFinished`, like a liveness check that fails, comes after all
stores of the producer, so that later loads of `head` return the last value.
-/

namespace ProducerConsumer

open Transition

/-! ### The model -/

/-- `BlockingPausePolicy`, `DiscardingPausePolicy`. -/
inductive PausePolicy
  | Blocking
  | Discarding
deriving DecidableEq, Repr

def PausePolicy.onResume : PausePolicy → PacketValidator → PacketValidator
  | Blocking, validator => validator
  | Discarding, validator => validator.resync

structure SessionSetup where
  cap : Capacity
  policy : PausePolicy
  receiveTimeout : Nat
  maxDefectLogs : Nat
  producerPid : Pid
  producerPid_pos : 0 < producerPid

/-- `kPausedTick`, in milliseconds. -/
def kPausedTick : Nat := 10

/-- The calls of `receive`: while paused, for the next record, and once more after the producer has gone. -/
inductive ReceiveCall
  | paused
  | next
  | last
deriving DecidableEq, Repr

def ReceiveCall.timeout (cfg : SessionSetup) : ReceiveCall → Nat
  | paused => kPausedTick
  | next => cfg.receiveTimeout
  | last => 0

/-- Where the session is.  `connecting` is the end of `try_attach`; `release` to `expire` are inside a call of
`receive`; `loadPid` to `checkAlive` inside `peer_status`. -/
inductive SessionPhase
  | connecting
  | loop
  | readPause
  | whilePaused
  | release (call : ReceiveCall)
  | peek (call : ReceiveCall) (retry : Bool)
  | wait (call : ReceiveCall)
  | expire (call : ReceiveCall)
  | drop
  | process (call : ReceiveCall)
  | loadPid
  | loadState (pid : Pid)
  | checkAlive (pid : Pid) (finished : Bool)
  | report
  | ending (drained : Bool)
  | done (drained : Bool)
deriving DecidableEq, Repr

/-- The shared ring, the status of the producer process, the control flags, and the session: its locals, the records that
`receive` has returned to it, and those it has processed and dropped. -/
structure SessionState where
  ring : SharedRing
  finished : Bool
  alive : Bool
  stop : Bool
  paused : Bool
  phase : SessionPhase
  wasPaused : Bool
  validator : PacketValidator
  stats : ConsumerStats
  defectLogs : Nat
  returned : List (List U8)
  processed : List (List U8)
  dropped : List (List U8)

/-- A step of the producer, of whoever controls the consumer, or of the session.  Those of the session carry what is open:
the store that a load of `head` reads, whether the deadline has passed, the clock, whether a load of `state` is late,
what the liveness check says, and whether a report is due. -/
inductive SessionAction
  | producer (a : RingAction)
  | finish
  | exit
  | setPaused (paused : Bool)
  | requestStop
  | connect (a : RingAction)
  | advance
  | tryPeek (load : Nat)
  | checkDeadline (expired : Bool)
  | process (nowNs : Int)
  | loadState (sawFinished : Bool)
  | checkAlive (alive : Bool)
  | report (due : Option Nat)
deriving DecidableEq

/-- The steps of the producer, its end by `exit` apart. -/
def SessionAction.ofProducer : SessionAction → Bool
  | .producer _ | .finish => true
  | _ => false

namespace SessionState

def goto (s : SessionState) (phase : SessionPhase) : SessionState := { s with phase := phase }

/-- A step of the session that is an operation on the ring. -/
def onRing (cfg : SessionSetup) (s : SessionState) (a : RingAction) (next : SessionState → SessionState) :
    Option SessionState :=
  (s.ring.step cfg.cap a).map fun ring => next { s with ring := ring }

/-- The number of the last value stored to `head`. -/
def lastHead (s : SessionState) : Nat := s.ring.headStores.length - 1

def ringCorrupted (s : SessionState) : Bool :=
  match s.ring.consumer with
  | .attached c => c.corrupted
  | _ => false

/-- `receive` returns nothing. -/
def noRecord : ReceiveCall → SessionPhase
  | .paused => .report
  | .next => .loadPid
  | .last => .ending true

/-- The locals at the start of `run_session`. -/
def doStart (s : SessionState) : SessionState :=
  { s with
    phase := .loop, stats := s.stats.reset, validator := s.validator.resync, defectLogs := 0, wasPaused := false }

def doReadPause (cfg : SessionSetup) (s : SessionState) : SessionState :=
  { s with
    wasPaused := s.paused
    validator := if s.paused ≠ s.wasPaused ∧ s.paused = false then cfg.policy.onResume s.validator else s.validator
    phase := if s.paused then .whilePaused else .release .next }

/-- After an attempt of `receive`: a record goes on to the caller, without one the attempt may be repeated. -/
def afterPeek (cfg : SessionSetup) (call : ReceiveCall) (retry : Bool) (s : SessionState) : SessionState :=
  match s.ring.view with
  | some sp =>
    { s with
      returned := s.returned ++ [s.ring.readSpan sp]
      phase := match call with | .paused => .drop | call => .process call }
  | none => s.goto (if retry then .expire call else if call.timeout cfg = 0 then noRecord call else .wait call)

/-- The size of the record that was returned last. -/
def recordBytes (s : SessionState) (sp : Span) : U64 := BitVec.ofNat 64 (s.ring.readSpan sp).length

def doDrop (s : SessionState) (sp : Span) : SessionState :=
  { s with
    stats := s.stats.recordDropped (s.recordBytes sp)
    dropped := s.dropped ++ [s.ring.readSpan sp]
    phase := .report }

/-- `process`; the last record is not followed by a report. -/
def doProcess (cfg : SessionSetup) (s : SessionState) (call : ReceiveCall) (sp : Span) (nowNs : Int) : SessionState :=
  let (result, validator) := s.validator.validate (s.ring.readSpan sp) nowNs
  { s with
    validator := validator
    stats := s.stats.record result (s.recordBytes sp)
    defectLogs := if !result.clean && s.defectLogs < cfg.maxDefectLogs then s.defectLogs + 1 else s.defectLogs
    processed := s.processed ++ [s.ring.readSpan sp]
    phase := if call = .last then .loop else .report }

/-- The steps of the session that nothing is open in. -/
def advance (cfg : SessionSetup) (s : SessionState) : Option SessionState :=
  match s.phase with
  | .loop => some (s.goto (if s.stop then .ending false else .readPause))
  | .readPause => some (s.doReadPause cfg)
  | .whilePaused =>
    match cfg.policy with
    | .Blocking => s.onRing cfg .release (·.goto .report)
    | .Discarding => some (s.goto (.release .paused))
  | .release call => s.onRing cfg .release (·.goto (.peek call false))
  | .wait call => some (s.goto (if s.stop then noRecord call else .peek call true))
  | .drop => s.ring.view.map s.doDrop
  | .loadPid => some (s.goto (.loadState cfg.producerPid))
  | .ending drained => s.onRing cfg .release (·.goto (.done drained))
  | _ => none

def step (cfg : SessionSetup) (s : SessionState) : SessionAction → Option SessionState
  | .producer a =>
    if s.alive && !s.finished && a.ofProducer then s.onRing cfg a id else none
  | .finish => if s.alive && !s.finished then some { s with finished := true } else none
  | .exit => some { s with alive := false }
  | .setPaused paused => some { s with paused := paused }
  | .requestStop => some { s with stop := true }
  | .connect a =>
    match s.phase, a with
    | .connecting, .claim => s.onRing cfg .claim id
    | .connecting, .loadTail => s.onRing cfg .loadTail id
    | .connecting, .loadHead load => s.onRing cfg (.loadHead load) doStart
    | _, _ => none
  | .advance => s.advance cfg
  | .tryPeek load =>
    match s.phase with
    | .peek call retry => s.onRing cfg (.tryPeek load) (afterPeek cfg call retry)
    | _ => none
  | .checkDeadline expired =>
    match s.phase with
    | .expire call => some (s.goto (if expired then noRecord call else .wait call))
    | _ => none
  | .process nowNs =>
    match s.phase with
    | .process call => s.ring.view.map (s.doProcess cfg call · nowNs)
    | _ => none
  | .loadState sawFinished =>
    match s.phase with
    | .loadState pid =>
      -- a load that is late still returns `Ready`
      if sawFinished then
        if s.finished then s.onRing cfg (.observeHead s.lastHead) (·.goto (.checkAlive pid true)) else none
      else some (s.goto (.checkAlive pid s.ringCorrupted))
    | _ => none
  | .checkAlive alive =>
    match s.phase with
    | .checkAlive pid finished =>
      -- `kill` also finds a process that has ended and is not reaped yet
      if alive then
        if 0 < pid then some (s.goto (if finished then .release .last else .report)) else none
      else if pid ≤ 0 ∨ pid = cfg.producerPid ∧ s.alive = false then
        s.onRing cfg (.observeHead s.lastHead) (·.goto (.release .last))
      else none
    | _ => none
  | .report due =>
    match s.phase, due with
    | .report, none => some (s.goto .loop)
    | .report, some load =>
      s.onRing cfg (.observeHead load) fun s => { s with stats := s.stats.takeInterval.2, phase := .loop }
    | _, _ => none

/-- A ring just initialised by a live producer, and a consumer that is about to attach. -/
def Initial (cfg : SessionSetup) (s : SessionState) : Prop :=
  s.ring.Initial cfg.cap ∧ s.finished = false ∧ s.alive = true ∧ s.phase = .connecting ∧ s.returned = [] ∧
    s.processed = [] ∧ s.dropped = []

/-- The first session of a consumer, on a zeroed ring. -/
def fresh (cfg : SessionSetup) (validator : PacketValidator) : SessionState :=
  ⟨.fresh cfg.cap, false, true, false, false, .connecting, false, validator, {}, 0, [], [], []⟩

theorem fresh_initial (cfg : SessionSetup) (validator : PacketValidator) : (fresh cfg validator).Initial cfg :=
  ⟨SharedRing.fresh_initial _, rfl, rfl, rfl, rfl, rfl, rfl⟩

end SessionState

def sessionMachine (cfg : SessionSetup) : Machine SessionState SessionAction where
  init := SessionState.Initial cfg
  step := SessionState.step cfg

namespace SessionState

variable {cfg : SessionSetup} {s t : SessionState}

/-! ### The steps one by one -/

/-- The producer takes no more steps on the ring. -/
def Over (s : SessionState) : Prop := s.finished = true ∨ s.alive = false

/-- What each step needs and what it makes of the state. -/
inductive StepSpec (cfg : SessionSetup) (s : SessionState) : SessionAction → SessionState → Prop
  | producer {a : RingAction} {ring : SharedRing} :
      ¬s.Over → a.ofProducer = true → s.ring.step cfg.cap a = some ring →
        StepSpec cfg s (.producer a) { s with ring := ring }
  | finish : ¬s.Over → StepSpec cfg s .finish { s with finished := true }
  | exit : StepSpec cfg s .exit { s with alive := false }
  | setPaused {paused : Bool} : StepSpec cfg s (.setPaused paused) { s with paused := paused }
  | requestStop : StepSpec cfg s .requestStop { s with stop := true }
  | claim {ring : SharedRing} :
      s.phase = .connecting → s.ring.step cfg.cap .claim = some ring →
        StepSpec cfg s (.connect .claim) { s with ring := ring }
  | loadTail {ring : SharedRing} :
      s.phase = .connecting → s.ring.step cfg.cap .loadTail = some ring →
        StepSpec cfg s (.connect .loadTail) { s with ring := ring }
  | start {load : Nat} {ring : SharedRing} :
      s.phase = .connecting → s.ring.step cfg.cap (.loadHead load) = some ring →
        StepSpec cfg s (.connect (.loadHead load)) (doStart { s with ring := ring })
  | loop : s.phase = .loop → StepSpec cfg s .advance (s.goto (if s.stop then .ending false else .readPause))
  | readPause : s.phase = .readPause → StepSpec cfg s .advance (s.doReadPause cfg)
  | waitPaused {ring : SharedRing} :
      s.phase = .whilePaused → cfg.policy = .Blocking → s.ring.step cfg.cap .release = some ring →
        StepSpec cfg s .advance ({ s with ring := ring }.goto .report)
  | discardPaused :
      s.phase = .whilePaused → cfg.policy = .Discarding → StepSpec cfg s .advance (s.goto (.release .paused))
  | release {call : ReceiveCall} {ring : SharedRing} :
      s.phase = .release call → s.ring.step cfg.cap .release = some ring →
        StepSpec cfg s .advance ({ s with ring := ring }.goto (.peek call false))
  | wait {call : ReceiveCall} :
      s.phase = .wait call → StepSpec cfg s .advance (s.goto (if s.stop then noRecord call else .peek call true))
  | drop {sp : Span} : s.phase = .drop → s.ring.view = some sp → StepSpec cfg s .advance (s.doDrop sp)
  | loadPid : s.phase = .loadPid → StepSpec cfg s .advance (s.goto (.loadState cfg.producerPid))
  | ending {drained : Bool} {ring : SharedRing} :
      s.phase = .ending drained → s.ring.step cfg.cap .release = some ring →
        StepSpec cfg s .advance ({ s with ring := ring }.goto (.done drained))
  | tryPeek {load : Nat} {call : ReceiveCall} {retry : Bool} {ring : SharedRing} :
      s.phase = .peek call retry → s.ring.step cfg.cap (.tryPeek load) = some ring →
        StepSpec cfg s (.tryPeek load) (afterPeek cfg call retry { s with ring := ring })
  | checkDeadline {expired : Bool} {call : ReceiveCall} :
      s.phase = .expire call →
        StepSpec cfg s (.checkDeadline expired) (s.goto (if expired then noRecord call else .wait call))
  | process {nowNs : Int} {call : ReceiveCall} {sp : Span} :
      s.phase = .process call → s.ring.view = some sp →
        StepSpec cfg s (.process nowNs) (s.doProcess cfg call sp nowNs)
  | sawFinished {pid : Pid} {ring : SharedRing} :
      s.phase = .loadState pid → s.finished = true → s.ring.step cfg.cap (.observeHead s.lastHead) = some ring →
        StepSpec cfg s (.loadState true) ({ s with ring := ring }.goto (.checkAlive pid true))
  | sawReady {pid : Pid} :
      s.phase = .loadState pid → StepSpec cfg s (.loadState false) (s.goto (.checkAlive pid s.ringCorrupted))
  | peerAlive {pid : Pid} {finished : Bool} :
      s.phase = .checkAlive pid finished → 0 < pid →
        StepSpec cfg s (.checkAlive true) (s.goto (if finished then .release .last else .report))
  | peerGone {pid : Pid} {finished : Bool} {ring : SharedRing} :
      s.phase = .checkAlive pid finished → pid ≤ 0 ∨ pid = cfg.producerPid ∧ s.alive = false →
        s.ring.step cfg.cap (.observeHead s.lastHead) = some ring →
        StepSpec cfg s (.checkAlive false) ({ s with ring := ring }.goto (.release .last))
  | noReport : s.phase = .report → StepSpec cfg s (.report none) (s.goto .loop)
  | report {load : Nat} {ring : SharedRing} :
      s.phase = .report → s.ring.step cfg.cap (.observeHead load) = some ring →
        StepSpec cfg s (.report (some load)) { s with ring := ring, stats := s.stats.takeInterval.2, phase := .loop }

theorem onRing_some {a : RingAction} {next : SessionState → SessionState} (h : s.onRing cfg a next = some t) :
    ∃ ring, s.ring.step cfg.cap a = some ring ∧ t = next { s with ring := ring } := by
  obtain ⟨ring, hring, rfl⟩ := Option.map_eq_some_iff.1 h
  exact ⟨ring, hring, rfl⟩

theorem not_over (h : (s.alive && !s.finished) = true) : ¬s.Over := by
  simp only [Bool.and_eq_true, Bool.not_eq_true'] at h
  rintro (hf | ha)
  · rw [hf] at h
    exact absurd h.2 (by decide)
  · rw [ha] at h
    exact absurd h.1 (by decide)

theorem StepSpec.of_advance (hs : s.advance cfg = some t) : StepSpec cfg s .advance t := by
  unfold SessionState.advance at hs
  cases hphase : s.phase <;> simp only [hphase, reduceCtorEq, Option.some.injEq] at hs
  case loop =>
    subst hs
    exact .loop hphase
  case readPause =>
    subst hs
    exact .readPause hphase
  case whilePaused =>
    cases hpolicy : cfg.policy <;> simp only [hpolicy, Option.some.injEq] at hs
    · obtain ⟨ring, hring, rfl⟩ := onRing_some hs
      exact .waitPaused hphase hpolicy hring
    · subst hs
      exact .discardPaused hphase hpolicy
  case release call =>
    obtain ⟨ring, hring, rfl⟩ := onRing_some hs
    exact .release hphase hring
  case wait call =>
    subst hs
    exact .wait hphase
  case drop =>
    obtain ⟨sp, hsp, rfl⟩ := Option.map_eq_some_iff.1 hs
    exact .drop hphase hsp
  case loadPid =>
    subst hs
    exact .loadPid hphase
  case ending drained =>
    obtain ⟨ring, hring, rfl⟩ := onRing_some hs
    exact .ending hphase hring

theorem StepSpec.of_connect {a : RingAction} (hs : s.step cfg (.connect a) = some t) :
    StepSpec cfg s (.connect a) t := by
  unfold SessionState.step at hs
  cases hphase : s.phase <;> simp only [hphase, reduceCtorEq] at hs
  split at hs
  · obtain ⟨ring, hring, rfl⟩ := onRing_some hs
    exact .claim hphase hring
  · obtain ⟨ring, hring, rfl⟩ := onRing_some hs
    exact .loadTail hphase hring
  · obtain ⟨ring, hring, rfl⟩ := onRing_some hs
    exact .start hphase hring
  · cases hs

theorem StepSpec.of_loadState {sawFinished : Bool} (hs : s.step cfg (.loadState sawFinished) = some t) :
    StepSpec cfg s (.loadState sawFinished) t := by
  unfold SessionState.step at hs
  cases hphase : s.phase <;> simp only [hphase, reduceCtorEq] at hs
  cases sawFinished with
  | false =>
    cases hs
    exact .sawReady hphase
  | true =>
    simp only [if_true, Option.ite_none_right_eq_some] at hs
    obtain ⟨ring, hring, rfl⟩ := onRing_some hs.2
    exact .sawFinished hphase hs.1 hring

theorem StepSpec.of_checkAlive {alive : Bool} (hs : s.step cfg (.checkAlive alive) = some t) :
    StepSpec cfg s (.checkAlive alive) t := by
  unfold SessionState.step at hs
  cases hphase : s.phase <;> simp only [hphase, reduceCtorEq] at hs
  cases alive with
  | true =>
    simp only [if_true, Option.ite_none_right_eq_some, Option.some.injEq] at hs
    obtain ⟨hpid, rfl⟩ := hs
    exact .peerAlive hphase hpid
  | false =>
    simp only [Bool.false_eq_true, if_false, Option.ite_none_right_eq_some] at hs
    obtain ⟨ring, hring, rfl⟩ := onRing_some hs.2
    exact .peerGone hphase hs.1 hring

theorem StepSpec.of_report {due : Option Nat} (hs : s.step cfg (.report due) = some t) :
    StepSpec cfg s (.report due) t := by
  unfold SessionState.step at hs
  cases hphase : s.phase <;> simp only [hphase, reduceCtorEq] at hs
  cases due with
  | none =>
    cases hs
    exact .noReport hphase
  | some load =>
    obtain ⟨ring, hring, rfl⟩ := onRing_some hs
    exact .report hphase hring

theorem StepSpec.of_step {a : SessionAction} (hs : s.step cfg a = some t) : StepSpec cfg s a t := by
  cases a with
  | producer a =>
    simp only [SessionState.step, Option.ite_none_right_eq_some, Bool.and_eq_true] at hs
    obtain ⟨⟨halive, ha⟩, hs⟩ := hs
    obtain ⟨ring, hring, rfl⟩ := onRing_some hs
    exact .producer (not_over (by simpa using halive)) ha hring
  | finish =>
    simp only [SessionState.step, Option.ite_none_right_eq_some, Option.some.injEq] at hs
    obtain ⟨halive, rfl⟩ := hs
    exact .finish (not_over halive)
  | exit =>
    cases hs
    exact .exit
  | setPaused paused =>
    cases hs
    exact .setPaused
  | requestStop =>
    cases hs
    exact .requestStop
  | connect a => exact .of_connect hs
  | advance => exact .of_advance hs
  | tryPeek load =>
    simp only [SessionState.step] at hs
    cases hphase : s.phase <;> simp only [hphase, reduceCtorEq] at hs
    obtain ⟨ring, hring, rfl⟩ := onRing_some hs
    exact .tryPeek hphase hring
  | checkDeadline expired =>
    simp only [SessionState.step] at hs
    cases hphase : s.phase <;> simp only [hphase, reduceCtorEq, Option.some.injEq] at hs
    subst hs
    exact .checkDeadline hphase
  | process nowNs =>
    simp only [SessionState.step] at hs
    cases hphase : s.phase <;> simp only [hphase, reduceCtorEq] at hs
    obtain ⟨sp, hsp, rfl⟩ := Option.map_eq_some_iff.1 hs
    exact .process hphase hsp
  | loadState sawFinished => exact .of_loadState hs
  | checkAlive alive => exact .of_checkAlive hs
  | report due => exact .of_report hs

/-! ### The invariant -/

/-- The producer is through, and the session has observed all it has committed. -/
def Settled (s : SessionState) : Prop := s.Over ∧ s.ring.headSeen = s.ring.committed.length

/-- Nothing is left to receive. -/
def Drained (s : SessionState) : Prop :=
  s.Settled ∧ s.ring.view = none ∧ s.ring.released.length = s.ring.committed.length

/-- What the session knows in each phase. -/
def PhaseOk (cfg : SessionSetup) (s : SessionState) : SessionPhase → Prop
  | .connecting => s.ring.released = [] ∧ s.ring.view = none
  | .release call => call = .last → s.Settled
  | .peek call retry => s.ring.view = none ∧ (call = .last → s.Settled ∧ retry = false)
  | .wait call | .expire call => s.ring.view = none ∧ call ≠ .last
  | .loadState pid => pid = cfg.producerPid
  | .checkAlive pid finished => pid = cfg.producerPid ∧ (finished = true → s.Settled)
  | .ending drained | .done drained => if drained then s.Drained else s.stop = true
  | _ => True

structure Inv (cfg : SessionSetup) (s : SessionState) : Prop where
  ring : (ringMachine cfg.cap).Reachable s.ring
  returned : s.returned = s.ring.released ++ (s.ring.view.map s.ring.readSpan).toList
  phase : s.PhaseOk cfg s.phase

theorem Inv.ringInv (h : s.Inv cfg) : s.ring.Inv cfg.cap := SharedRing.Inv.of_reachable h.ring

theorem Inv.ringStep (h : s.Inv cfg) {a : RingAction} {ring : SharedRing} (hring : s.ring.step cfg.cap a = some ring) :
    (ringMachine cfg.cap).Reachable ring := h.ring.step hring

theorem Inv.init (h : s.Initial cfg) : s.Inv cfg := by
  obtain ⟨hring, -, -, hphase, hreturned, -⟩ := h
  refine ⟨Machine.Reachable.init hring, ?_, ?_⟩
  · rw [hreturned, hring.2]
    rfl
  · rw [hphase]
    simp only [PhaseOk]
    rw [hring.2]
    exact ⟨rfl, rfl⟩

/-- The session goes on to a phase while the ring stays as it is. -/
theorem Inv.goto (h : s.Inv cfg) {phase : SessionPhase} (hphase : s.PhaseOk cfg phase) : (s.goto phase).Inv cfg := by
  refine ⟨h.ring, h.returned, ?_⟩
  cases phase <;> exact hphase

/-- What is known in a phase stays known when the view and the released records do not change. -/
theorem PhaseOk.mono {phase : SessionPhase} (h : s.PhaseOk cfg phase) (hview : t.ring.view = s.ring.view)
    (hreleased : t.ring.released = s.ring.released) (hstop : s.stop = true → t.stop = true)
    (hsettled : s.Settled → t.Settled ∧ t.ring.committed = s.ring.committed) : t.PhaseOk cfg phase := by
  have hdrained : s.Drained → t.Drained := by
    rintro ⟨hs, hv, hl⟩
    obtain ⟨hs', hc⟩ := hsettled hs
    exact ⟨hs', hview.trans hv, by rw [hreleased, hc, hl]⟩
  cases phase with
  | connecting => exact ⟨hreleased.trans h.1, hview.trans h.2⟩
  | release call => exact fun hc => (hsettled (h hc)).1
  | peek call retry => exact ⟨hview.trans h.1, fun hc => ⟨(hsettled (h.2 hc).1).1, (h.2 hc).2⟩⟩
  | wait call => exact ⟨hview.trans h.1, h.2⟩
  | expire call => exact ⟨hview.trans h.1, h.2⟩
  | checkAlive pid finished => exact ⟨h.1, fun hf => (hsettled (h.2 hf)).1⟩
  | ending drained =>
    cases drained with
    | false => exact hstop h
    | true => exact hdrained h
  | done drained =>
    cases drained with
    | false => exact hstop h
    | true => exact hdrained h
  | _ => exact h

/-! ### Steps of the producer and of the controls -/

/-- The phases that rely on the producer being through are not reached while it runs. -/
theorem Inv.producer (h : s.Inv cfg) (hover : ¬s.Over) {a : RingAction} (ha : a.ofProducer = true) {ring : SharedRing}
    (hring : s.ring.step cfg.cap a = some ring) : Inv cfg { s with ring := ring } := by
  obtain ⟨-, hview, hreleased, -⟩ := SharedRing.producer_step ha hring
  refine ⟨h.ringStep hring, ?_, h.phase.mono hview hreleased id fun hs => absurd hs.1 hover⟩
  rw [h.returned]
  cases hsp : s.ring.view with
  | none => simp [hview, hreleased, hsp]
  | some sp =>
    have hrun : (ringMachine cfg.cap).run s.ring [a] = some ring := by
      rw [Machine.run, Option.bind_eq_some_iff]
      exact ⟨ring, hring, rfl⟩
    obtain ⟨-, hread⟩ := h.ringInv.view_stable hsp (by simpa using RingAction.endsView_of_ofProducer ha) hrun
    simp [hview, hreleased, hsp, hread]

/-- The producer and the controls change nothing of the ring when they do not operate on it. -/
theorem Inv.control (h : s.Inv cfg) (hring : t.ring = s.ring) (hphase : t.phase = s.phase)
    (hreturned : t.returned = s.returned) (hstop : s.stop = true → t.stop = true) (hover : s.Over → t.Over) :
    t.Inv cfg := by
  refine ⟨by rw [hring]; exact h.ring, by rw [hring, hreturned]; exact h.returned, ?_⟩
  rw [hphase]
  exact h.phase.mono (by rw [hring]) (by rw [hring]) hstop
    fun hs => ⟨⟨hover hs.1, by rw [hring]; exact hs.2⟩, by rw [hring]⟩

/-! ### Steps of the session -/

/-- Attaching changes none of the records, so nothing is known or returned yet. -/
theorem Inv.attach (h : s.Inv cfg) (hphase : s.phase = .connecting) {a : RingAction}
    (ha : a = .claim ∨ a = .loadTail ∨ ∃ load, a = .loadHead load) {ring : SharedRing}
    (hring : s.ring.step cfg.cap a = some ring) :
    s.returned = ring.released ++ (ring.view.map ring.readSpan).toList ∧ ring.released = [] ∧ ring.view = none := by
  obtain ⟨-, hr, hv⟩ := SharedRing.attach_effect ha hring
  have hok := h.phase
  have hreturned := h.returned
  rw [hphase] at hok
  obtain ⟨hreleased, hview⟩ := hok
  rw [hr, hv, hreturned, hview]
  exact ⟨rfl, hreleased, rfl⟩

theorem Inv.connect (h : s.Inv cfg) (hphase : s.phase = .connecting) {a : RingAction} (ha : a = .claim ∨ a = .loadTail)
    {ring : SharedRing} (hring : s.ring.step cfg.cap a = some ring) : Inv cfg { s with ring := ring } := by
  obtain ⟨hreturned, hok⟩ := h.attach hphase (ha.imp_right .inl) hring
  refine ⟨h.ringStep hring, hreturned, ?_⟩
  simp only [hphase]
  exact hok

theorem Inv.release (h : s.Inv cfg) {ring : SharedRing} (hring : s.ring.step cfg.cap .release = some ring)
    {phase : SessionPhase}
    (hphase : ring.view = none → ring.committed = s.ring.committed → ring.headSeen = s.ring.headSeen →
      ring.released = s.ring.released ++ (s.ring.view.map s.ring.readSpan).toList →
      PhaseOk cfg { s with ring := ring } phase) : Inv cfg ({ s with ring := ring }.goto phase) := by
  obtain ⟨hcommitted, hseen, hview, hreleased⟩ := SharedRing.release_effect hring
  refine ⟨h.ringStep hring, ?_, ?_⟩
  · simp only [SessionState.goto, hview, hreleased, h.returned, Option.map_none, Option.toList_none, List.append_nil]
  · have hok := hphase hview hcommitted hseen hreleased
    cases phase <;> exact hok

/-- A load of `head` after which the session is in another phase. -/
theorem Inv.observe (h : s.Inv cfg) {load : Nat} {ring : SharedRing}
    (hring : s.ring.step cfg.cap (.observeHead load) = some ring) {phase : SessionPhase} (stats : ConsumerStats)
    (hphase : PhaseOk cfg { s with ring := ring, stats := stats } phase) :
    Inv cfg { s with ring := ring, stats := stats, phase := phase } := by
  obtain ⟨rfl, -, -⟩ := h.ringInv.observe_effect hring
  refine ⟨h.ringStep hring, h.returned, ?_⟩
  cases phase <;> exact hphase

/-- What is observed at the last store of `head` is all that was committed. -/
theorem Inv.settled_of_observe (h : s.Inv cfg) (hover : s.Over) {ring : SharedRing}
    (hring : s.ring.step cfg.cap (.observeHead s.lastHead) = some ring) : Settled { s with ring := ring } := by
  obtain ⟨rfl, -, -⟩ := h.ringInv.observe_effect hring
  refine ⟨hover, ?_⟩
  simp only [SharedRing.doObserve, lastHead, h.ringInv.heads]
  simp

/-- An attempt of `receive`.  The last call finds nothing only if all committed records are released. -/
theorem Inv.tryPeek (h : s.Inv cfg) {call : ReceiveCall} {retry : Bool} (hphase : s.phase = .peek call retry) {load : Nat}
    {ring : SharedRing} (hring : s.ring.step cfg.cap (.tryPeek load) = some ring) :
    Inv cfg (afterPeek cfg call retry { s with ring := ring }) := by
  obtain ⟨hcommitted, hreleased, hseen, hempty⟩ := h.ringInv.tryPeek_effect hring
  have hring' : (ringMachine cfg.cap).Reachable ring := h.ringStep hring
  have hok := h.phase
  rw [hphase] at hok
  obtain ⟨hview, hlast⟩ := hok
  have hreturned := h.returned
  rw [hview, Option.map_none, Option.toList_none, List.append_nil] at hreturned
  unfold afterPeek
  cases hsp : ring.view with
  | some sp =>
    refine ⟨hring', by simp [hreturned, hreleased, hsp], ?_⟩
    cases call <;> exact trivial
  | none =>
    refine ⟨hring', by simp [SessionState.goto, hsp, hreturned, hreleased], ?_⟩
    -- the last call has observed every store to `head`, so an empty ring is drained
    have hdrained (hc : call = .last) : Drained { s with ring := ring } := by
      obtain ⟨⟨hover, hall⟩, -⟩ := hlast hc
      have hle := (SharedRing.Inv.of_reachable hring').headSeen_le
      rw [hempty hsp, hcommitted] at hle
      rw [hempty hsp, hall] at hseen
      refine ⟨⟨hover, ?_⟩, hsp, ?_⟩
      · simp only [hempty hsp, hcommitted]
        omega
      · simp only [hreleased, hcommitted]
        omega
    dsimp only
    split
    · rename_i hretry
      refine ⟨hsp, fun hc => ?_⟩
      rw [(hlast hc).2] at hretry
      cases hretry
    · split
      · cases call with
        | paused => trivial
        | next => trivial
        | last => exact hdrained rfl
      · rename_i htimeout
        refine ⟨hsp, ?_⟩
        rintro rfl
        exact htimeout rfl

/-- The ring of a well-behaved producer is never flagged corrupted. -/
theorem Inv.ringCorrupted (h : s.Inv cfg) : s.ringCorrupted = false := by
  unfold SessionState.ringCorrupted
  split
  · exact h.ringInv.not_corrupted (by assumption)
  · rfl

/-- The release at the end of the session. -/
theorem Inv.ending (h : s.Inv cfg) {drained : Bool} (hphase : s.phase = .ending drained) {ring : SharedRing}
    (hring : s.ring.step cfg.cap .release = some ring) : Inv cfg ({ s with ring := ring }.goto (.done drained)) := by
  have hok := h.phase
  rw [hphase] at hok
  refine h.release hring fun hview hcommitted hseen hreleased => ?_
  cases drained with
  | false => exact hok
  | true =>
    obtain ⟨⟨hover, hall⟩, hnone, hlen⟩ := hok
    rw [hnone, Option.map_none, Option.toList_none, List.append_nil] at hreleased
    refine ⟨⟨hover, ?_⟩, hview, ?_⟩
    · simp only [hcommitted, hseen]
      exact hall
    · simp only [hcommitted, hreleased]
      exact hlen

/-- Every step keeps the invariant. -/
theorem Inv.step (h : s.Inv cfg) {a : SessionAction} (hs : s.step cfg a = some t) : t.Inv cfg := by
  have hok := h.phase
  cases StepSpec.of_step hs with
  | producer hover ha hring => exact h.producer hover ha hring
  | finish _ => exact h.control rfl rfl rfl id fun _ => .inl rfl
  | exit => exact h.control rfl rfl rfl id fun _ => .inr rfl
  | setPaused => exact h.control rfl rfl rfl id id
  | requestStop => exact h.control rfl rfl rfl (fun _ => rfl) id
  | claim hphase hring => exact h.connect hphase (.inl rfl) hring
  | loadTail hphase hring => exact h.connect hphase (.inr rfl) hring
  | start hphase hring =>
    obtain ⟨hreturned, -⟩ := h.attach hphase (.inr (.inr ⟨_, rfl⟩)) hring
    exact ⟨h.ringStep hring, hreturned, trivial⟩
  | loop hphase =>
    split
    · rename_i hstop
      exact h.goto hstop
    · exact h.goto trivial
  | readPause hphase =>
    refine ⟨h.ring, h.returned, ?_⟩
    unfold doReadPause
    dsimp only
    split
    · trivial
    · exact fun hc => by cases hc
  | waitPaused hphase _ hring => exact h.release hring fun _ _ _ _ => trivial
  | discardPaused hphase _ => exact h.goto fun hc => by cases hc
  | release hphase hring =>
    rw [hphase] at hok
    refine h.release hring fun hview hcommitted hseen _ => ⟨hview, fun hc => ⟨⟨(hok hc).1, ?_⟩, rfl⟩⟩
    simp only [hcommitted, hseen]
    exact (hok hc).2
  | wait hphase =>
    rename_i call
    rw [hphase] at hok
    obtain ⟨hview, hne⟩ := hok
    split
    · cases call with
      | last => exact absurd rfl hne
      | _ => exact h.goto trivial
    · exact h.goto ⟨hview, fun hc => absurd hc hne⟩
  | drop hphase hsp => exact ⟨h.ring, h.returned, trivial⟩
  | loadPid hphase => exact h.goto rfl
  | ending hphase hring => exact h.ending hphase hring
  | tryPeek hphase hring => exact h.tryPeek hphase hring
  | checkDeadline hphase =>
    rename_i call
    rw [hphase] at hok
    split
    · cases call with
      | last => exact absurd rfl hok.2
      | _ => exact h.goto trivial
    · exact h.goto hok
  | process hphase hsp =>
    refine ⟨h.ring, h.returned, ?_⟩
    simp only [doProcess]
    split <;> trivial
  | sawFinished hphase hfinished hring =>
    rw [hphase] at hok
    exact h.observe hring s.stats ⟨hok, fun _ => h.settled_of_observe (.inl hfinished) hring⟩
  | sawReady hphase =>
    rw [hphase] at hok
    exact h.goto ⟨hok, fun hc => by rw [h.ringCorrupted] at hc; cases hc⟩
  | peerAlive hphase hpid =>
    rw [hphase] at hok
    split
    · rename_i hfinished
      exact h.goto fun _ => hok.2 hfinished
    · exact h.goto trivial
  | peerGone hphase hgone hring =>
    rw [hphase] at hok
    have hover : s.Over := by
      rcases hgone with hle | ⟨-, hdead⟩
      · rw [hok.1] at hle
        exact absurd hle (Int.not_le.2 cfg.producerPid_pos)
      · exact .inr hdead
    exact h.observe hring s.stats fun _ => h.settled_of_observe hover hring
  | noReport hphase => exact h.goto trivial
  | report hphase hring => exact h.observe hring _ trivial

theorem Inv.of_reachable (h : (sessionMachine cfg).Reachable s) : s.Inv cfg := by
  refine Machine.Reachable.invariant (I := SessionState.Inv cfg) (fun _ hs => Inv.init hs) ?_ h
  intro s a t hi hs
  exact hi.step hs

/-! ### The side of the producer -/

theorem ring_afterPeek (call : ReceiveCall) (retry : Bool) (u : SessionState) :
    (u.afterPeek cfg call retry).ring = u.ring := by
  unfold afterPeek
  split <;> rfl

/-- The steps of the session and of the controls leave the side of the producer as it is. -/
theorem consumer_step {a : SessionAction} (ha : a.ofProducer = false) (hs : s.step cfg a = some t) :
    s.ring.SameSlot t.ring := by
  cases StepSpec.of_step hs with
  | producer _ _ _ => cases ha
  | finish _ => cases ha
  | claim _ hring => exact SharedRing.consumer_step rfl hring
  | loadTail _ hring => exact SharedRing.consumer_step rfl hring
  | start _ hring => exact SharedRing.consumer_step rfl hring
  | waitPaused _ _ hring => exact SharedRing.consumer_step rfl hring
  | release _ hring => exact SharedRing.consumer_step rfl hring
  | ending _ hring => exact SharedRing.consumer_step rfl hring
  | tryPeek _ hring =>
    rw [ring_afterPeek]
    exact SharedRing.consumer_step rfl hring
  | sawFinished _ _ hring => exact SharedRing.consumer_step rfl hring
  | peerGone _ _ hring => exact SharedRing.consumer_step rfl hring
  | report _ hring => exact SharedRing.consumer_step rfl hring
  | _ => exact .refl _

end SessionState

end ProducerConsumer
