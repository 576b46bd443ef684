import Mathlib.Data.BitVec
import ProducerConsumer.PayloadSize
import ProducerConsumer.RateLimiter
import ProducerConsumer.RingCounters

/-!
# What the producer reports

`ProducerApp::run` with its rate limiter, its clocks and its reporter, over the stream it produces.  The steps of the
stream are those of `streamMachine`; in between come the constructors of the locals of the loop, the rounds of
`wait_for_slot`, `report_if_due` and the summary.  The clock is steady: no reading is before an earlier one.
-/

namespace ProducerConsumer

open Transition

/-! ### The model -/

/-- `RateSample`, its time span in ticks of the clock. -/
structure RateSample where
  packets : U64
  bytes : U64
  elapsed : Int
deriving DecidableEq

/-- A `RateWindow` with its clock. -/
structure TimedWindow where
  counts : RateWindow
  start : Int

namespace TimedWindow

def add (w : TimedWindow) (bytes : U64) : TimedWindow := { w with counts := w.counts.add bytes }

def sample (w : TimedWindow) (now : Int) : RateSample := ⟨w.counts.packets, w.counts.bytes, now - w.start⟩

/-- The window and its sample after `take`. -/
def take (w : TimedWindow) (now : Int) : RateSample × TimedWindow := (w.sample now, ⟨{}, now⟩)

end TimedWindow

/-- The readings and the period in nanoseconds.  The source adds them in `int64`, which is the sum here as long as it
stays below `2 ^ 63`. -/
structure PeriodicTimer where
  period : Int
  next : Int

namespace PeriodicTimer

def new (period now : Int) : PeriodicTimer := ⟨period, now + period⟩

def due (timer : PeriodicTimer) (now : Int) : Bool × PeriodicTimer :=
  if now < timer.next then (false, timer) else (true, { timer with next := now + timer.period })

end PeriodicTimer

/-- `ProducerSnapshot`, its `QueueStatus` as the bytes used and the capacity. -/
structure ProducerSnapshot where
  totalPackets : U64
  totalBytes : U64
  interval : RateSample
  used : U64
  capacity : U64
  paused : Bool
deriving DecidableEq

/-- A call of `IProducerReporter`. -/
inductive ProducerMessage
  | info (text : String)
  | stateChanged (paused : Bool)
  | report (snapshot : ProducerSnapshot)
  | summary (packets bytes : U64) (elapsed : Int)
deriving DecidableEq

/-- The report interval and, for a positive rate, the period of the limiter in ticks of the clock; the description of
the sink. -/
structure ReportSetup where
  stream : StreamSetup
  reportInterval : Int
  sendPeriod : Option Int
  describe : String

/-- What `run` does next: a step of the stream, or what is between two of them. -/
inductive NextStep
  | stream
  | start
  | limit
  | report
  | summary
deriving DecidableEq

/-- The stream, the limiter with the last reading of the clock, the locals `report_timer`, `window` and `started` (which
mean nothing before they are constructed), and the messages so far.  `slots` has for each packet that was committed the
number of the last call of `wait_for_slot` that had returned. -/
structure ReportedRun where
  stream : StreamState
  next : NextStep
  pace : PacedState
  timer : PeriodicTimer
  window : TimedWindow
  started : Int
  messages : List ProducerMessage
  slots : List Nat

/-- The readings of the clock are those of the timer, the window and `started`; of a round of `wait_for_slot`; of `due`
and `take`; and of the summary.  `load` is the store of `tail` that `queue_status` reads. -/
inductive ReportAction
  | stream (a : StreamAction)
  | start (timerNow windowNow now : Int)
  | slot (now : Int)
  | report (now takeNow : Int) (load : Nat)
  | summary (now : Int)
deriving DecidableEq

namespace ReportSetup

/-- The interval of the limiter, zero if it is not enabled. -/
def sendInterval (cfg : ReportSetup) : Int := (RateLimiter.new cfg.sendPeriod 0).interval

/-- The first lines of `run`. -/
def opening (cfg : ReportSetup) : List ProducerMessage :=
  [.info ("Transport: " ++ cfg.describe),
    .info ("Packet: " ++ toString kHeaderSize ++ " B header + " ++ toString cfg.stream.producer.payloadSize.toNat ++
      " B payload = " ++ toString cfg.stream.producer.recordSize.toNat ++ " B")]

end ReportSetup

/-- The snapshot of a report. -/
def ProducerMessage.snapshot? : ProducerMessage → Option ProducerSnapshot
  | .report snapshot => some snapshot
  | _ => none

namespace ReportedRun

def reports (s : ReportedRun) : List ProducerSnapshot := s.messages.filterMap ProducerMessage.snapshot?

def say (s : ReportedRun) (messages : List ProducerMessage) (next : NextStep) : ReportedRun :=
  { s with messages := s.messages ++ messages, next := next }

/-- What follows a step of `run` that leads to `t`. -/
def follow (cfg : ReportSetup) (s : ReportedRun) (t : StreamState) : ReportedRun :=
  match s.stream.app.phase, t.app.phase with
  | .checkSize, .waitForPeer =>
    say { s with stream := t } (cfg.opening ++ [.info "Waiting for a consumer to attach..."]) .stream
  | .checkSize, .loop => say { s with stream := t } cfg.opening .start
  | .pollPeer, .loop => say { s with stream := t } [.info "Consumer attached"] .start
  | .loop, .returned => { s with stream := t, next := .summary }
  | .readPause, phase =>
    say { s with stream := t }
      (if t.app.wasPaused ≠ s.stream.app.wasPaused then [.stateChanged t.app.wasPaused] else [])
      (if phase = .loop then .report else .limit)
  | .build [], _ =>
    { s with
      stream := t
      window := s.window.add cfg.stream.producer.recordSize
      slots := s.slots ++ [s.pace.calls.length - 1]
      next := .report }
  -- nothing was reserved
  | _, .loop => { s with stream := t, next := .report }
  | _, _ => { s with stream := t }

/-- A round of `wait_for_slot`. -/
def waitForSlot (s : ReportedRun) (now : Int) : Option ReportedRun :=
  if s.pace.limiter.enabled then
    (s.pace.step ⟨now, s.stream.app.stop⟩).map fun pace =>
      { s with pace := pace, next := if pace.calls.length = s.pace.calls.length then .limit else .stream }
  else some { s with next := .stream }

def readClock (s : ReportedRun) (now : Int) : ReportedRun := { s with pace := { s.pace with clock := now } }

def snapshot (s : ReportedRun) (takeNow : Int) (tail : U64) : ProducerSnapshot where
  totalPackets := s.stream.app.sequence
  totalBytes := s.stream.app.totalBytes
  interval := s.window.sample takeNow
  used := s.stream.session.ring.producer.used tail
  capacity := s.stream.session.ring.producer.capacity
  paused := s.stream.app.wasPaused

/-- `report_if_due`. -/
def reportIfDue (s : ReportedRun) (now takeNow : Int) (load : Nat) : Option ReportedRun :=
  if (s.timer.due now).1 then
    if now ≤ takeNow then
      (s.stream.session.ring.tailLoad load).map fun tail =>
        say { s.readClock takeNow with timer := (s.timer.due now).2, window := (s.window.take takeNow).2 }
          [.report (s.snapshot takeNow tail)] .stream
    else none
  else some { s.readClock now with next := .stream }

def step (cfg : ReportSetup) (s : ReportedRun) : ReportAction → Option ReportedRun
  | .stream (.producer a) =>
    if s.next = .stream then (s.stream.step cfg.stream (.producer a)).map (s.follow cfg) else none
  | .stream a => (s.stream.step cfg.stream a).map fun t => { s with stream := t }
  | .start timerNow windowNow now =>
    if s.next = .start ∧ s.pace.clock ≤ timerNow ∧ timerNow ≤ windowNow ∧ windowNow ≤ now then
      some { s.readClock now with
        timer := .new cfg.reportInterval timerNow, window := ⟨{}, windowNow⟩, started := now, next := .stream }
    else none
  | .slot now => if s.next = .limit then s.waitForSlot now else none
  | .report now takeNow load => if s.next = .report ∧ s.pace.clock ≤ now then s.reportIfDue now takeNow load else none
  | .summary now =>
    if s.next = .summary ∧ s.pace.clock ≤ now then
      some ((s.readClock now).say
        [.summary s.stream.app.sequence s.stream.app.totalBytes (now - s.started)] .stream)
    else none

/-- Before `run`; the locals of the loop are not constructed yet. -/
def Initial (cfg : ReportSetup) (s : ReportedRun) : Prop :=
  s.stream.Initial cfg.stream ∧ s.next = .stream ∧ (∃ now, s.pace = .initial (.new cfg.sendPeriod now) now) ∧
    s.window.counts = {} ∧ s.messages = [] ∧ s.slots = []

end ReportedRun

def reportMachine (cfg : ReportSetup) : Machine ReportedRun ReportAction where
  init := ReportedRun.Initial cfg
  step := ReportedRun.step cfg

namespace ReportedRun

variable {cfg : ReportSetup} {s t : ReportedRun}

/-! ### The steps one by one -/

theorem follow_stream (s : ReportedRun) (u : StreamState) : (s.follow cfg u).stream = u := by
  unfold follow
  split <;> rfl

inductive StepSpec (cfg : ReportSetup) (s : ReportedRun) : ReportAction → ReportedRun → Prop
  | producer {a : ProducerAction} {u : StreamState} :
      s.next = .stream → s.stream.step cfg.stream (.producer a) = some u →
        StepSpec cfg s (.stream (.producer a)) (s.follow cfg u)
  | other {a : StreamAction} {u : StreamState} :
      (∀ b, a ≠ .producer b) → s.stream.step cfg.stream a = some u → StepSpec cfg s (.stream a) { s with stream := u }
  | start {timerNow windowNow now : Int} :
      s.next = .start → s.pace.clock ≤ timerNow → timerNow ≤ windowNow → windowNow ≤ now →
        StepSpec cfg s (.start timerNow windowNow now)
          { s.readClock now with
            timer := .new cfg.reportInterval timerNow, window := ⟨{}, windowNow⟩, started := now, next := .stream }
  | unlimited {now : Int} :
      s.next = .limit → s.pace.limiter.enabled = false → StepSpec cfg s (.slot now) { s with next := .stream }
  | slot {now : Int} {pace : PacedState} :
      s.next = .limit → s.pace.step ⟨now, s.stream.app.stop⟩ = some pace →
        StepSpec cfg s (.slot now)
          { s with pace := pace, next := if pace.calls.length = s.pace.calls.length then .limit else .stream }
  | notDue {now takeNow : Int} {load : Nat} :
      s.next = .report → s.pace.clock ≤ now → now < s.timer.next →
        StepSpec cfg s (.report now takeNow load) { s.readClock now with next := .stream }
  | report {now takeNow : Int} {load : Nat} {tail : U64} :
      s.next = .report → s.pace.clock ≤ now → s.timer.next ≤ now → now ≤ takeNow →
      s.stream.session.ring.tailLoad load = some tail →
        StepSpec cfg s (.report now takeNow load)
          (say { s.readClock takeNow with
            timer := { s.timer with next := now + s.timer.period }, window := ⟨{}, takeNow⟩ }
              [.report (s.snapshot takeNow tail)] .stream)
  | summary {now : Int} :
      s.next = .summary → s.pace.clock ≤ now →
        StepSpec cfg s (.summary now)
          ((s.readClock now).say [.summary s.stream.app.sequence s.stream.app.totalBytes (now - s.started)] .stream)

theorem StepSpec.of_step {a : ReportAction} (hs : s.step cfg a = some t) : StepSpec cfg s a t := by
  cases a with
  | stream a =>
    cases a with
    | producer a =>
      simp only [ReportedRun.step, Option.ite_none_right_eq_some] at hs
      obtain ⟨hnext, hs⟩ := hs
      obtain ⟨u, hu, rfl⟩ := Option.map_eq_some_iff.1 hs
      exact .producer hnext hu
    | setPaused _ | requestStop | consumer _ =>
      simp only [ReportedRun.step, Option.map_eq_some_iff] at hs
      obtain ⟨u, hu, rfl⟩ := hs
      exact .other nofun hu
  | start timerNow windowNow now =>
    simp only [ReportedRun.step, Option.ite_none_right_eq_some, Option.some.injEq] at hs
    obtain ⟨⟨hnext, htimer, hwindow, hnow⟩, rfl⟩ := hs
    exact .start hnext htimer hwindow hnow
  | slot now =>
    simp only [ReportedRun.step, Option.ite_none_right_eq_some] at hs
    obtain ⟨hnext, hs⟩ := hs
    unfold waitForSlot at hs
    split at hs
    · obtain ⟨pace, hpace, rfl⟩ := Option.map_eq_some_iff.1 hs
      exact .slot hnext hpace
    · rename_i hdisabled
      cases hs
      exact .unlimited hnext (by simpa using hdisabled)
  | report now takeNow load =>
    simp only [ReportedRun.step, Option.ite_none_right_eq_some] at hs
    obtain ⟨⟨hnext, hclock⟩, hs⟩ := hs
    unfold reportIfDue at hs
    by_cases hearly : now < s.timer.next
    · simp only [PeriodicTimer.due, hearly, if_true, Bool.false_eq_true, if_false, Option.some.injEq] at hs
      subst hs
      exact .notDue hnext hclock hearly
    · simp only [PeriodicTimer.due, hearly, if_true, if_false, Option.ite_none_right_eq_some] at hs
      obtain ⟨htake, hs⟩ := hs
      obtain ⟨tail, htail, rfl⟩ := Option.map_eq_some_iff.1 hs
      exact .report hnext hclock (Int.not_lt.1 hearly) htake htail
  | summary now =>
    simp only [ReportedRun.step, Option.ite_none_right_eq_some, Option.some.injEq] at hs
    obtain ⟨⟨hnext, hclock⟩, rfl⟩ := hs
    exact .summary hnext hclock

/-! ### The stream underneath -/

/-- Without its reports a run is one of the stream. -/
theorem reported_simulation (cfg : ReportSetup) :
    Machine.Simulation (reportMachine cfg) (streamMachine cfg.stream) ReportedRun.stream fun _ => True where
  init _ h := h.1
  step s a t _ hs := by
    have hone {a : StreamAction} {u : StreamState} (ha : s.stream.step cfg.stream a = some u) :
        ∃ bs, (streamMachine cfg.stream).run s.stream bs = some u := by
      refine ⟨[a], ?_⟩
      rw [Machine.run, Option.bind_eq_some_iff]
      exact ⟨u, ha, rfl⟩
    cases StepSpec.of_step hs with
    | producer _ hu =>
      rw [follow_stream]
      exact hone hu
    | other _ hu => exact hone hu
    | _ => exact ⟨[], rfl⟩

theorem stream_reachable (h : (reportMachine cfg).Reachable s) : (streamMachine cfg.stream).Reachable s.stream :=
  (reported_simulation cfg).reachable (fun _ _ => trivial) h

end ReportedRun

/-! ### What a log says -/

/-- What a reader of the log knows: the totals of the last report, whether the stream is paused, whether the last message
was a report of a paused stream, and the summary. -/
structure LogState where
  packets : U64 := 0
  bytes : U64 := 0
  paused : Bool := false
  idle : Bool := false
  summary : Option (U64 × U64) := none
deriving DecidableEq

/-- A report goes on from the one before: its totals are those of that one and its interval, its flag is that of the last
change, and nothing was sent between two reports of one pause. -/
def ProducerSnapshot.Continues (snapshot : ProducerSnapshot) (cap : Capacity) (s : LogState) : Prop :=
  snapshot.totalPackets = s.packets + snapshot.interval.packets ∧ snapshot.totalBytes = s.bytes + snapshot.interval.bytes ∧
    snapshot.paused = s.paused ∧ (s.idle = true → snapshot.interval.packets = 0 ∧ snapshot.interval.bytes = 0) ∧
    snapshot.used.toNat ≤ cap.bytes ∧ snapshot.capacity = cap.word

instance (snapshot : ProducerSnapshot) (cap : Capacity) (s : LogState) : Decidable (snapshot.Continues cap s) := by
  unfold ProducerSnapshot.Continues
  infer_instance

/-- The messages that may come next; after the summary there are none. -/
def LogState.read (cap : Capacity) (s : LogState) (message : ProducerMessage) : Option LogState :=
  if s.summary.isSome then none
  else
    match message with
    | .info _ => some { s with idle := false }
    | .stateChanged paused => if paused = s.paused then none else some { s with paused := paused, idle := false }
    | .report snapshot =>
      if snapshot.Continues cap s then
        some { s with packets := snapshot.totalPackets, bytes := snapshot.totalBytes, idle := s.paused }
      else none
    | .summary packets bytes _ => some { s with summary := some (packets, bytes), idle := false }

/-- The logs of a producer. -/
def logMachine (cap : Capacity) : Machine LogState ProducerMessage where
  init s := s = {}
  step := LogState.read cap

namespace ProducerPhase

/-- In the loop while the stream is paused, or after the loop. -/
def resting : ProducerPhase → Bool
  | loop | readPause | returned | closed => true
  | _ => false

def ended : ProducerPhase → Bool
  | returned | closed => true
  | _ => false

variable {phase : ProducerPhase}

theorem not_ended (h : phase.resting = false) : phase.ended = false := by
  cases phase <;> first | rfl | cases h

theorem not_resting (h : phase.early = true) : phase.resting = false := by
  cases phase <;> first | rfl | cases h

end ProducerPhase

namespace ReportedRun

variable {cfg : ReportSetup} {s t : ReportedRun} {l : LogState}

/-- Where `run` is when it does something else than a step of the stream. -/
def NextOk (s : ReportedRun) : Prop :=
  match s.next with
  | .stream => True
  | .start => s.stream.app.phase = .loop ∧ s.window.counts = {} ∧ s.slots = []
  | .report => s.stream.app.phase = .loop
  | .limit => s.stream.app.phase = .reserve false
  | .summary => s.stream.app.phase = .returned

/-- The log so far, as its reader `l` knows it, and the state of `run`. -/
structure Log (cfg : ReportSetup) (s : ReportedRun) (l : LogState) : Prop where
  read : (logMachine cfg.stream.session.cap).run {} s.messages = some l
  packets : l.packets + s.window.counts.packets = s.stream.app.sequence
  bytes : l.bytes + s.window.counts.bytes = s.stream.app.totalBytes
  paused : l.paused = s.stream.app.wasPaused
  idle : l.idle = true → s.window.counts = {} ∧ l.paused = true
  resting : s.stream.app.wasPaused = true → s.stream.app.phase.resting = true
  summary : ∀ sent, l.summary = some sent →
    sent = (s.stream.app.sequence, s.stream.app.totalBytes) ∧ s.stream.app.phase.ended = true ∧ s.next = .stream
  placed : s.NextOk
  early : s.stream.app.phase.early = true → s.window.counts = {} ∧ s.slots = [] ∧ s.next = .stream
  told : s.slots ≠ [] → s.stream.app.phase.ended = true → s.next = .summary ∨ l.summary.isSome = true

namespace Log

theorem awake (h : s.Log cfg l) (hphase : s.stream.app.phase.resting = false) : s.stream.app.wasPaused = false := by
  cases hpaused : s.stream.app.wasPaused with
  | false => rfl
  | true => rw [h.resting hpaused] at hphase; cases hphase

theorem busy (h : s.Log cfg l) (hphase : s.stream.app.phase.resting = false) : l.idle = false := by
  cases hidle : l.idle with
  | false => rfl
  | true =>
    have hpaused := (h.idle hidle).2
    rw [h.paused, h.awake hphase] at hpaused
    cases hpaused

/-- There is no summary before the end. -/
theorem unfinished (h : s.Log cfg l) (hphase : s.stream.app.phase.ended = false) : l.summary = none := by
  cases hsummary : l.summary with
  | none => rfl
  | some sent => rw [(h.summary sent hsummary).2.1] at hphase; cases hphase

/-- What the new state of `run` has to meet when nothing is reported and nothing is sent. -/
structure Moved (s : ReportedRun) (l : LogState) (u : StreamState) (next : NextStep) : Prop where
  sequence : u.app.sequence = s.stream.app.sequence
  totalBytes : u.app.totalBytes = s.stream.app.totalBytes
  wasPaused : u.app.wasPaused = s.stream.app.wasPaused
  resting : s.stream.app.wasPaused = true → u.app.phase.resting = true
  summary : l.summary ≠ none → u.app.phase.ended = true ∧ next = .stream
  placed : NextOk { s with stream := u, next := next }
  early : u.app.phase.early = true → s.window.counts = {} ∧ s.slots = [] ∧ next = .stream
  told : s.slots ≠ [] → u.app.phase.ended = true → next = .summary ∨ l.summary.isSome = true

theorem move (h : s.Log cfg l) {u : StreamState} {next : NextStep} (hmove : Moved s l u next) :
    Log cfg { s with stream := u, next := next } l where
  read := h.read
  packets := h.packets.trans hmove.sequence.symm
  bytes := h.bytes.trans hmove.totalBytes.symm
  paused := h.paused.trans hmove.wasPaused.symm
  idle := h.idle
  resting hpaused := hmove.resting (hmove.wasPaused.symm.trans hpaused)
  summary sent hsent := by
    have hsome : l.summary ≠ none := by simp [hsent]
    refine ⟨?_, hmove.summary hsome⟩
    rw [hmove.sequence, hmove.totalBytes]
    exact (h.summary sent hsent).1
  placed := hmove.placed
  early := hmove.early
  told := hmove.told

theorem stay (h : s.Log cfg l) {u : StreamState} (hmove : Moved s l u s.next) : Log cfg { s with stream := u } l :=
  h.move hmove

/-- Lines of text change nothing, but for the idle mark. -/
theorem read_infos {cap : Capacity} (hopen : l.summary = none) (hidle : l.idle = false) :
    ∀ texts : List String, (logMachine cap).run l (texts.map .info) = some l
  | [] => rfl
  | text :: texts => by
    have hline : (logMachine cap).step l (.info text) = some l := by
      obtain ⟨packets, bytes, paused, idle, summary⟩ := l
      obtain rfl : summary = none := hopen
      obtain rfl : idle = false := hidle
      rfl
    rw [List.map_cons, Machine.run, hline, Option.bind_some]
    exact read_infos hopen hidle texts

theorem append (h : s.Log cfg l) {messages : List ProducerMessage} {l' : LogState}
    (hread : (logMachine cfg.stream.session.cap).run l messages = some l') :
    (logMachine cfg.stream.session.cap).run {} (s.messages ++ messages) = some l' := by
  rw [Machine.run_append h.read, hread]

/-- A step of `run` while the stream is not paused. -/
theorem moveAwake (h : s.Log cfg l) (hphase : s.stream.app.phase.resting = false) {u : StreamState} {next : NextStep}
    (happ : u.app = { s.stream.app with phase := u.app.phase, builder := u.app.builder })
    (hplaced : NextOk { s with stream := u, next := next })
    (hearly : u.app.phase.early = true → s.window.counts = {} ∧ s.slots = [] ∧ next = .stream)
    (htold : s.slots ≠ [] → u.app.phase.ended = true → next = .summary) :
    Log cfg { s with stream := u, next := next } l := by
  refine h.move ⟨by rw [happ], by rw [happ], by rw [happ], fun hpaused => ?_, fun hsome => ?_, hplaced, hearly,
    fun hslots hended => .inl (htold hslots hended)⟩
  · rw [h.awake hphase] at hpaused
    cases hpaused
  · exact absurd (h.unfinished (ProducerPhase.not_ended hphase)) hsome

/-- A step of `run` within its loop. -/
theorem moveInside (h : s.Log cfg l) (hphase : s.stream.app.phase.resting = false) {u : StreamState} {next : NextStep}
    (happ : u.app = { s.stream.app with phase := u.app.phase, builder := u.app.builder })
    (hplaced : NextOk { s with stream := u, next := next }) (hearly : u.app.phase.early = false)
    (hended : u.app.phase.ended = false) : Log cfg { s with stream := u, next := next } l := by
  refine h.moveAwake hphase happ hplaced (fun he => ?_) fun _ he => ?_
  · rw [hearly] at he
    cases he
  · rw [hended] at he
    cases he

/-- A step of `run` before the loop, with what it tells. -/
theorem moveEarly (h : s.Log cfg l) (hphase : s.stream.app.phase.early = true) (phase : ProducerPhase) (next : NextStep)
    (texts : List String)
    (hplaced : s.window.counts = {} → s.slots = [] → NextOk { s with stream := s.stream.goto phase, next := next })
    (hnext : phase.early = true → next = .stream) :
    (say { s with stream := s.stream.goto phase } (texts.map .info) next).Log cfg l := by
  have hresting := ProducerPhase.not_resting hphase
  obtain ⟨hwindow, hslots, -⟩ := h.early hphase
  have hmoved : Log cfg { s with stream := s.stream.goto phase, next := next } l :=
    h.moveAwake hresting rfl (hplaced hwindow hslots) (fun hearly => ⟨hwindow, hslots, hnext hearly⟩)
      (fun hne _ => absurd hslots hne)
  have hread : (logMachine cfg.stream.session.cap).run l (texts.map .info) = some l :=
    read_infos (h.unfinished (ProducerPhase.not_ended hresting)) (h.busy hresting) texts
  exact { hmoved with read := h.append hread }

/-- A step of `run` while the stream is not paused, after which `run` goes on with the stream. -/
theorem quiet (h : s.Log cfg l) (hnext : s.next = .stream) (hphase : s.stream.app.phase.resting = false) {u : StreamState}
    (happ : u.app = { s.stream.app with phase := u.app.phase, builder := u.app.builder })
    (hearly : u.app.phase.early = true → s.stream.app.phase.early = true)
    (hended : u.app.phase.ended = true → s.slots = []) : Log cfg { s with stream := u } l := by
  have hplaced : NextOk { s with stream := u, next := s.next } := by simp only [NextOk, hnext]
  exact h.moveAwake hphase happ hplaced (fun hu => h.early (hearly hu)) fun hne hu => absurd (hended hu) hne

theorem quietInside (h : s.Log cfg l) (hnext : s.next = .stream) (hphase : s.stream.app.phase.resting = false)
    {u : StreamState} (happ : u.app = { s.stream.app with phase := u.app.phase, builder := u.app.builder })
    (hearly : u.app.phase.early = false) (hended : u.app.phase.ended = false) : Log cfg { s with stream := u } l := by
  have hplaced : NextOk { s with stream := u, next := s.next } := by simp only [NextOk, hnext]
  exact h.moveInside hphase happ hplaced hearly hended

/-- What `readPause` tells is a change of what the log says. -/
theorem read_stateChanged {cap : Capacity} (hopen : l.summary = none) {paused : Bool} (hne : paused ≠ l.paused) :
    (logMachine cap).run l [.stateChanged paused] = some { l with paused := paused, idle := false } := by
  have hstep : (logMachine cap).step l (.stateChanged paused) = some { l with paused := paused, idle := false } := by
    simp only [logMachine, LogState.read, hopen, Option.isSome_none, Bool.false_eq_true, if_false, hne]
  rw [Machine.run, hstep]
  rfl

/-- After `run` has read the pause flag it goes to the phase `phase`, and then does `next`. -/
theorem pauseRead (h : s.Log cfg l) (hphase : s.stream.app.phase = .readPause) {phase : ProducerPhase} {next : NextStep}
    {paused : Bool}
    (hcase : paused = true ∧ phase = .loop ∧ next = .report ∨ paused = false ∧ phase = .reserve false ∧ next = .limit) :
    ∃ l', (say { s with stream := { s.stream with app := { s.stream.app with wasPaused := paused, phase := phase } } }
      (if paused ≠ s.stream.app.wasPaused then [.stateChanged paused] else []) next).Log cfg l' := by
  have hopen := h.unfinished (by rw [hphase]; rfl)
  have hresting : paused = true → phase.resting = true := by
    rintro rfl
    rcases hcase with ⟨-, rfl, -⟩ | ⟨hfalse, -⟩
    · rfl
    · cases hfalse
  have hinside : phase.early = false ∧ phase.ended = false := by
    rcases hcase with ⟨-, rfl, -⟩ | ⟨-, rfl, -⟩ <;> exact ⟨rfl, rfl⟩
  have hplaced (messages : List ProducerMessage) :
      NextOk (say { s with stream := { s.stream with app := { s.stream.app with wasPaused := paused, phase := phase } } }
        messages next) := by
    rcases hcase with ⟨-, rfl, rfl⟩ | ⟨-, rfl, rfl⟩ <;> rfl
  have hearly : phase.early = true → s.window.counts = {} ∧ s.slots = [] ∧ next = .stream := by
    rw [hinside.1]
    exact nofun
  have htold (l' : LogState) : s.slots ≠ [] → phase.ended = true → next = .summary ∨ l'.summary.isSome = true := by
    rw [hinside.2]
    exact fun _ => nofun
  have hsummary {l' : LogState} (hl : l'.summary = l.summary) (sent : U64 × U64) (hsent : l'.summary = some sent) :
      sent = (s.stream.app.sequence, s.stream.app.totalBytes) ∧ phase.ended = true ∧ next = .stream := by
    rw [hl, hopen] at hsent
    cases hsent
  by_cases hchanged : paused = s.stream.app.wasPaused
  · rw [if_neg (not_not_intro hchanged)]
    exact ⟨l, h.append rfl, h.packets, h.bytes, h.paused.trans hchanged.symm, h.idle, hresting, hsummary rfl, hplaced _,
      hearly, htold l⟩
  · have hread : (logMachine cfg.stream.session.cap).run l [.stateChanged paused] = some _ :=
      read_stateChanged hopen fun he => hchanged (he.trans h.paused)
    rw [if_pos hchanged]
    exact ⟨{ l with paused := paused, idle := false }, h.append hread, h.packets, h.bytes, rfl, nofun, hresting,
      hsummary rfl, hplaced _, hearly, htold _⟩

theorem readPause (h : s.Log cfg l) (hphase : s.stream.app.phase = .readPause) :
    ∃ l', (s.follow cfg { s.stream with app := s.stream.app.doReadPause }).Log cfg l' := by
  simp only [follow, hphase, ProducerApp.doReadPause]
  refine h.pauseRead hphase ?_
  by_cases hpaused : s.stream.app.paused = true
  · simp only [hpaused, if_true, true_and, true_or]
  · simp [hpaused]

theorem commit (h : s.Log cfg l) (hphase : s.stream.app.phase = .build []) {session : SessionState} :
    (s.follow cfg ⟨session, s.stream.app.afterCommit cfg.stream.producer⟩).Log cfg l := by
  have hresting : s.stream.app.phase.resting = false := by rw [hphase]; rfl
  have hopen := h.unfinished (ProducerPhase.not_ended hresting)
  have hbusy := h.busy hresting
  simp only [follow, hphase, ProducerApp.afterCommit]
  refine ⟨h.read, ?_, ?_, h.paused, fun hidle => ?_, fun hpaused => rfl, fun sent hsent => ?_, rfl, nofun, fun _ => nofun⟩
  · simp only [TimedWindow.add, RateWindow.add]
    rw [← h.packets, BitVec.add_assoc]
  · simp only [TimedWindow.add, RateWindow.add]
    rw [← h.bytes, BitVec.add_assoc]
  · rw [hbusy] at hidle
    cases hidle
  · rw [hopen] at hsent
    cases hsent

theorem producer (h : s.Log cfg l) (hnext : s.next = .stream) {a : ProducerAction} {u : StreamState}
    (hstep : StreamState.StepSpec cfg.stream s.stream (.producer a) u) : ∃ l', (s.follow cfg u).Log cfg l' := by
  cases hstep with
  | checkSize hphase =>
    have hearly : s.stream.app.phase.early = true := by rw [hphase]; rfl
    have hresting := ProducerPhase.not_resting hearly
    refine ⟨l, ?_⟩
    unfold ProducerApp.checkSize
    split
    · simp only [follow, hphase, StreamState.goto, ProducerApp.goto]
      exact h.quiet hnext hresting rfl (fun _ => hearly) (by rintro ⟨⟩)
    · split
      · simp only [follow, hphase, StreamState.goto, ProducerApp.goto]
        exact h.moveEarly hearly .waitForPeer .stream [_, _, _] (fun _ _ => trivial) fun _ => rfl
      · simp only [follow, hphase, StreamState.goto, ProducerApp.goto]
        exact h.moveEarly hearly .loop .start [_, _] (fun hwindow hslots => ⟨rfl, hwindow, hslots⟩) (by rintro ⟨⟩)
  | waitForPeer hphase =>
    have hearly : s.stream.app.phase.early = true := by rw [hphase]; rfl
    have hresting := ProducerPhase.not_resting hearly
    refine ⟨l, ?_⟩
    split <;> simp only [follow, hphase, StreamState.goto, ProducerApp.goto]
    · exact h.quiet hnext hresting rfl (by rintro ⟨⟩) fun _ => (h.early hearly).2.1
    · exact h.quiet hnext hresting rfl (fun _ => hearly) (by rintro ⟨⟩)
  | pollPeer hphase =>
    have hearly : s.stream.app.phase.early = true := by rw [hphase]; rfl
    have hresting := ProducerPhase.not_resting hearly
    refine ⟨l, ?_⟩
    split <;> simp only [follow, hphase, StreamState.goto, ProducerApp.goto]
    · exact h.moveEarly hearly .loop .start [_] (fun hwindow hslots => ⟨rfl, hwindow, hslots⟩) (by rintro ⟨⟩)
    · exact h.quiet hnext hresting rfl (fun _ => hearly) (by rintro ⟨⟩)
  | loop hphase =>
    have hopen := h.unfinished (by rw [hphase]; rfl)
    refine ⟨l, ?_⟩
    rcases s.stream.app.nextRound_cases cfg.stream.producer with hround | hround <;> rw [hround] <;>
      simp only [follow, hphase, StreamState.goto, ProducerApp.goto]
    · exact h.move ⟨rfl, rfl, rfl, fun _ => rfl, fun hsome => absurd hopen hsome, rfl, by rintro ⟨⟩, fun _ _ => .inl rfl⟩
    · exact h.stay
        ⟨rfl, rfl, rfl, fun _ => rfl, fun hsome => absurd hopen hsome, by simp only [NextOk, hnext], by rintro ⟨⟩, by rintro _ ⟨⟩⟩
  | readPause hphase => exact h.readPause hphase
  | tryReserve hphase _ =>
    have hresting : s.stream.app.phase.resting = false := by rw [hphase]; rfl
    refine ⟨l, ?_⟩
    unfold ProducerApp.afterReserve
    split
    · simp only [follow, hphase, ProducerApp.goto]
      exact h.quietInside hnext hresting rfl rfl rfl
    · split
      · simp only [follow, hphase, ProducerApp.goto]
        exact h.quietInside hnext hresting rfl rfl rfl
      · split <;> simp only [follow, hphase, ProducerApp.goto]
        · exact h.moveInside hresting rfl rfl rfl rfl
        · exact h.quietInside hnext hresting rfl rfl rfl
  | wait hphase =>
    have hresting : s.stream.app.phase.resting = false := by rw [hphase]; rfl
    refine ⟨l, ?_⟩
    split <;> simp only [follow, hphase, StreamState.goto, ProducerApp.goto]
    · exact h.moveInside hresting rfl rfl rfl rfl
    · exact h.quietInside hnext hresting rfl rfl rfl
  | checkDeadline hphase =>
    have hresting : s.stream.app.phase.resting = false := by rw [hphase]; rfl
    refine ⟨l, ?_⟩
    split <;> simp only [follow, hphase, StreamState.goto, ProducerApp.goto]
    · exact h.moveInside hresting rfl rfl rfl rfl
    · exact h.quietInside hnext hresting rfl rfl rfl
  | build hphase _ =>
    refine ⟨l, ?_⟩
    simp only [follow, hphase, ProducerApp.doBuild]
    exact h.quietInside hnext (by rw [hphase]; rfl) rfl rfl rfl
  | writeSlot hphase _ =>
    refine ⟨l, ?_⟩
    simp only [follow, hphase, ProducerApp.goto]
    exact h.quietInside hnext (by rw [hphase]; rfl) rfl rfl rfl
  | commit hphase _ => exact ⟨l, h.commit hphase⟩
  | close hphase _ =>
    refine ⟨l, ?_⟩
    have hfollow (session : SessionState) : s.follow cfg ⟨session, s.stream.app.goto .closed⟩ =
        { s with stream := ⟨session, s.stream.app.goto .closed⟩ } := by
      rcases hphase with hp | hp <;> simp only [follow, hp, ProducerApp.goto]
    rw [hfollow]
    refine h.stay ⟨rfl, rfl, rfl, fun _ => rfl, fun _ => ⟨rfl, hnext⟩, by simp only [NextOk, hnext], by rintro ⟨⟩,
      fun hslots _ => ?_⟩
    rcases hphase with hp | hp
    · exact h.told hslots (by rw [hp]; rfl)
    · exact absurd (h.early (by rw [hp]; rfl)).2.1 hslots

/-- The steps of the session and of whoever controls `run`. -/
theorem other (h : s.Log cfg l) {a : StreamAction} (ha : ∀ b, a ≠ .producer b) {u : StreamState}
    (hstep : StreamState.StepSpec cfg.stream s.stream a u) : Log cfg { s with stream := u } l := by
  cases hstep with
  | setPaused | requestStop | consumer _ _ =>
    exact ⟨h.read, h.packets, h.bytes, h.paused, h.idle, h.resting, h.summary, h.placed, h.early, h.told⟩
  | _ => exact absurd rfl (ha _)

/-- In the loop and in a call of `wait_for_slot` nothing is over. -/
theorem resume (h : s.Log cfg l) (hphase : s.stream.app.phase = .loop ∨ s.stream.app.phase = .reserve false)
    (next : NextStep) (hplaced : NextOk { s with next := next }) : Log cfg { s with next := next } l := by
  have hinside : s.stream.app.phase.early = false ∧ s.stream.app.phase.ended = false := by
    rcases hphase with hp | hp <;> rw [hp] <;> exact ⟨rfl, rfl⟩
  have hopen := h.unfinished hinside.2
  refine h.move (u := s.stream) ⟨rfl, rfl, rfl, h.resting, fun hsome => absurd hopen hsome, hplaced, ?_, ?_⟩
  · rw [hinside.1]
    exact nofun
  · rw [hinside.2]
    exact fun _ => nofun

/-- The clock, the timer and the start of the window are not in the log. -/
theorem clocked (h : s.Log cfg l) (pace : PacedState) (timer : PeriodicTimer) (start started : Int) :
    Log cfg { s with pace := pace, timer := timer, window := { s.window with start := start }, started := started } l :=
  ⟨h.read, h.packets, h.bytes, h.paused, h.idle, h.resting, h.summary, h.placed, h.early, h.told⟩

theorem report (h : s.Log cfg l) (hring : s.stream.session.ring.Inv cfg.stream.session.cap)
    (hphase : s.stream.app.phase = .loop) {takeNow : Int} {load : Nat} {tail : U64}
    (htail : s.stream.session.ring.tailLoad load = some tail) {pace : PacedState} {timer : PeriodicTimer} :
    Log cfg (say { s with pace := pace, timer := timer, window := ⟨{}, takeNow⟩ } [.report (s.snapshot takeNow tail)] .stream)
      { l with packets := s.stream.app.sequence, bytes := s.stream.app.totalBytes, idle := l.paused } := by
  have hopen := h.unfinished (by rw [hphase]; rfl)
  have hcontinues : (s.snapshot takeNow tail).Continues cfg.stream.session.cap l := by
    refine ⟨h.packets.symm, h.bytes.symm, h.paused.symm, fun hidle => ?_, (hring.used_bounds htail).2, hring.producer.capacity⟩
    have hwindow := (h.idle hidle).1
    show s.window.counts.packets = 0 ∧ s.window.counts.bytes = 0
    rw [hwindow]
    exact ⟨rfl, rfl⟩
  have hstep : (logMachine cfg.stream.session.cap).step l (.report (s.snapshot takeNow tail)) =
      some { l with packets := s.stream.app.sequence, bytes := s.stream.app.totalBytes, idle := l.paused } := by
    simp only [logMachine, LogState.read, hopen, Option.isSome_none, Bool.false_eq_true, if_false, hcontinues, if_true]
    rfl
  refine ⟨h.append (by rw [Machine.run, hstep]; rfl), BitVec.add_zero _, BitVec.add_zero _, h.paused,
    fun hidle => ⟨rfl, hidle⟩, h.resting, fun sent hsent => ?_, trivial, fun hearly => ?_, fun _ hended => ?_⟩
  · rw [hopen] at hsent
    cases hsent
  · rw [say, hphase] at hearly
    cases hearly
  · rw [say, hphase] at hended
    cases hended

theorem summarize (h : s.Log cfg l) (hphase : s.stream.app.phase = .returned) (hnext : s.next = .summary) {elapsed : Int}
    {pace : PacedState} :
    Log cfg (say { s with pace := pace } [.summary s.stream.app.sequence s.stream.app.totalBytes elapsed] .stream)
      { l with summary := some (s.stream.app.sequence, s.stream.app.totalBytes), idle := false } := by
  have hopen : l.summary = none := by
    cases hsummary : l.summary with
    | none => rfl
    | some sent =>
      have hstream := (h.summary sent hsummary).2.2
      rw [hnext] at hstream
      cases hstream
  have hstep : (logMachine cfg.stream.session.cap).step l
      (.summary s.stream.app.sequence s.stream.app.totalBytes elapsed) =
      some { l with summary := some (s.stream.app.sequence, s.stream.app.totalBytes), idle := false } := by
    simp only [logMachine, LogState.read, hopen, Option.isSome_none, Bool.false_eq_true, if_false]
  refine ⟨h.append (by rw [Machine.run, hstep]; rfl), h.packets, h.bytes, h.paused, nofun, h.resting, fun sent hsent => ?_,
    trivial, fun hearly => ?_, fun _ _ => .inr rfl⟩
  · cases hsent
    exact ⟨rfl, by rw [say, hphase]; rfl, rfl⟩
  · rw [say, hphase] at hearly
    cases hearly

/-- Every step leaves a log that its reader accepts. -/
theorem step (h : s.Log cfg l) (hring : s.stream.session.ring.Inv cfg.stream.session.cap) {a : ReportAction}
    (hs : s.step cfg a = some t) : ∃ l', t.Log cfg l' := by
  have hplaced := h.placed
  cases StepSpec.of_step hs with
  | producer hnext hu => exact h.producer hnext (StreamState.StepSpec.of_step hu)
  | other ha hu => exact ⟨l, h.other ha (StreamState.StepSpec.of_step hu)⟩
  | start hnext _ _ _ =>
    simp only [NextOk, hnext] at hplaced
    obtain ⟨hphase, hwindow, -⟩ := hplaced
    have hfresh (start : Int) : (⟨{}, start⟩ : TimedWindow) = { s.window with start := start } := by rw [← hwindow]
    rw [hfresh]
    exact ⟨l, (h.resume (.inl hphase) .stream trivial).clocked _ _ _ _⟩
  | unlimited hnext _ =>
    simp only [NextOk, hnext] at hplaced
    exact ⟨l, h.resume (.inr hplaced) .stream trivial⟩
  | slot hnext _ =>
    simp only [NextOk, hnext] at hplaced
    refine ⟨l, ?_⟩
    -- the call goes on, or it has returned
    split
    · exact (h.resume (.inr hplaced) .limit hplaced).clocked _ _ _ _
    · exact (h.resume (.inr hplaced) .stream trivial).clocked _ _ _ _
  | notDue hnext _ _ =>
    simp only [NextOk, hnext] at hplaced
    exact ⟨l, (h.resume (.inl hplaced) .stream trivial).clocked _ _ _ _⟩
  | report hnext _ _ _ htail =>
    simp only [NextOk, hnext] at hplaced
    exact ⟨_, h.report hring hplaced htail⟩
  | summary hnext _ =>
    simp only [NextOk, hnext] at hplaced
    exact ⟨_, h.summarize hplaced hnext⟩

end Log

/-! ### The packets and the limiter -/

theorem follow_slots (s : ReportedRun) (u : StreamState) : (s.follow cfg u).slots =
    s.slots ++ if s.stream.app.phase = .build [] then [s.pace.calls.length - 1] else [] := by
  by_cases hphase : s.stream.app.phase = .build []
  · simp only [follow, hphase, if_true]
  · rw [if_neg hphase, List.append_nil]
    unfold follow
    split <;> first | rfl | contradiction

theorem follow_pace (s : ReportedRun) (u : StreamState) : (s.follow cfg u).pace = s.pace := by
  unfold follow
  split <;> rfl

/-- Every commit has its slot. -/
theorem slots_length_step (hinv : s.stream.Inv cfg.stream) (hslots : s.slots.length = s.stream.committedCount)
    {a : ReportAction} (hs : s.step cfg a = some t) : t.slots.length = t.stream.committedCount := by
  cases StepSpec.of_step hs with
  | producer _ hu =>
    rw [follow_slots, follow_stream, List.length_append, hslots]
    by_cases hphase : s.stream.app.phase = .build []
    · obtain ⟨ring, hop, rfl⟩ := StreamState.step_of_built (StreamState.StepSpec.of_step hu) hphase
      rw [if_pos hphase]
      exact (StreamState.committedCount_commit hinv hphase hop).symm
    · rw [if_neg hphase, StreamState.committedCount_same hu fun hp => absurd hp hphase]
      rfl
  | other ha hu =>
    rw [StreamState.committedCount_same hu fun _ => ha _]
    exact hslots
  | _ => exact hslots

end ReportedRun

namespace ProducerPhase

/-- From the return of `wait_for_slot` to the commit. -/
def paced : ProducerPhase → Bool
  | reserve _ | wait | expire | stamp | build _ => true
  | _ => false

end ProducerPhase

namespace ReportedRun

variable {cfg : ReportSetup} {s t : ReportedRun}

/-- The call of `wait_for_slot` has returned, and its packet is not committed yet. -/
def HoldsSlot (s : ReportedRun) : Prop := s.next = .stream ∧ s.stream.app.phase.paced = true

/-- There is no call of `wait_for_slot` any more if `run` is to stop. -/
def PastSlot (s : ReportedRun) : Prop := s.HoldsSlot ∨ s.stream.app.phase = .loop ∨ s.stream.app.phase.ended = true

theorem not_pastSlot (hresting : s.stream.app.phase.paced = false) (hloop : s.stream.app.phase ≠ .loop)
    (hended : s.stream.app.phase.ended = false) : ¬s.PastSlot := by
  rintro (⟨-, hheld⟩ | hp | hp)
  · rw [hresting] at hheld
    cases hheld
  · exact hloop hp
  · rw [hended] at hp
    cases hp

/-- Only `wait_for_slot` brings `run` to a packet. -/
theorem holdsSlot_follow (hnext : s.next = .stream) {a : ProducerAction} {u : StreamState}
    (hstep : StreamState.StepSpec cfg.stream s.stream (.producer a) u) (h : (s.follow cfg u).HoldsSlot) : s.HoldsSlot := by
  obtain ⟨hstream, hpaced⟩ := h
  rw [follow_stream] at hpaced
  cases hstep with
  | checkSize _ =>
    simp only [StreamState.goto, ProducerApp.goto, ProducerApp.checkSize] at hpaced
    split at hpaced
    · cases hpaced
    · split at hpaced <;> cases hpaced
  | waitForPeer _ | pollPeer _ =>
    simp only [StreamState.goto, ProducerApp.goto] at hpaced
    split at hpaced <;> cases hpaced
  | loop _ =>
    simp only [StreamState.goto, ProducerApp.goto] at hpaced
    rcases s.stream.app.nextRound_cases cfg.stream.producer with hround | hround <;> rw [hround] at hpaced <;> cases hpaced
  | readPause hphase =>
    -- what follows is a round of `wait_for_slot`
    simp only [follow, hphase, say, ProducerApp.doReadPause] at hstream hpaced
    by_cases hpaused : s.stream.app.paused = true
    · rw [if_pos hpaused] at hpaced
      cases hpaced
    · rw [if_neg hpaused] at hstream
      cases hstream
  | tryReserve hphase _ | wait hphase | checkDeadline hphase | build hphase _ | writeSlot hphase _ | commit hphase _ =>
    exact ⟨hnext, by rw [hphase]; rfl⟩
  | close _ _ => cases hpaced

/-- While `run` is to stop it does not come to another packet. -/
theorem pastSlot_follow (hnext : s.next = .stream) (hstop : s.stream.app.stop = true) {a : ProducerAction} {u : StreamState}
    (hstep : StreamState.StepSpec cfg.stream s.stream (.producer a) u) (h : s.PastSlot) : (s.follow cfg u).PastSlot := by
  cases hstep with
  | checkSize hphase | waitForPeer hphase | pollPeer hphase | readPause hphase =>
    exact absurd h (not_pastSlot (by rw [hphase]; rfl) (by rw [hphase]; nofun) (by rw [hphase]; rfl))
  | loop hphase =>
    refine .inr (.inr ?_)
    rw [follow_stream]
    simp only [StreamState.goto, ProducerApp.goto, ProducerApp.nextRound, hstop, if_true]
    rfl
  | tryReserve hphase _ =>
    unfold ProducerApp.afterReserve
    split
    · simp only [follow, hphase, ProducerApp.goto]
      exact .inl ⟨hnext, rfl⟩
    · split
      · simp only [follow, hphase, ProducerApp.goto]
        exact .inl ⟨hnext, rfl⟩
      · split <;> simp only [follow, hphase, ProducerApp.goto]
        · exact .inr (.inl rfl)
        · exact .inl ⟨hnext, rfl⟩
  | wait hphase =>
    simp only [hstop, if_true, follow, hphase, StreamState.goto, ProducerApp.goto]
    exact .inr (.inl rfl)
  | checkDeadline hphase =>
    split <;> simp only [follow, hphase, StreamState.goto, ProducerApp.goto]
    · exact .inr (.inl rfl)
    · exact .inl ⟨hnext, rfl⟩
  | build hphase _ =>
    simp only [follow, hphase, ProducerApp.doBuild]
    exact .inl ⟨hnext, rfl⟩
  | writeSlot hphase _ =>
    simp only [follow, hphase, ProducerApp.goto]
    exact .inl ⟨hnext, rfl⟩
  | commit hphase _ =>
    simp only [follow, hphase, ProducerApp.afterCommit]
    exact .inr (.inl rfl)
  | close hphase _ =>
    refine .inr (.inr ?_)
    rw [follow_stream]
    rfl

/-- The packets and the calls of `wait_for_slot`, which keep the cadence but for one that a stop has cut short. -/
structure Cadenced (cfg : ReportSetup) (s : ReportedRun) : Prop where
  interval : s.pace.limiter.interval = cfg.sendInterval
  sorted : s.slots.Pairwise (· < ·)
  taken : ∀ k ∈ s.slots, k < s.pace.calls.length
  held : s.HoldsSlot → 0 < s.pace.calls.length ∧ ∀ k ∈ s.slots, k + 1 < s.pace.calls.length
  cadence : s.pace.Paced cfg.sendInterval ∨ ∃ m, m + 1 = s.pace.calls.length ∧
    Cadence.Keeps cfg.sendInterval s.pace.scheduledAt s.pace.returnedAt m ∧ s.stream.app.stop = true ∧ s.PastSlot

namespace Cadenced

/-- What a step leaves of the cadence when it leaves the calls as they are. -/
theorem cadence_keep (h : s.Cadenced cfg) (hpace : t.pace.calls = s.pace.calls ∧ t.pace.limiter = s.pace.limiter)
    (hstop : s.stream.app.stop = true → t.stream.app.stop = true ∧ (s.PastSlot → t.PastSlot)) :
    t.pace.Paced cfg.sendInterval ∨ ∃ m, m + 1 = t.pace.calls.length ∧
      Cadence.Keeps cfg.sendInterval t.pace.scheduledAt t.pace.returnedAt m ∧ t.stream.app.stop = true ∧ t.PastSlot := by
  obtain ⟨hcalls, hlimiter⟩ := hpace
  have hscheduled : t.pace.scheduledAt = s.pace.scheduledAt := by
    funext k
    rw [PacedState.scheduledAt, PacedState.scheduledAt, hcalls, hlimiter]
  have hreturned : t.pace.returnedAt = s.pace.returnedAt := by
    funext k
    rw [PacedState.returnedAt, PacedState.returnedAt, hcalls]
  rw [hscheduled, hreturned, hcalls]
  rcases h.cadence with hpaced | ⟨m, hm, hkeeps, hs, hp⟩
  · left
    refine ⟨hlimiter ▸ hpaced.interval_eq, ?_⟩
    rw [hscheduled, hreturned, hcalls]
    exact hpaced.keeps
  · exact .inr ⟨m, hm, hkeeps, (hstop hs).1, (hstop hs).2 hp⟩

/-- A step that leaves the calls and the packets as they are. -/
theorem keep (h : s.Cadenced cfg) (hpace : t.pace.calls = s.pace.calls ∧ t.pace.limiter = s.pace.limiter)
    (hslots : t.slots = s.slots) (hheld : t.HoldsSlot → s.HoldsSlot)
    (hstop : s.stream.app.stop = true → t.stream.app.stop = true ∧ (s.PastSlot → t.PastSlot)) : t.Cadenced cfg := by
  refine ⟨hpace.2 ▸ h.interval, hslots ▸ h.sorted, ?_, fun ht => ?_, h.cadence_keep hpace hstop⟩
  · rw [hslots, hpace.1]
    exact h.taken
  · rw [hslots, hpace.1]
    exact h.held (hheld ht)

theorem producer (h : s.Cadenced cfg) (hnext : s.next = .stream) {a : ProducerAction} {u : StreamState}
    (hstep : StreamState.StepSpec cfg.stream s.stream (.producer a) u) : (s.follow cfg u).Cadenced cfg := by
  have hpace : (s.follow cfg u).pace.calls = s.pace.calls ∧ (s.follow cfg u).pace.limiter = s.pace.limiter := by
    rw [follow_pace]
    exact ⟨rfl, rfl⟩
  have hstop (hs : s.stream.app.stop = true) :
      (s.follow cfg u).stream.app.stop = true ∧ (s.PastSlot → (s.follow cfg u).PastSlot) := by
    refine ⟨?_, pastSlot_follow hnext hs hstep⟩
    rw [follow_stream, StreamState.stop_producer hstep, hs]
  have hheld : (s.follow cfg u).HoldsSlot → s.HoldsSlot := holdsSlot_follow hnext hstep
  have hslots : (s.follow cfg u).slots = _ := s.follow_slots u
  by_cases hphase : s.stream.app.phase = .build []
  · -- the packet takes the slot that is held
    obtain ⟨hlen, hbelow⟩ := h.held ⟨hnext, by rw [hphase]; rfl⟩
    rw [if_pos hphase] at hslots
    refine ⟨hpace.2 ▸ h.interval, ?_, fun k hk => ?_, fun ht => ?_, h.cadence_keep hpace hstop⟩
    · rw [hslots, List.pairwise_append]
      refine ⟨h.sorted, List.pairwise_singleton _ _, fun k hk k' hk' => ?_⟩
      have := hbelow k hk
      obtain rfl := List.mem_singleton.1 hk'
      omega
    · rw [hpace.1]
      rw [hslots, List.mem_append, List.mem_singleton] at hk
      rcases hk with hk | rfl
      · exact h.taken k hk
      · omega
    · obtain ⟨-, hpaced⟩ := ht
      obtain ⟨ring, -, rfl⟩ := StreamState.step_of_built hstep hphase
      rw [follow_stream] at hpaced
      cases hpaced
  · rw [if_neg hphase, List.append_nil] at hslots
    exact h.keep hpace hslots hheld hstop

/-- A round of `wait_for_slot`. -/
theorem slot (h : s.Cadenced cfg) (hnext : s.next = .limit)
    (hphase : s.stream.app.phase = .reserve false) {now : Int} {pace : PacedState}
    (hs : s.pace.step ⟨now, s.stream.app.stop⟩ = some pace) :
    Cadenced cfg
      { s with pace := pace, next := if pace.calls.length = s.pace.calls.length then .limit else .stream } := by
  have hbefore : ¬s.PastSlot := by
    rintro (⟨hstream, -⟩ | hp | hp)
    · rw [hnext] at hstream
      cases hstream
    · rw [hphase] at hp
      cases hp
    · rw [hphase] at hp
      cases hp
  have hpaced : s.pace.Paced cfg.sendInterval := by
    rcases h.cadence with hpaced | ⟨_, _, _, _, hp⟩
    · exact hpaced
    · exact absurd hp hbefore
  rcases PacedState.step_split hs with rfl | rfl
  · refine h.keep ⟨rfl, rfl⟩ rfl ?_ fun hstop => ⟨hstop, fun hp => absurd hp hbefore⟩
    rintro ⟨hstream, -⟩
    rw [if_pos rfl] at hstream
    cases hstream
  · have hlen : (s.pace.returned now).calls.length = s.pace.calls.length + 1 := by simp [PacedState.returned]
    rw [hlen, if_neg (Nat.succ_ne_self _)]
    refine ⟨h.interval, h.sorted, fun k hk => ?_, fun _ => ⟨?_, fun k hk => ?_⟩, ?_⟩
    · rw [hlen]
      exact Nat.lt_succ_of_lt (h.taken k hk)
    · rw [hlen]
      exact Nat.succ_pos _
    · rw [hlen]
      exact Nat.succ_lt_succ (h.taken k hk)
    · cases hstop : s.stream.app.stop with
      | false =>
        left
        rw [hstop] at hs
        exact hpaced.step rfl hs
      | true => exact .inr ⟨_, hlen.symm, hpaced.early now, rfl, .inl ⟨rfl, by rw [hphase]; rfl⟩⟩

theorem step (h : s.Cadenced cfg) (hpos : 0 < cfg.sendInterval) (hplaced : s.NextOk) {a : ReportAction}
    (hs : s.step cfg a = some t) : t.Cadenced cfg := by
  cases StepSpec.of_step hs with
  | producer hnext hu => exact h.producer hnext (StreamState.StepSpec.of_step hu)
  | other ha hu =>
    cases StreamState.StepSpec.of_step hu with
    | setPaused | consumer _ _ => exact h.keep ⟨rfl, rfl⟩ rfl id fun hstop => ⟨hstop, id⟩
    | requestStop => exact h.keep ⟨rfl, rfl⟩ rfl id fun _ => ⟨rfl, id⟩
    | _ => exact absurd rfl (ha _)
  | start hnext _ _ _ =>
    simp only [NextOk, hnext] at hplaced
    refine h.keep ⟨rfl, rfl⟩ rfl ?_ fun hstop => ⟨hstop, fun _ => .inr (.inl hplaced.1)⟩
    rintro ⟨-, hpaced⟩
    rw [readClock, hplaced.1] at hpaced
    cases hpaced
  | unlimited hnext hdisabled =>
    rw [RateLimiter.enabled, h.interval] at hdisabled
    exact absurd hpos (by simpa using hdisabled)
  | slot hnext hpace =>
    simp only [NextOk, hnext] at hplaced
    exact h.slot hnext hplaced hpace
  | notDue hnext _ _ =>
    simp only [NextOk, hnext] at hplaced
    refine h.keep ⟨rfl, rfl⟩ rfl ?_ fun hstop => ⟨hstop, fun _ => .inr (.inl hplaced)⟩
    rintro ⟨-, hpaced⟩
    rw [readClock, hplaced] at hpaced
    cases hpaced
  | report hnext _ _ _ _ =>
    simp only [NextOk, hnext] at hplaced
    refine h.keep ⟨rfl, rfl⟩ rfl ?_ fun hstop => ⟨hstop, fun _ => .inr (.inl hplaced)⟩
    rintro ⟨-, hpaced⟩
    rw [say, readClock, hplaced] at hpaced
    cases hpaced
  | summary hnext _ =>
    simp only [NextOk, hnext] at hplaced
    refine h.keep ⟨rfl, rfl⟩ rfl ?_ fun hstop => ⟨hstop, fun _ => .inr (.inr ?_)⟩
    · rintro ⟨-, hpaced⟩
      rw [say, readClock, hplaced] at hpaced
      cases hpaced
    · rw [say, readClock, hplaced]
      rfl

theorem init (h : s.Initial cfg) : s.Cadenced cfg := by
  obtain ⟨hstream, -, ⟨now, hpace⟩, -, -, hslots⟩ := h
  have hinterval : (RateLimiter.new cfg.sendPeriod now).interval = cfg.sendInterval := by
    unfold ReportSetup.sendInterval RateLimiter.new
    cases cfg.sendPeriod <;> rfl
  refine ⟨?_, ?_, ?_, fun hheld => ?_, .inl ?_⟩
  · rw [hpace]
    exact hinterval
  · rw [hslots]
    exact List.Pairwise.nil
  · rw [hslots]
    exact nofun
  · obtain ⟨-, hpaced⟩ := hheld
    rw [hstream.2.1] at hpaced
    cases hpaced
  · rw [hpace, ← hinterval]
    exact ⟨rfl, fun k hk => absurd hk (Nat.not_lt_zero k), fun k hk => absurd hk (Nat.not_lt_zero k)⟩

end Cadenced

/-! ### What holds in every run -/

theorem Log.init (h : s.Initial cfg) : s.Log cfg {} := by
  obtain ⟨hstream, hnext, -, hwindow, hmessages, hslots⟩ := h
  obtain ⟨-, hphase, hpaused, hsequence, hbytes⟩ := hstream
  refine ⟨?_, ?_, ?_, hpaused.symm, nofun, fun hp => ?_, nofun, ?_, fun _ => ⟨hwindow, hslots, hnext⟩, fun hne => ?_⟩
  · rw [hmessages]
    rfl
  · rw [hwindow, hsequence]
    rfl
  · rw [hwindow, hbytes]
    rfl
  · rw [hpaused] at hp
    cases hp
  · simp only [NextOk, hnext]
  · exact absurd hslots hne

/-- The invariant of a reported run. -/
structure Inv (cfg : ReportSetup) (s : ReportedRun) : Prop where
  stream : s.stream.Inv cfg.stream
  count : s.slots.length = s.stream.committedCount
  log : ∃ l, s.Log cfg l
  cadenced : 0 < cfg.sendInterval → s.Cadenced cfg

theorem Inv.of_reachable (hheader : 32 ≤ cfg.stream.producer.recordSize.toNat) (h : (reportMachine cfg).Reachable s) :
    s.Inv cfg := by
  have hstream {s : ReportedRun} (h : (reportMachine cfg).Reachable s) : s.stream.Inv cfg.stream :=
    StreamState.Inv.of_reachable hheader (stream_reachable h)
  suffices hall : (reportMachine cfg).Reachable s ∧ s.Inv cfg from hall.2
  induction h with
  | init h =>
    refine ⟨.init h, hstream (.init h), ?_, ⟨_, Log.init h⟩, fun _ => Cadenced.init h⟩
    rw [h.2.2.2.2.2, StreamState.committedCount, h.1.1.1.2]
    rfl
  | step _ _ hs ih =>
    obtain ⟨hreach, hinv⟩ := ih
    obtain ⟨l, hlog⟩ := hinv.log
    have hnext := hreach.step hs
    exact ⟨hnext, hstream hnext, slots_length_step hinv.stream hinv.count hs, hlog.step hinv.stream.ring hs,
      fun hpos => (hinv.cadenced hpos).step hpos hlog.placed hs⟩

/-- The reading of the clock with which the call of `wait_for_slot` for packet number `i` returned. -/
def releasedAt (s : ReportedRun) (i : Nat) : Int := s.pace.returnedAt ((s.slots[i]?).getD 0)

/-- Numbers that increase do so by one at least. -/
theorem add_le_of_sorted {slots : List Nat} (h : slots.Pairwise (· < ·)) {i d : Nat} (hd : i + d < slots.length) :
    slots[i] + d ≤ slots[i + d] := by
  induction d with
  | zero => exact Nat.le_refl _
  | succ d ih =>
    have hle := ih (by omega)
    have hlt := List.pairwise_iff_getElem.1 h (i + d) (i + (d + 1)) (by omega) hd (by omega)
    omega

/-- The totals of the reports in a log. -/
theorem sum_intervals {cap : Capacity} {l l' : LogState} {messages : List ProducerMessage}
    (h : (logMachine cap).run l messages = some l') :
    l'.packets = l.packets + (((messages.filterMap ProducerMessage.snapshot?).map fun r => r.interval.packets).sum) ∧
    l'.bytes = l.bytes + (((messages.filterMap ProducerMessage.snapshot?).map fun r => r.interval.bytes).sum) := by
  induction messages generalizing l with
  | nil =>
    cases h
    exact ⟨(BitVec.add_zero _).symm, (BitVec.add_zero _).symm⟩
  | cons message messages ih =>
    obtain ⟨m, hm, hrest⟩ := Machine.run_cons h
    obtain ⟨hpackets, hbytes⟩ := ih hrest
    rw [hpackets, hbytes]
    simp only [logMachine, LogState.read, Option.ite_none_left_eq_some] at hm
    obtain ⟨-, hm⟩ := hm
    cases message with
    | info _ | summary _ _ _ =>
      cases hm
      exact ⟨rfl, rfl⟩
    | stateChanged paused =>
      obtain ⟨-, hm⟩ := Option.ite_none_left_eq_some.1 hm
      cases hm
      exact ⟨rfl, rfl⟩
    | report snapshot =>
      obtain ⟨hcontinues, hm⟩ := Option.ite_none_right_eq_some.1 hm
      cases hm
      simp only [List.filterMap_cons, ProducerMessage.snapshot?, List.map_cons, List.sum_cons]
      rw [hcontinues.1, hcontinues.2.1]
      exact ⟨BitVec.add_assoc .., BitVec.add_assoc ..⟩

end ReportedRun

/-- The producer logs a consistent account of its stream, under every interleaving with the sessions, with whoever pauses
and stops it and with the clock.  Every report goes on from the last one, tells of the pause as the last change did, shows
no more in the queue than it holds, and between two reports of one pause shows nothing sent.  The intervals of the
reports and the open window add up to the committed packets; the summary is the last message and has the final totals;
and a producer that has committed a packet does not end without it. -/
theorem producer_log (cfg : ReportSetup) (hfits : kHeaderSize + cfg.stream.producer.payloadSize.toNat < 2 ^ 64)
    {s : ReportedRun} (h : (reportMachine cfg).Reachable s) :
    ∃ l, (logMachine cfg.stream.session.cap).run {} s.messages = some l ∧
      (s.reports.map fun r => r.interval.packets).sum + s.window.counts.packets =
        BitVec.ofNat 64 s.stream.committedCount ∧
      (s.reports.map fun r => r.interval.bytes).sum + s.window.counts.bytes =
        BitVec.ofNat 64 (s.stream.committedCount * (kHeaderSize + cfg.stream.producer.payloadSize.toNat)) ∧
      (∀ sent, l.summary = some sent → sent = (BitVec.ofNat 64 s.stream.committedCount,
        BitVec.ofNat 64 (s.stream.committedCount * (kHeaderSize + cfg.stream.producer.payloadSize.toNat)))) ∧
      (0 < s.stream.committedCount → s.stream.app.phase = .closed → l.summary.isSome = true) := by
  have hrecord := ProducerConfig.recordSize_toNat hfits
  have hinv := ReportedRun.Inv.of_reachable (by rw [hrecord, kHeaderSize]; omega) h
  have hsequence : s.stream.app.sequence = BitVec.ofNat 64 s.stream.committedCount := hinv.stream.app.sequence
  have htotal : s.stream.app.totalBytes =
      BitVec.ofNat 64 (s.stream.committedCount * (kHeaderSize + cfg.stream.producer.payloadSize.toNat)) := by
    rw [hinv.stream.app.totalBytes, ← hrecord, BitVec.ofNat_mul, BitVec.ofNat_toNat, BitVec.setWidth_eq]
    rfl
  obtain ⟨l, hlog⟩ := hinv.log
  obtain ⟨hpackets, hbytes⟩ := ReportedRun.sum_intervals hlog.read
  rw [show ({} : LogState).packets = 0#64 from rfl, BitVec.zero_add] at hpackets
  rw [show ({} : LogState).bytes = 0#64 from rfl, BitVec.zero_add] at hbytes
  refine ⟨l, hlog.read, ?_, ?_, fun sent hsent => ?_, fun hsent hclosed => ?_⟩
  · rw [← hsequence, ← hlog.packets, hpackets]
    rfl
  · rw [← htotal, ← hlog.bytes, hbytes]
    rfl
  · rw [(hlog.summary sent hsent).1, hsequence, htotal]
  · have hslots : s.slots ≠ [] := by
      rw [← List.length_pos_iff, hinv.count]
      exact hsent
    rcases hlog.told hslots (by rw [hclosed]; rfl) with hnext | hsome
    · have hplaced := hlog.placed
      simp only [ReportedRun.NextOk, hnext, hclosed] at hplaced
      cases hplaced
    · exact hsome

/-- A producer of three packets with a payload of one byte, one every 10 ticks, that reports every 20 ticks. -/
def ReportSetup.threePackets : ReportSetup :=
  ⟨⟨{ SessionSetup.polling with cap := capacity128 }, ⟨1, 3, 0, false⟩⟩, 20, some 10, "ring"⟩

def ReportedRun.fresh (cfg : ReportSetup) : ReportedRun :=
  ⟨.fresh cfg.stream, .stream, .initial (.new cfg.sendPeriod 0) 0, .new cfg.reportInterval 0, ⟨{}, 0⟩, 0, [], []⟩

theorem ReportedRun.fresh_initial (cfg : ReportSetup) : (fresh cfg).Initial cfg :=
  ⟨StreamState.fresh_initial _, rfl, ⟨0, rfl⟩, rfl, rfl, rfl⟩

/-- One packet: the calls of `wait_for_slot` with these readings, 37 stores of the builder, and `report_if_due`. -/
def pacedPacket (slots : List Int) (now : Int) : List ReportAction :=
  [.stream (.producer .advance), .stream (.producer .advance)] ++ slots.map .slot ++
    [.stream (.producer (.tryReserve 0)), .stream (.producer (.build 5))] ++
    List.replicate 38 (.stream (.producer .advance)) ++ [.report now now 0]

/-- All three, the second and the third call in two rounds, and the end. -/
def threePacketsReported : List ReportAction :=
  [.stream (.producer .advance), .start 0 0 0] ++ pacedPacket [0] 1 ++ pacedPacket [5, 12] 13 ++ pacedPacket [14, 25] 26 ++
    [.stream (.producer .advance), .summary 30, .stream (.producer .advance)]

/-- A round of the loop while the stream is paused. -/
def pausedRound (now : Int) : List ReportAction :=
  [.stream (.producer .advance), .stream (.producer .advance), .report now now 0]

/-- The same with a pause after the second packet, long enough for two reports. -/
def threePacketsPaused : List ReportAction :=
  [.stream (.producer .advance), .start 0 0 0] ++ pacedPacket [0] 1 ++ pacedPacket [5, 12] 13 ++
    [.stream (.setPaused true)] ++ pausedRound 22 ++ pausedRound 43 ++ [.stream (.setPaused false)] ++
    pacedPacket [50] 51 ++ [.stream (.producer .advance), .summary 60, .stream (.producer .advance)]

theorem producer_log_paused : ∃ s,
    (reportMachine .threePackets).run (.fresh .threePackets) threePacketsPaused = some s ∧
      s.messages.drop 2 =
        [.stateChanged true, .report ⟨2, 66, ⟨2, 66, 22⟩, 74, 128, true⟩, .report ⟨2, 66, ⟨0, 0, 21⟩, 74, 128, true⟩,
          .stateChanged false, .summary 3 99 60] ∧
      (s.reports.map fun r => r.interval.packets).sum + s.window.counts.packets = 3 := by
  have hrun : ((reportMachine .threePackets).run (.fresh .threePackets) threePacketsPaused).map
      (fun s => (s.stream.committedCount, s.messages.drop 2)) =
      some (3, [.stateChanged true, .report ⟨2, 66, ⟨2, 66, 22⟩, 74, 128, true⟩,
        .report ⟨2, 66, ⟨0, 0, 21⟩, 74, 128, true⟩, .stateChanged false, .summary 3 99 60]) := by
    decide +kernel
  obtain ⟨s, hs, hview⟩ := Option.map_eq_some_iff.1 hrun
  obtain ⟨hcount, hmessages⟩ := Prod.mk.inj hview
  obtain ⟨l, -, hpackets, -⟩ :=
    producer_log .threePackets (by decide) ((Machine.Reachable.init (ReportedRun.fresh_initial _)).run hs)
  rw [hcount] at hpackets
  exact ⟨s, hs, hmessages, hpackets⟩

/-- The limiter spaces the packets.  From one to a later one pass more than the intervals between them less one, whatever
the queue, the pauses and the scheduler did meanwhile; only the last packet after a stop request may come early. -/
theorem packets_paced (cfg : ReportSetup) (hfits : kHeaderSize + cfg.stream.producer.payloadSize.toNat < 2 ^ 64)
    (hpos : 0 < cfg.sendInterval) {s : ReportedRun} (h : (reportMachine cfg).Reachable s) {i j : Nat} (hij : i < j)
    (hj : j < s.stream.committedCount) (hlast : s.stream.app.stop = false ∨ j + 1 < s.stream.committedCount) :
    ((j : Int) - i - 1) * cfg.sendInterval < s.releasedAt j - s.releasedAt i := by
  have hrecord := ProducerConfig.recordSize_toNat hfits
  have hinv := ReportedRun.Inv.of_reachable (by rw [hrecord, kHeaderSize]; omega) h
  have hcadenced := hinv.cadenced hpos
  rw [← hinv.count] at hj hlast
  -- the call for the later packet is one that keeps the cadence
  obtain ⟨m, hkeeps, hm⟩ : ∃ m, Cadence.Keeps cfg.sendInterval s.pace.scheduledAt s.pace.returnedAt m ∧ s.slots[j] < m := by
    rcases hcadenced.cadence with hpaced | ⟨m, hm, hkeeps, hstop, -⟩
    · exact ⟨_, hpaced.keeps, hcadenced.taken _ (List.getElem_mem hj)⟩
    · rcases hlast with hgo | hmore
      · rw [hstop] at hgo
        cases hgo
      · have hnext := List.pairwise_iff_getElem.1 hcadenced.sorted j (j + 1) hj hmore (Nat.lt_succ_self j)
        have htaken := hcadenced.taken _ (List.getElem_mem hmore)
        exact ⟨m, hkeeps, by omega⟩
  obtain ⟨d, rfl⟩ : ∃ d, j = i + d + 1 := ⟨j - i - 1, by omega⟩
  have hi : i < s.slots.length := by omega
  have hsorted : s.slots[i] + (d + 1) ≤ s.slots[i + d + 1] := ReportedRun.add_le_of_sorted (i := i) (d := d + 1) hcadenced.sorted hj
  obtain ⟨e, he⟩ : ∃ e, s.slots[i + d + 1] = s.slots[i] + (d + e) + 1 := ⟨s.slots[i + d + 1] - s.slots[i] - d - 1, by omega⟩
  have hspaced := hkeeps.spaced hpos (i := s.slots[i]) (d := d + e) (by omega)
  rw [← he, nsmul_eq_mul] at hspaced
  have hless : ((i + d + 1 : Nat) : Int) - i - 1 ≤ ((d + e : Nat) : Int) := by omega
  rw [ReportedRun.releasedAt, ReportedRun.releasedAt, List.getElem?_eq_getElem hj, List.getElem?_eq_getElem hi,
    Option.getD_some, Option.getD_some]
  exact lt_of_le_of_lt (Int.mul_le_mul_of_nonneg_right hless (le_of_lt hpos)) hspaced

theorem packets_paced_three_packets : ∃ s,
    (reportMachine .threePackets).run (.fresh .threePackets) threePacketsReported = some s ∧
      ((2 : Nat) - (0 : Nat) - 1 : Int) * 10 < s.releasedAt 2 - s.releasedAt 0 := by
  have hrun : ((reportMachine .threePackets).run (.fresh .threePackets) threePacketsReported).map
      (fun s => (s.stream.committedCount, s.stream.app.stop)) = some (3, false) := by
    decide +kernel
  obtain ⟨s, hs, hend⟩ := Option.map_eq_some_iff.1 hrun
  obtain ⟨hcount, hstop⟩ := Prod.mk.inj hend
  exact ⟨s, hs, packets_paced .threePackets (by decide) (by decide)
    ((Machine.Reachable.init (ReportedRun.fresh_initial _)).run hs) (by decide) (by rw [hcount]; decide) (.inl hstop)⟩

end ProducerConsumer
