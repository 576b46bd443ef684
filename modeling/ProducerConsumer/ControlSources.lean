import Mathlib.Data.List.Count
import Mathlib.Logic.Function.Basic
import ProducerConsumer.Lib.Descent
import ProducerConsumer.Ring

/-!
# The control of a process

`RunControl` with the two sources that drive it, `SignalControlSource` and `KeyboardControlSource`, each of them with a
thread of its own and a destructor.  Signals and keys come at any time.  Every access to what the threads share is a step
of its own; `sigwait` may take any of the pending signals, and a signal that is raised while it is pending is not queued.
-/

namespace ProducerConsumer

open Transition

/-! ### The model -/

/-- `RunControl`: the state of `stop_source_`, and `paused_`. -/
structure RunControl where
  stop : Bool
  paused : U32
deriving DecidableEq

inductive ControlOp
  | requestStop
  | pause
  | resume
  | togglePause
deriving DecidableEq

namespace RunControl

def requestStop (control : RunControl) : RunControl := { control with stop := true }

def pause (control : RunControl) : RunControl := { control with paused := 1 }

def resume (control : RunControl) : RunControl := { control with paused := 0 }

def togglePause (control : RunControl) : RunControl := { control with paused := control.paused ^^^ 1 }

/-- `paused`. -/
def isPaused (control : RunControl) : Bool := control.paused != 0

def apply (control : RunControl) : ControlOp → RunControl
  | .requestStop => control.requestStop
  | .pause => control.pause
  | .resume => control.resume
  | .togglePause => control.togglePause

end RunControl

/-- The signals that `SignalControlSource` blocks and waits for. -/
inductive Signal
  | SIGINT
  | SIGTERM
  | SIGHUP
  | SIGUSR1
  | SIGUSR2
deriving DecidableEq, Repr

def Signal.op : Signal → ControlOp
  | SIGINT | SIGTERM | SIGHUP => .requestStop
  | SIGUSR1 => .pause
  | SIGUSR2 => .resume

def keyOp (key : U8) : ControlOp :=
  if key = BitVec.ofNat 8 'q'.toNat ∨ key = BitVec.ofNat 8 'Q'.toNat then .requestStop else .togglePause

/-- Where the thread of a `SignalControlSource` is: in `sigwait`, before the load of `stopping_`, or before the call on the
control. -/
inductive SignalPhase
  | sigwait
  | check (sig : Signal)
  | act (sig : Signal)
  | returned
deriving DecidableEq

/-- How far the destructor of a `SignalControlSource` has come: not called, to `pthread_kill`, to the join, to its end. -/
inductive SignalLife
  | alive
  | kill
  | join
  | destroyed
deriving DecidableEq

/-- A `SignalControlSource` with the signals that are pending for the process, and those for its thread alone. -/
structure SignalControlSource where
  pending : Signal → Bool
  woken : Signal → Bool
  stopping : Bool
  phase : SignalPhase
  life : SignalLife

/-- Where the thread of a `KeyboardControlSource` is.  The head of its loop reads the stop token of the thread and then
the control. -/
inductive KeyboardPhase
  | loop
  | checkControl
  | poll
  | read
  | act (key : U8)
  | returned
deriving DecidableEq

/-- How far the destructor of a `KeyboardControlSource` has come: not called, to the join of the thread, to the destructor
of the terminal, to its end. -/
inductive KeyboardLife
  | alive
  | join
  | restore
  | destroyed
deriving DecidableEq

/-- The attributes of a terminal that `RawTerminal` changes. -/
structure Termios where
  lflag : U32
  vmin : U8
  vtime : U8
deriving DecidableEq

def ICANON : U32 := 0x2

def ECHO : U32 := 0x8

def Termios.raw (saved : Termios) : Termios := ⟨saved.lflag &&& ~~~(ICANON ||| ECHO), 1, 0⟩

/-- A `KeyboardControlSource` with its `RawTerminal`. -/
structure KeyboardControlSource where
  phase : KeyboardPhase
  stop : Bool
  saved : Termios
  life : KeyboardLife

/-- Whether the thread may still read a key without a look at the control. -/
def KeyboardPhase.reading : KeyboardPhase → Bool
  | .poll | .read | .act _ => true
  | _ => false

/-- The key that the thread of the keyboard has read and not handled. -/
def KeyboardControlSource.inHand (k : KeyboardControlSource) : List U8 :=
  match k.phase with
  | .act key => [key]
  | _ => []

/-- What happens to the sources and by them. -/
inductive ControlEvent
  | raised (sig : Signal)
  | typed (key : U8)
  | signal (sig : Signal)
  | key (key : U8)
deriving DecidableEq

/-- What a step does to the control, if anything. -/
def ControlEvent.op : ControlEvent → Option ControlOp
  | signal sig => some sig.op
  | key k => some (keyOp k)
  | raised _ | typed _ => none

/-- A process: its control, the sources, its terminal with what has been typed and not read, and all that has happened. -/
structure ControlPlane where
  control : RunControl
  signals : SignalControlSource
  keyboard : Option KeyboardControlSource
  terminal : Termios
  input : List U8
  hangup : Bool
  history : List ControlEvent

/-- The result of `poll`: nothing or an error, `POLLHUP` or another condition that ends the thread, `POLLIN`. -/
inductive PollResult
  | idle
  | hangup
  | ready
deriving DecidableEq

inductive ReadResult
  | failed
  | endOfInput
  | key
deriving DecidableEq

/-- Who may do something: the world, the thread of the signals, that of the keyboard, and `main`. -/
inductive ControlAction
  | raise (sig : Signal)
  | type (key : U8)
  | hangUp
  | sigwait (woken : Bool) (sig : Signal)
  | sigwaitFailed
  | checkStopping
  | handleSignal
  | loop
  | checkControl
  | poll (result : PollResult)
  | read (result : ReadResult)
  | handleKey
  | openKeyboard
  | closeKeyboard
  | joinKeyboard
  | restoreTerminal
  | closeSignals
  | wakeSignals
  | joinSignals
deriving DecidableEq

namespace ControlPlane

/-- A call on the control. -/
def record (s : ControlPlane) (e : ControlEvent) : ControlPlane :=
  { s with control := (e.op.map s.control.apply).getD s.control, history := s.history ++ [e] }

/-- A step of the thread of the signals. -/
def signalStep (s : ControlPlane) : ControlAction → Option ControlPlane
  | .sigwait woken sig =>
    if s.signals.phase = .sigwait ∧ (if woken then s.signals.woken sig else s.signals.pending sig) = true then
      some { s with signals := { s.signals with
        pending := if woken then s.signals.pending else Function.update s.signals.pending sig false
        woken := if woken then Function.update s.signals.woken sig false else s.signals.woken
        phase := .check sig } }
    else none
  | .sigwaitFailed => if s.signals.phase = .sigwait then some s else none
  | .checkStopping =>
    match s.signals.phase with
    | .check sig =>
      some { s with signals := { s.signals with phase := if s.signals.stopping then .returned else .act sig } }
    | _ => none
  | .handleSignal =>
    match s.signals.phase with
    | .act sig => some ({ s with signals := { s.signals with phase := .sigwait } }.record (.signal sig))
    | _ => none
  | _ => none

/-- A step of the thread of the keyboard. -/
def keyboardStep (s : ControlPlane) (k : KeyboardControlSource) (a : ControlAction) : Option ControlPlane :=
  let goto (phase : KeyboardPhase) : ControlPlane := { s with keyboard := some { k with phase := phase } }
  match k.phase, a with
  | .loop, .loop => some (goto (if k.stop then .returned else .checkControl))
  | .checkControl, .checkControl => some (goto (if s.control.stop then .returned else .poll))
  | .poll, .poll .idle => some (goto .loop)
  | .poll, .poll .hangup => if s.hangup then some (goto .returned) else none
  | .poll, .poll .ready => if s.input ≠ [] ∨ s.hangup = true then some (goto .read) else none
  | .read, .read .failed => some (goto .loop)
  | .read, .read .endOfInput => if s.hangup = true ∧ s.input = [] then some (goto .returned) else none
  | .read, .read .key =>
    match s.input with
    | key :: input => some { goto (.act key) with input := input }
    | [] => none
  | .act key, .handleKey => some ((goto .loop).record (.key key))
  | _, _ => none

/-- A step of `main`: the keyboard is constructed after the signals and destroyed before them. -/
def mainStep (s : ControlPlane) : ControlAction → Option ControlPlane
  | .openKeyboard =>
    if s.keyboard.isNone ∧ s.signals.life = .alive then
      some { s with keyboard := some ⟨.loop, false, s.terminal, .alive⟩, terminal := s.terminal.raw }
    else none
  | .closeKeyboard =>
    match s.keyboard with
    | some k => if k.life = .alive then some { s with keyboard := some { k with stop := true, life := .join } } else none
    | none => none
  | .joinKeyboard =>
    match s.keyboard with
    | some k =>
      if k.life = .join ∧ k.phase = .returned then some { s with keyboard := some { k with life := .restore } } else none
    | none => none
  | .restoreTerminal =>
    match s.keyboard with
    | some k =>
      if k.life = .restore then
        some { s with
          keyboard := some { k with life := .destroyed }
          terminal := if s.hangup then s.terminal else k.saved }
      else none
    | none => none
  | .closeSignals =>
    if s.signals.life = .alive ∧ s.keyboard.all (fun k => k.life = .destroyed) then
      some { s with signals := { s.signals with stopping := true, life := .kill } }
    else none
  | .wakeSignals =>
    if s.signals.life = .kill then
      some { s with signals := { s.signals with woken := Function.update s.signals.woken .SIGUSR2 true, life := .join } }
    else none
  | .joinSignals =>
    if s.signals.life = .join ∧ s.signals.phase = .returned then
      some { s with signals := { s.signals with life := .destroyed } }
    else none
  | _ => none

def step (s : ControlPlane) (a : ControlAction) : Option ControlPlane :=
  match a with
  | .raise sig =>
    some ({ s with signals := { s.signals with pending := Function.update s.signals.pending sig true } }.record (.raised sig))
  | .type key => some ({ s with input := s.input ++ [key] }.record (.typed key))
  | .hangUp => some { s with hangup := true }
  | .sigwait .. | .sigwaitFailed | .checkStopping | .handleSignal => s.signalStep a
  | .loop | .checkControl | .poll _ | .read _ | .handleKey => s.keyboard.bind fun k => s.keyboardStep k a
  | _ => s.mainStep a

/-- A `SignalControlSource` has just been constructed. -/
def Initial (s : ControlPlane) : Prop :=
  s.control = ⟨false, 0⟩ ∧ s.signals = ⟨fun _ => false, fun _ => false, false, .sigwait, .alive⟩ ∧ s.keyboard = none ∧
    s.input = [] ∧ s.history = []

end ControlPlane

def controlMachine : Machine ControlPlane ControlAction where
  init := ControlPlane.Initial
  step := ControlPlane.step

namespace ControlPlane

variable {s t : ControlPlane} {k : KeyboardControlSource} {sig : Signal} {key : U8}

/-! ### The steps one by one -/

def withKeyboard (s : ControlPlane) (k : KeyboardControlSource) : ControlPlane := { s with keyboard := some k }

def withSignals (s : ControlPlane) (signals : SignalControlSource) : ControlPlane := { s with signals := signals }

/-- What each step needs and what it makes of the state. -/
inductive StepSpec (s : ControlPlane) : ControlAction → ControlPlane → Prop
  | raise {sig : Signal} : StepSpec s (.raise sig)
      ((s.withSignals { s.signals with pending := Function.update s.signals.pending sig true }).record (.raised sig))
  | type {key : U8} : StepSpec s (.type key) ({ s with input := s.input ++ [key] }.record (.typed key))
  | hangUp : StepSpec s .hangUp { s with hangup := true }
  | sigwaitWoken {sig : Signal} : s.signals.phase = .sigwait → s.signals.woken sig = true →
      StepSpec s (.sigwait true sig) (s.withSignals
        { s.signals with woken := Function.update s.signals.woken sig false, phase := .check sig })
  | sigwait {sig : Signal} : s.signals.phase = .sigwait → s.signals.pending sig = true →
      StepSpec s (.sigwait false sig) (s.withSignals
        { s.signals with pending := Function.update s.signals.pending sig false, phase := .check sig })
  | sigwaitFailed : s.signals.phase = .sigwait → StepSpec s .sigwaitFailed s
  | checkStopping {sig : Signal} : s.signals.phase = .check sig →
      StepSpec s .checkStopping (s.withSignals
        { s.signals with phase := if s.signals.stopping then .returned else .act sig })
  | handleSignal {sig : Signal} : s.signals.phase = .act sig →
      StepSpec s .handleSignal ((s.withSignals { s.signals with phase := .sigwait }).record (.signal sig))
  | loop {k : KeyboardControlSource} : s.keyboard = some k → k.phase = .loop →
      StepSpec s .loop (s.withKeyboard { k with phase := if k.stop then .returned else .checkControl })
  | checkControl {k : KeyboardControlSource} : s.keyboard = some k → k.phase = .checkControl →
      StepSpec s .checkControl (s.withKeyboard { k with phase := if s.control.stop then .returned else .poll })
  | pollIdle {k : KeyboardControlSource} : s.keyboard = some k → k.phase = .poll →
      StepSpec s (.poll .idle) (s.withKeyboard { k with phase := .loop })
  | pollHangup {k : KeyboardControlSource} : s.keyboard = some k → k.phase = .poll → s.hangup = true →
      StepSpec s (.poll .hangup) (s.withKeyboard { k with phase := .returned })
  | pollReady {k : KeyboardControlSource} : s.keyboard = some k → k.phase = .poll → s.input ≠ [] ∨ s.hangup = true →
      StepSpec s (.poll .ready) (s.withKeyboard { k with phase := .read })
  | readFailed {k : KeyboardControlSource} : s.keyboard = some k → k.phase = .read →
      StepSpec s (.read .failed) (s.withKeyboard { k with phase := .loop })
  | readEnd {k : KeyboardControlSource} : s.keyboard = some k → k.phase = .read → s.hangup = true → s.input = [] →
      StepSpec s (.read .endOfInput) (s.withKeyboard { k with phase := .returned })
  | readKey {k : KeyboardControlSource} {key : U8} {input : List U8} : s.keyboard = some k → k.phase = .read →
      s.input = key :: input →
      StepSpec s (.read .key) { s.withKeyboard { k with phase := .act key } with input := input }
  | handleKey {k : KeyboardControlSource} {key : U8} : s.keyboard = some k → k.phase = .act key →
      StepSpec s .handleKey ((s.withKeyboard { k with phase := .loop }).record (.key key))
  | openKeyboard : s.keyboard = none → s.signals.life = .alive →
      StepSpec s .openKeyboard { s.withKeyboard ⟨.loop, false, s.terminal, .alive⟩ with terminal := s.terminal.raw }
  | closeKeyboard {k : KeyboardControlSource} : s.keyboard = some k → k.life = .alive →
      StepSpec s .closeKeyboard (s.withKeyboard { k with stop := true, life := .join })
  | joinKeyboard {k : KeyboardControlSource} : s.keyboard = some k → k.life = .join → k.phase = .returned →
      StepSpec s .joinKeyboard (s.withKeyboard { k with life := .restore })
  | restoreTerminal {k : KeyboardControlSource} : s.keyboard = some k → k.life = .restore →
      StepSpec s .restoreTerminal { s.withKeyboard { k with life := .destroyed } with
        terminal := if s.hangup then s.terminal else k.saved }
  | closeSignals : s.signals.life = .alive → (∀ k, s.keyboard = some k → k.life = .destroyed) →
      StepSpec s .closeSignals (s.withSignals { s.signals with stopping := true, life := .kill })
  | wakeSignals : s.signals.life = .kill →
      StepSpec s .wakeSignals (s.withSignals
        { s.signals with woken := Function.update s.signals.woken .SIGUSR2 true, life := .join })
  | joinSignals : s.signals.life = .join → s.signals.phase = .returned →
      StepSpec s .joinSignals (s.withSignals { s.signals with life := .destroyed })

theorem StepSpec.of_signalStep {a : ControlAction} (hs : s.signalStep a = some t) : StepSpec s a t := by
  cases a <;> simp only [signalStep, reduceCtorEq] at hs
  case sigwait woken sig =>
    obtain ⟨⟨hphase, hsig⟩, hs⟩ := Option.ite_none_right_eq_some.1 hs
    cases hs
    cases woken with
    | false => exact .sigwait hphase hsig
    | true => exact .sigwaitWoken hphase hsig
  case sigwaitFailed =>
    obtain ⟨hphase, hs⟩ := Option.ite_none_right_eq_some.1 hs
    cases hs
    exact .sigwaitFailed hphase
  case checkStopping =>
    cases hphase : s.signals.phase <;> simp only [hphase, reduceCtorEq, Option.some.injEq] at hs
    subst hs
    exact .checkStopping hphase
  case handleSignal =>
    cases hphase : s.signals.phase <;> simp only [hphase, reduceCtorEq, Option.some.injEq] at hs
    subst hs
    exact .handleSignal hphase

theorem StepSpec.of_keyboardStep {a : ControlAction} (hk : s.keyboard = some k) (hs : s.keyboardStep k a = some t) :
    StepSpec s a t := by
  unfold keyboardStep at hs
  simp only at hs
  split at hs
  case h_1 hphase =>
    cases hs
    exact .loop hk hphase
  case h_2 hphase =>
    cases hs
    exact .checkControl hk hphase
  case h_3 hphase =>
    cases hs
    exact .pollIdle hk hphase
  case h_4 hphase =>
    obtain ⟨hhangup, hs⟩ := Option.ite_none_right_eq_some.1 hs
    cases hs
    exact .pollHangup hk hphase hhangup
  case h_5 hphase =>
    obtain ⟨hready, hs⟩ := Option.ite_none_right_eq_some.1 hs
    cases hs
    exact .pollReady hk hphase hready
  case h_6 hphase =>
    cases hs
    exact .readFailed hk hphase
  case h_7 hphase =>
    obtain ⟨⟨hhangup, hinput⟩, hs⟩ := Option.ite_none_right_eq_some.1 hs
    cases hs
    exact .readEnd hk hphase hhangup hinput
  case h_8 hphase =>
    cases hinput : s.input <;> simp only [hinput, reduceCtorEq, Option.some.injEq] at hs
    subst hs
    exact .readKey hk hphase hinput
  case h_9 hphase =>
    cases hs
    exact .handleKey hk hphase
  case h_10 => cases hs

theorem StepSpec.of_mainStep {a : ControlAction} (hs : s.mainStep a = some t) : StepSpec s a t := by
  cases a <;> simp only [mainStep, reduceCtorEq] at hs
  case openKeyboard =>
    obtain ⟨⟨hnone, hlife⟩, hs⟩ := Option.ite_none_right_eq_some.1 hs
    cases hs
    exact .openKeyboard (Option.isNone_iff_eq_none.1 hnone) hlife
  case closeKeyboard =>
    cases hk : s.keyboard <;> simp only [hk, reduceCtorEq] at hs
    obtain ⟨hlife, hs⟩ := Option.ite_none_right_eq_some.1 hs
    cases hs
    exact .closeKeyboard hk hlife
  case joinKeyboard =>
    cases hk : s.keyboard <;> simp only [hk, reduceCtorEq] at hs
    obtain ⟨⟨hlife, hphase⟩, hs⟩ := Option.ite_none_right_eq_some.1 hs
    cases hs
    exact .joinKeyboard hk hlife hphase
  case restoreTerminal =>
    cases hk : s.keyboard <;> simp only [hk, reduceCtorEq] at hs
    obtain ⟨hlife, hs⟩ := Option.ite_none_right_eq_some.1 hs
    cases hs
    exact .restoreTerminal hk hlife
  case closeSignals =>
    obtain ⟨⟨hlife, hkeyboard⟩, hs⟩ := Option.ite_none_right_eq_some.1 hs
    cases hs
    refine .closeSignals hlife fun k hk => ?_
    rw [hk] at hkeyboard
    exact of_decide_eq_true hkeyboard
  case wakeSignals =>
    obtain ⟨hlife, hs⟩ := Option.ite_none_right_eq_some.1 hs
    cases hs
    exact .wakeSignals hlife
  case joinSignals =>
    obtain ⟨⟨hlife, hphase⟩, hs⟩ := Option.ite_none_right_eq_some.1 hs
    cases hs
    exact .joinSignals hlife hphase

theorem StepSpec.of_step {a : ControlAction} (hs : s.step a = some t) : StepSpec s a t := by
  cases a <;> simp only [step] at hs
  case raise sig =>
    cases hs
    exact .raise
  case type key =>
    cases hs
    exact .type
  case hangUp =>
    cases hs
    exact .hangUp
  case sigwait | sigwaitFailed | checkStopping | handleSignal => exact .of_signalStep hs
  case loop | checkControl | poll | read | handleKey =>
    obtain ⟨k, hk, hs⟩ := Option.bind_eq_some_iff.1 hs
    exact .of_keyboardStep hk hs
  all_goals exact .of_mainStep hs

/-! ### What the history says -/

/-- Whether the calls of a history leave the process paused. -/
def pausedAfter (history : List ControlEvent) : Bool :=
  history.foldl (fun paused e => match e.op with
    | some .pause => true
    | some .resume => false
    | some .togglePause => !paused
    | _ => paused) false

def raises (sig : Signal) (history : List ControlEvent) : Nat := history.count (.raised sig)

def handlings (sig : Signal) (history : List ControlEvent) : Nat := history.count (.signal sig)

/-- A signal has been raised and not been handled since. -/
def unanswered (sig : Signal) (history : List ControlEvent) : Bool :=
  history.foldl (fun due e =>
    if e = ControlEvent.raised sig then true else if e = ControlEvent.signal sig then false else due) false

def typedKeys (history : List ControlEvent) : List U8 :=
  history.filterMap fun | .typed key => some key | _ => none

/-- The keys that have had their effect. -/
def takenKeys (history : List ControlEvent) : List U8 :=
  history.filterMap fun | .key key => some key | _ => none

/-- The control is what the history makes of it. -/
structure Replayed (s : ControlPlane) : Prop where
  stop : s.control.stop = true ↔ ∃ e ∈ s.history, e.op = some .requestStop
  paused : s.control.paused = if pausedAfter s.history then 1 else 0

theorem Replayed.record (h : s.Replayed) (e : ControlEvent) : (s.record e).Replayed := by
  have hstop : (∃ x ∈ s.history ++ [e], x.op = some .requestStop) ↔
      s.control.stop = true ∨ e.op = some .requestStop := by
    rw [h.stop]
    simp only [List.mem_append, List.mem_singleton, or_and_right, exists_or, exists_eq_left]
  have hpaused := h.paused
  refine ⟨?_, ?_⟩
  · simp only [ControlPlane.record]
    rw [hstop]
    cases hop : e.op with
    | none => simp
    | some op => cases op <;> simp [RunControl.apply, RunControl.requestStop, RunControl.pause, RunControl.resume,
        RunControl.togglePause]
  · simp only [ControlPlane.record, pausedAfter, List.foldl_append, List.foldl_cons, List.foldl_nil]
    rw [← pausedAfter]
    cases hop : e.op with
    | none => exact hpaused
    | some op =>
      cases op with
      | requestStop => exact hpaused
      | pause => rfl
      | resume => rfl
      | togglePause =>
        show s.control.paused ^^^ 1 = _
        rw [hpaused]
        cases pausedAfter s.history <;> rfl

theorem Replayed.of_eq (h : s.Replayed) (hcontrol : t.control = s.control) (hhistory : t.history = s.history) :
    t.Replayed := by
  refine ⟨?_, ?_⟩
  · rw [hcontrol, hhistory]
    exact h.stop
  · rw [hcontrol, hhistory]
    exact h.paused

theorem Replayed.step (h : s.Replayed) {a : ControlAction} (hs : s.step a = some t) : t.Replayed := by
  cases StepSpec.of_step hs with
  | raise | type | handleSignal _ | handleKey _ _ =>
    refine Replayed.record ?_ _
    exact h.of_eq rfl rfl
  | _ => exact h.of_eq rfl rfl

theorem stop_step {a : ControlAction} (hs : s.step a = some t) (hstop : s.control.stop = true) : t.control.stop = true := by
  have hrecord {u : ControlPlane} (hu : u.control.stop = true) (e : ControlEvent) : (u.record e).control.stop = true := by
    simp only [record]
    cases e.op with
    | none => exact hu
    | some op => cases op <;> first | exact hu | rfl
  cases StepSpec.of_step hs with
  | raise | type | handleSignal _ | handleKey _ _ => exact hrecord hstop _
  | _ => exact hstop

/-! ### No signal is lost -/

/-- The signal is taken and will be handled. -/
def inHand (s : ControlPlane) (sig : Signal) : Bool :=
  match s.signals.phase with
  | .check taken => taken = sig && !s.signals.stopping
  | .act taken => taken = sig
  | _ => false

/-- Every signal that is handled was raised, once for each time, and one that was raised is handled unless the source is
being destroyed; only then the thread returns. -/
structure SignalsOk (s : ControlPlane) : Prop where
  count : ∀ sig, handlings sig s.history + (s.inHand sig).toNat + (s.signals.pending sig).toNat ≤ raises sig s.history
  due : ∀ sig, unanswered sig s.history = true →
    s.signals.pending sig = true ∨ s.inHand sig = true ∨ s.signals.stopping = true
  woken : ∀ sig, s.signals.woken sig = true → s.signals.stopping = true
  returned : s.signals.phase = .returned → s.signals.stopping = true
  life : s.signals.stopping = true ↔ s.signals.life ≠ .alive
  join : s.signals.life = .join → s.signals.phase = .sigwait ∨ (∃ sig, s.signals.phase = .act sig) →
    s.signals.woken .SIGUSR2 = true

/-- What is not a signal does not matter. -/
theorem SignalsOk.congr (h : s.SignalsOk) (hsignals : t.signals = s.signals)
    (hcount : ∀ sig, handlings sig t.history = handlings sig s.history ∧ raises sig t.history = raises sig s.history ∧
      unanswered sig t.history = unanswered sig s.history) :
    t.SignalsOk := by
  have hhand (sig : Signal) : t.inHand sig = s.inHand sig := by
    unfold inHand
    rw [hsignals]
  refine ⟨fun sig => ?_, fun sig hdue => ?_, ?_, ?_, ?_, ?_⟩
  · rw [(hcount sig).1, (hcount sig).2.1, hhand, hsignals]
    exact h.count sig
  · rw [hhand, hsignals]
    exact h.due sig ((hcount sig).2.2 ▸ hdue)
  · rw [hsignals]
    exact h.woken
  · rw [hsignals]
    exact h.returned
  · rw [hsignals]
    exact h.life
  · rw [hsignals]
    exact h.join

theorem unanswered_concat (sig : Signal) (history : List ControlEvent) (e : ControlEvent) :
    unanswered sig (history ++ [e]) =
      if e = ControlEvent.raised sig then true else if e = ControlEvent.signal sig then false
      else unanswered sig history := by
  simp only [unanswered, List.foldl_append, List.foldl_cons, List.foldl_nil]

theorem handlings_concat (sig : Signal) (history : List ControlEvent) (e : ControlEvent) :
    handlings sig (history ++ [e]) = handlings sig history + if e = ControlEvent.signal sig then 1 else 0 := by
  simp only [handlings, List.count_append, List.count_singleton, beq_iff_eq]

theorem raises_concat (sig : Signal) (history : List ControlEvent) (e : ControlEvent) :
    raises sig (history ++ [e]) = raises sig history + if e = ControlEvent.raised sig then 1 else 0 := by
  simp only [raises, List.count_append, List.count_singleton, beq_iff_eq]

/-- While the thread is in `sigwait` it has nothing in hand. -/
theorem inHand_sigwait (h : s.signals.phase = .sigwait) (sig : Signal) : s.inHand sig = false := by
  unfold inHand
  rw [h]

theorem inHand_act (h : s.signals.phase = .act sig) (x : Signal) : s.inHand x = decide (sig = x) := by
  unfold inHand
  rw [h]

theorem inHand_check (h : s.signals.phase = .check sig) (x : Signal) :
    s.inHand x = (decide (sig = x) && !s.signals.stopping) := by
  unfold inHand
  rw [h]

theorem SignalsOk.raise (h : s.SignalsOk) (sig : Signal) :
    ((s.withSignals { s.signals with pending := Function.update s.signals.pending sig true }).record
      (.raised sig)).SignalsOk := by
  refine ⟨fun x => ?_, fun x hdue => ?_, h.woken, h.returned, h.life, h.join⟩
  · have hcount := h.count x
    have hpending := Bool.toNat_le (s.signals.pending x)
    show handlings x (s.history ++ [ControlEvent.raised sig]) + (s.inHand x).toNat +
      (Function.update s.signals.pending sig true x).toNat ≤ raises x (s.history ++ [ControlEvent.raised sig])
    rw [handlings_concat, raises_concat, Function.update_apply]
    by_cases hx : sig = x
    · subst hx
      simp only [reduceCtorEq, if_false, if_true, Bool.toNat_true]
      omega
    · simp only [reduceCtorEq, ControlEvent.raised.injEq, if_false, hx, Ne.symm hx]
      exact hcount
  · show Function.update s.signals.pending sig true x = true ∨ s.inHand x = true ∨ s.signals.stopping = true
    by_cases hx : sig = x
    · subst hx
      exact .inl (Function.update_self ..)
    · rw [Function.update_of_ne (Ne.symm hx)]
      refine h.due x ?_
      change unanswered x (s.history ++ [ControlEvent.raised sig]) = true at hdue
      simp only [unanswered_concat, ControlEvent.raised.injEq, reduceCtorEq, hx, if_false] at hdue
      exact hdue

/-- A signal that is pending is taken. -/
theorem SignalsOk.take (h : s.SignalsOk) (hphase : s.signals.phase = .sigwait) (hpending : s.signals.pending sig = true) :
    (s.withSignals { s.signals with
      pending := Function.update s.signals.pending sig false, phase := .check sig }).SignalsOk := by
  have hhand := inHand_sigwait hphase
  refine ⟨fun x => ?_, fun x hdue => ?_, h.woken, nofun, h.life, ?_⟩
  · have hcount := h.count x
    rw [hhand] at hcount
    show handlings x s.history + (decide (sig = x) && !s.signals.stopping).toNat +
      (Function.update s.signals.pending sig false x).toNat ≤ raises x s.history
    by_cases hx : sig = x
    · subst hx
      have hle := Bool.toNat_le (decide (sig = sig) && !s.signals.stopping)
      rw [hpending, Bool.toNat_true, Bool.toNat_false] at hcount
      rw [Function.update_self, Bool.toNat_false]
      omega
    · rw [Function.update_of_ne (Ne.symm hx), decide_eq_false hx]
      exact hcount
  · show Function.update s.signals.pending sig false x = true ∨ (decide (sig = x) && !s.signals.stopping) = true ∨
      s.signals.stopping = true
    by_cases hx : sig = x
    · cases hstopping : s.signals.stopping <;> simp [hx]
    · rw [Function.update_of_ne (Ne.symm hx)]
      rcases h.due x hdue with hp | hp | hp
      · exact .inl hp
      · rw [hhand] at hp
        cases hp
      · exact .inr (.inr hp)
  · rintro - (hp | ⟨_, hp⟩) <;> cases hp

/-- The signal of the destructor is taken. -/
theorem SignalsOk.wake (h : s.SignalsOk) (hphase : s.signals.phase = .sigwait) (hwoken : s.signals.woken sig = true) :
    (s.withSignals { s.signals with woken := Function.update s.signals.woken sig false, phase := .check sig }).SignalsOk := by
  have hstopping := h.woken sig hwoken
  refine ⟨fun x => ?_, fun _ _ => .inr (.inr hstopping), fun _ _ => hstopping, nofun, h.life, ?_⟩
  · have hcount := h.count x
    rw [inHand_sigwait hphase] at hcount
    show handlings x s.history + (decide (sig = x) && !s.signals.stopping).toNat + (s.signals.pending x).toNat ≤
      raises x s.history
    rw [hstopping, Bool.not_true, Bool.and_false]
    exact hcount
  · rintro - (hp | ⟨_, hp⟩) <;> cases hp

theorem SignalsOk.check (h : s.SignalsOk) (hphase : s.signals.phase = .check sig) :
    (s.withSignals { s.signals with phase := if s.signals.stopping then .returned else .act sig }).SignalsOk := by
  have hhand (x : Signal) : (s.withSignals { s.signals with
      phase := if s.signals.stopping then .returned else .act sig }).inHand x = s.inHand x := by
    rw [inHand_check hphase]
    cases hstopping : s.signals.stopping <;> simp [inHand, withSignals]
  refine ⟨fun x => ?_, fun x hdue => ?_, h.woken, fun hp => ?_, h.life, fun hlife => ?_⟩
  · rw [hhand]
    exact h.count x
  · rw [hhand]
    exact h.due x hdue
  · show s.signals.stopping = true
    by_contra hstopping
    simp [withSignals, hstopping] at hp
  · have hstopping : s.signals.stopping = true := h.life.2 (by rw [show s.signals.life = .join from hlife]; nofun)
    simp [withSignals, hstopping]

theorem SignalsOk.handle (h : s.SignalsOk) (hphase : s.signals.phase = .act sig) :
    ((s.withSignals { s.signals with phase := .sigwait }).record (.signal sig)).SignalsOk := by
  refine ⟨fun x => ?_, fun x hdue => ?_, h.woken, nofun, h.life, fun hlife _ => h.join hlife (.inr ⟨sig, hphase⟩)⟩
  · have hcount := h.count x
    rw [inHand_act hphase] at hcount
    show handlings x (s.history ++ [ControlEvent.signal sig]) + 0 + (s.signals.pending x).toNat ≤
      raises x (s.history ++ [ControlEvent.signal sig])
    rw [handlings_concat, raises_concat]
    by_cases hx : sig = x
    · simp only [hx, decide_true, Bool.toNat_true, if_true, reduceCtorEq, if_false] at hcount ⊢
      omega
    · simp only [hx, decide_false, Bool.toNat_false, ControlEvent.signal.injEq, reduceCtorEq, if_false] at hcount ⊢
      exact hcount
  · change unanswered x (s.history ++ [ControlEvent.signal sig]) = true at hdue
    by_cases hx : sig = x
    · simp [unanswered_concat, hx] at hdue
    · simp only [unanswered_concat, ControlEvent.signal.injEq, reduceCtorEq, hx, if_false] at hdue
      rcases h.due x hdue with hp | hp | hp
      · exact .inl hp
      · rw [inHand_act hphase, decide_eq_false hx] at hp
        cases hp
      · exact .inr (.inr hp)

theorem SignalsOk.close (h : s.SignalsOk) :
    (s.withSignals { s.signals with stopping := true, life := .kill }).SignalsOk := by
  refine ⟨fun x => ?_, fun _ _ => .inr (.inr rfl), fun _ _ => rfl, fun _ => rfl, ⟨fun _ => nofun, fun _ => rfl⟩, nofun⟩
  have hcount := h.count x
  have hle : ((s.withSignals { s.signals with stopping := true, life := .kill }).inHand x).toNat ≤ (s.inHand x).toNat := by
    simp only [inHand, withSignals]
    cases s.signals.phase <;> simp
  refine Nat.le_trans ?_ hcount
  show handlings x s.history + _ + (s.signals.pending x).toNat ≤ _
  omega

theorem SignalsOk.step (h : s.SignalsOk) {a : ControlAction} (hs : s.step a = some t) : t.SignalsOk := by
  cases StepSpec.of_step hs with
  | raise => exact h.raise _
  | sigwaitWoken hphase hwoken => exact h.wake hphase hwoken
  | sigwait hphase hpending => exact h.take hphase hpending
  | checkStopping hphase => exact h.check hphase
  | handleSignal hphase => exact h.handle hphase
  | closeSignals _ _ => exact h.close
  | wakeSignals hlife =>
    have hstopping : s.signals.stopping = true := h.life.2 (by rw [hlife]; nofun)
    refine ⟨h.count, h.due, fun _ _ => hstopping, h.returned, ⟨fun _ => nofun, fun _ => hstopping⟩, fun _ _ => ?_⟩
    show Function.update s.signals.woken .SIGUSR2 true .SIGUSR2 = true
    exact Function.update_self ..
  | joinSignals hlife hphase =>
    have hstopping : s.signals.stopping = true := h.life.2 (by rw [hlife]; nofun)
    exact ⟨h.count, h.due, h.woken, h.returned, ⟨fun _ => nofun, fun _ => hstopping⟩, nofun⟩
  | type | handleKey _ _ =>
    refine h.congr rfl fun sig => ?_
    simp [record, withKeyboard, handlings_concat, raises_concat, unanswered_concat]
  | _ => exact h.congr rfl fun _ => ⟨rfl, rfl, rfl⟩

/-! ### No key is lost -/

def keyInHand (s : ControlPlane) : List U8 := (s.keyboard.map KeyboardControlSource.inHand).getD []

/-- The keys are handled once each and in order, and none after a `q`; the terminal is raw until the source is gone. -/
structure KeysOk (s : ControlPlane) : Prop where
  keys : typedKeys s.history = takenKeys s.history ++ s.keyInHand ++ s.input
  quit : ∀ key ∈ takenKeys s.history, keyOp key = .requestStop → ∀ k, s.keyboard = some k → k.phase.reading = false
  last : ∀ key ∈ (takenKeys s.history).dropLast, keyOp key ≠ .requestStop
  unopened : s.keyboard = none → takenKeys s.history = []
  life : ∀ k, s.keyboard = some k → (k.stop = true ↔ k.life ≠ .alive) ∧
    (k.life = .restore ∨ k.life = .destroyed → k.phase = .returned)
  terminal : ∀ k, s.keyboard = some k → (k.life ≠ .destroyed → s.terminal = k.saved.raw) ∧
    (k.life = .destroyed → s.terminal = k.saved ∨ s.hangup = true)

theorem keyInHand_withKeyboard (s : ControlPlane) (k : KeyboardControlSource) : (s.withKeyboard k).keyInHand = k.inHand :=
  rfl

theorem keyInHand_some (hk : s.keyboard = some k) : s.keyInHand = k.inHand := by
  unfold keyInHand
  rw [hk]
  rfl

theorem inHand_of_not_act (h : ∀ key, k.phase ≠ .act key) : k.inHand = [] := by
  unfold KeyboardControlSource.inHand
  split
  · rename_i key hphase
    exact absurd hphase (h key)
  · rfl

/-- What is not a key does not matter. -/
theorem KeysOk.congr (h : s.KeysOk) (hkeyboard : t.keyboard = s.keyboard) (hinput : t.input = s.input)
    (hterminal : t.terminal = s.terminal) (hhangup : s.hangup = true → t.hangup = true)
    (htyped : typedKeys t.history = typedKeys s.history) (htaken : takenKeys t.history = takenKeys s.history) :
    t.KeysOk := by
  refine ⟨?_, ?_, ?_, ?_, ?_, fun k hk => ?_⟩
  · rw [htyped, htaken, hinput, keyInHand, hkeyboard]
    exact h.keys
  · rw [htaken, hkeyboard]
    exact h.quit
  · rw [htaken]
    exact h.last
  · rw [htaken, hkeyboard]
    exact h.unopened
  · rw [hkeyboard]
    exact h.life
  · rw [hkeyboard] at hk
    rw [hterminal]
    exact ⟨(h.terminal k hk).1, fun hlife => ((h.terminal k hk).2 hlife).imp_right hhangup⟩

/-- The thread of the keyboard moves on. -/
theorem KeysOk.move (h : s.KeysOk) (hk : s.keyboard = some k) (hphase : k.phase ≠ .returned)
    (hold : ∀ key, k.phase ≠ .act key) {phase : KeyboardPhase} (hnew : ∀ key, phase ≠ .act key)
    (hquit : ∀ key ∈ takenKeys s.history, keyOp key = .requestStop → phase.reading = false) :
    (s.withKeyboard { k with phase := phase }).KeysOk := by
  have hinHand : KeyboardControlSource.inHand { k with phase := phase } = [] := inHand_of_not_act hnew
  refine ⟨?_, fun key hkey hop _ hk' => ?_, h.last, nofun, fun _ hk' => ?_, fun _ hk' => ?_⟩
  · rw [keyInHand_withKeyboard, hinHand, ← inHand_of_not_act hold, ← keyInHand_some hk]
    exact h.keys
  · cases hk'
    exact hquit key hkey hop
  · cases hk'
    exact ⟨(h.life k hk).1, fun hlife => absurd ((h.life k hk).2 hlife) hphase⟩
  · cases hk'
    exact h.terminal k hk

/-- `main` goes on with the destructor of the keyboard. -/
theorem KeysOk.destroy (h : s.KeysOk) (hk : s.keyboard = some k) (stop : Bool) (life : KeyboardLife) (terminal : Termios)
    (hlife : (stop = true ↔ life ≠ .alive) ∧ (life = .restore ∨ life = .destroyed → k.phase = .returned))
    (hterminal : (life ≠ .destroyed → terminal = k.saved.raw) ∧
      (life = .destroyed → terminal = k.saved ∨ s.hangup = true)) :
    KeysOk { s.withKeyboard { k with stop := stop, life := life } with terminal := terminal } := by
  refine ⟨?_, fun key hkey hop _ hk' => ?_, h.last, nofun, fun _ hk' => ?_, fun _ hk' => ?_⟩
  · have hkeys := h.keys
    rw [keyInHand_some hk] at hkeys
    exact hkeys
  · cases hk'
    exact h.quit key hkey hop k hk
  · cases hk'
    exact hlife
  · cases hk'
    exact hterminal

theorem KeysOk.read (h : s.KeysOk) (hk : s.keyboard = some k) (hphase : k.phase = .read) {input : List U8}
    (hinput : s.input = key :: input) :
    KeysOk { s.withKeyboard { k with phase := .act key } with input := input } := by
  refine ⟨?_, fun x hx hop _ hk' => ?_, h.last, nofun, fun _ hk' => ?_, fun _ hk' => ?_⟩
  · have hkeys := h.keys
    rw [keyInHand_some hk, inHand_of_not_act (by rw [hphase]; nofun), hinput, List.append_nil] at hkeys
    show typedKeys s.history = takenKeys s.history ++ [key] ++ input
    rw [hkeys, List.append_assoc]
    rfl
  · have hreading := h.quit x hx hop k hk
    rw [hphase] at hreading
    cases hreading
  · cases hk'
    refine ⟨(h.life k hk).1, fun hlife => ?_⟩
    have hreturned := (h.life k hk).2 hlife
    rw [hphase] at hreturned
    cases hreturned
  · cases hk'
    exact h.terminal k hk

theorem KeysOk.handle (h : s.KeysOk) (hk : s.keyboard = some k) (hphase : k.phase = .act key) :
    ((s.withKeyboard { k with phase := .loop }).record (.key key)).KeysOk := by
  have htyped : typedKeys (s.history ++ [ControlEvent.key key]) = typedKeys s.history := by
    simp [typedKeys]
  have htaken : takenKeys (s.history ++ [ControlEvent.key key]) = takenKeys s.history ++ [key] := by
    simp [takenKeys]
  have hinHand : k.inHand = [key] := by
    unfold KeyboardControlSource.inHand
    rw [hphase]
  refine ⟨?_, fun x hx hop _ hk' => ?_, fun x hx => ?_, nofun, fun _ hk' => ?_, fun _ hk' => ?_⟩
  · have hkeys := h.keys
    rw [keyInHand_some hk, hinHand] at hkeys
    show typedKeys (s.history ++ [ControlEvent.key key]) = takenKeys (s.history ++ [ControlEvent.key key]) ++ [] ++ s.input
    rw [htyped, htaken, List.append_nil]
    exact hkeys
  · cases hk'
    rfl
  · change x ∈ (takenKeys (s.history ++ [ControlEvent.key key])).dropLast at hx
    rw [htaken, List.dropLast_concat] at hx
    intro hop
    -- after a `q` the thread would not have read this key
    have hreading := h.quit x hx hop k hk
    rw [hphase] at hreading
    cases hreading
  · cases hk'
    refine ⟨(h.life k hk).1, fun hlife => ?_⟩
    have hreturned := (h.life k hk).2 hlife
    rw [hphase] at hreturned
    cases hreturned
  · cases hk'
    exact h.terminal k hk

theorem KeysOk.step (h : s.KeysOk) (hreplayed : s.Replayed) {a : ControlAction} (hs : s.step a = some t) : t.KeysOk := by
  cases StepSpec.of_step hs with
  | raise | handleSignal _ =>
    refine h.congr rfl rfl rfl id ?_ ?_
    · simp [record, withSignals, typedKeys]
    · simp [record, withSignals, takenKeys]
  | @type key =>
    have htyped : typedKeys (s.history ++ [ControlEvent.typed key]) = typedKeys s.history ++ [key] := by
      simp [typedKeys]
    have htaken : takenKeys (s.history ++ [ControlEvent.typed key]) = takenKeys s.history := by
      simp [takenKeys]
    refine ⟨?_, fun x hx => h.quit x (htaken ▸ hx), fun x hx => h.last x (htaken ▸ hx),
      fun hnone => htaken.trans (h.unopened hnone), h.life, h.terminal⟩
    show typedKeys (s.history ++ [ControlEvent.typed key]) =
      takenKeys (s.history ++ [ControlEvent.typed key]) ++ s.keyInHand ++ (s.input ++ [key])
    rw [htyped, htaken, ← List.append_assoc, ← h.keys]
  | hangUp => exact h.congr rfl rfl rfl (fun _ => rfl) rfl rfl
  | sigwaitWoken | sigwait | sigwaitFailed | checkStopping | closeSignals | wakeSignals | joinSignals =>
    exact h.congr rfl rfl rfl id rfl rfl
  | @loop k hk hphase =>
    refine h.move hk (by rw [hphase]; nofun) (by rw [hphase]; nofun) ?_ fun _ _ _ => ?_
    · split <;> nofun
    · split <;> rfl
  | @checkControl k hk hphase =>
    refine h.move hk (by rw [hphase]; nofun) (by rw [hphase]; nofun) ?_ fun key hkey hop => ?_
    · split <;> nofun
    · -- the handled `q` has stopped the control
      have hstop : s.control.stop = true := by
        obtain ⟨e, he, hek⟩ := List.mem_filterMap.1 hkey
        refine hreplayed.stop.2 ⟨e, he, ?_⟩
        split at hek
        · cases hek
          exact congrArg some hop
        · cases hek
      rw [if_pos hstop]
      rfl
  | pollIdle hk hphase | pollHangup hk hphase _ | readFailed hk hphase | readEnd hk hphase _ _ =>
    exact h.move hk (by rw [hphase]; nofun) (by rw [hphase]; nofun) nofun fun _ _ _ => rfl
  | pollReady hk hphase _ =>
    refine h.move hk (by rw [hphase]; nofun) (by rw [hphase]; nofun) nofun fun key hkey hop => ?_
    have hreading := h.quit key hkey hop _ hk
    rw [hphase] at hreading
    cases hreading
  | readKey hk hphase hinput => exact h.read hk hphase hinput
  | handleKey hk hphase => exact h.handle hk hphase
  | openKeyboard hnone _ =>
    have hempty := h.unopened hnone
    refine ⟨?_, fun key hkey => ?_, h.last, nofun, fun _ hk' => ?_, fun _ hk' => ?_⟩
    · have hkeys := h.keys
      rw [keyInHand, hnone] at hkeys
      exact hkeys
    · change key ∈ takenKeys s.history at hkey
      rw [hempty] at hkey
      cases hkey
    · cases hk'
      exact ⟨⟨nofun, fun hlife => absurd rfl hlife⟩, by rintro (hlife | hlife) <;> cases hlife⟩
    · cases hk'
      exact ⟨fun _ => rfl, nofun⟩
  | closeKeyboard hk hlife =>
    exact h.destroy hk true .join s.terminal ⟨⟨fun _ => nofun, fun _ => rfl⟩, by rintro (hj | hj) <;> cases hj⟩
      ⟨fun _ => (h.terminal _ hk).1 (by rw [hlife]; nofun), nofun⟩
  | joinKeyboard hk hlife hphase =>
    have hstop := (h.life _ hk).1.2 (by rw [hlife]; nofun)
    exact h.destroy hk _ .restore s.terminal ⟨⟨fun _ => nofun, fun _ => hstop⟩, fun _ => hphase⟩
      ⟨fun _ => (h.terminal _ hk).1 (by rw [hlife]; nofun), nofun⟩
  | restoreTerminal hk hlife =>
    have hstop := (h.life _ hk).1.2 (by rw [hlife]; nofun)
    refine h.destroy hk _ .destroyed _ ⟨⟨fun _ => nofun, fun _ => hstop⟩, fun _ => (h.life _ hk).2 (.inl hlife)⟩
      ⟨fun hne => absurd rfl hne, fun _ => ?_⟩
    cases hhangup : s.hangup with
    | false => exact .inl rfl
    | true => exact .inr rfl

/-! ### Every run of a process -/

structure Inv (s : ControlPlane) : Prop where
  replayed : s.Replayed
  signals : s.SignalsOk
  keys : s.KeysOk

theorem Inv.init (h : s.Initial) : s.Inv := by
  obtain ⟨hcontrol, hsignals, hkeyboard, hinput, hhistory⟩ := h
  refine ⟨⟨?_, ?_⟩, ⟨?_, ?_, ?_, ?_, ?_, ?_⟩, ⟨?_, ?_, ?_, ?_, ?_, ?_⟩⟩
  all_goals
    try simp only [inHand, keyInHand]
    simp only [hcontrol, hsignals, hkeyboard, hinput, hhistory]
  · simp
  · rfl
  · exact fun _ => Nat.zero_le _
  · intro sig hdue
    cases hdue
  all_goals simp [typedKeys, takenKeys]

theorem Inv.step (h : s.Inv) {a : ControlAction} (hs : s.step a = some t) : t.Inv :=
  ⟨h.replayed.step hs, h.signals.step hs, h.keys.step h.replayed hs⟩

theorem Inv.of_reachable (h : controlMachine.Reachable s) : s.Inv := by
  refine Machine.Reachable.invariant (I := ControlPlane.Inv) (fun _ hs => Inv.init hs) ?_ h
  intro s a t hi hs
  exact hi.step hs

theorem Replayed.isPaused (h : s.Replayed) : s.control.isPaused = pausedAfter s.history := by
  unfold RunControl.isPaused
  rw [h.paused]
  cases pausedAfter s.history <;> rfl

/-! ### How the sources end -/

end ControlPlane

namespace ControlPlane

variable {s t : ControlPlane} {k : KeyboardControlSource}

/-- The stop of the keyboard's thread is requested, and it is not done yet or has gone. -/
def KeyboardStops (s : ControlPlane) : Prop := ∃ k, s.keyboard = some k ∧ k.stop = true

theorem KeyboardStops.of_some (h : s.KeyboardStops) (hk : s.keyboard = some k) : k.stop = true := by
  obtain ⟨k', hk', hstop⟩ := h
  rw [hk] at hk'
  cases hk'
  exact hstop

theorem KeyboardStops.step (h : s.KeyboardStops) {a : ControlAction} (hs : s.step a = some t) : t.KeyboardStops := by
  cases StepSpec.of_step hs with
  | loop hk _ | checkControl hk _ | pollIdle hk _ | pollHangup hk _ _ | pollReady hk _ _ | readFailed hk _
  | readEnd hk _ _ _ | readKey hk _ _ | handleKey hk _ | joinKeyboard hk _ _ | restoreTerminal hk _ =>
    have hstop := h.of_some hk
    exact ⟨_, rfl, hstop⟩
  | closeKeyboard _ _ => exact ⟨_, rfl, rfl⟩
  | openKeyboard hnone _ =>
    obtain ⟨k, hk, -⟩ := h
    rw [hnone] at hk
    cases hk
  | _ => exact h

end ControlPlane

def ControlPlane.fresh : ControlPlane :=
  ⟨⟨false, 0⟩, ⟨fun _ => false, fun _ => false, false, .sigwait, .alive⟩, none, ⟨0xa, 0, 0⟩, [], false, []⟩

theorem ControlPlane.fresh_initial : fresh.Initial := ⟨rfl, rfl, rfl, rfl, rfl⟩

end ProducerConsumer
