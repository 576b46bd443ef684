import Mathlib.Logic.Function.Basic
import ProducerConsumer.Session

/-!
# The run of a consumer

`ConsumerApp::run`: `connect`, the session and `disconnect`, one after the other, among shared memory objects that
anybody else may change in any way between two accesses.  The `RingConsumer` lives from the end of `try_attach` to
`disconnect`, and its corruption flag with it, while the tests of `try_attach` look at the control block and at process
ids only.  The theorems say what follows for a ring that was found malformed.  What a session does with its records
is left out here.
-/

namespace ProducerConsumer

open Mirrored Transition

/-! ### The model -/

/-- A shared memory object that may hold a ring. -/
structure RingObject where
  size : Nat
  control : RingControl
  data : Memory U8

/-- What `shm_open` finds under the name: nothing, an object it may not open, or an object. -/
inductive NamedObject
  | missing
  | unreadable
  | found (object : Nat)
deriving DecidableEq

/-- Everything the consumer shares with others. -/
structure ShmWorld where
  objects : Nat → RingObject
  name : NamedObject
  alive : Pid → Bool

def ShmWorld.processAlive (world : ShmWorld) (pid : Pid) : Bool := 0 < pid && world.alive pid

/-- A record that a session found malformed: where its prefix is, and the length that stood there. -/
structure BadRecord where
  tail : U64
  length : U32
deriving DecidableEq, Repr

namespace RingObject

/-- The length prefix at a counter. -/
def lengthAt (object : RingObject) (tail mask : U64) : U32 :=
  BitVec.ofNat 32 (LittleEndian.value (object.data.read (tail &&& mask).toNat 4))

/-- A consumer that is attached now. -/
def attached (object : RingObject) : RingConsumer :=
  .new object.control.capacity object.control.tail object.control.head

/-- The record is at the tail, and malformed. -/
def stillThere (object : RingObject) (r : BadRecord) : Bool :=
  object.control.tail = r.tail && object.lengthAt object.control.tail (object.control.capacity - 1) = r.length &&
    (object.attached.tryPeek object.control.head object.data).ring.corrupted

end RingObject

structure RunSetup where
  page : Nat
  /-- The process of the consumer. -/
  me : Pid
  policy : PausePolicy
  receiveTimeout : Nat
  once : Bool

def RunSetup.timeout (cfg : RunSetup) : ReceiveCall → Nat
  | .paused => kPausedTick
  | .next => cfg.receiveTimeout
  | .last => 0

/-- Where the run is.  `connect` to `tailLoaded` are inside `connect`, the last two of these in the constructor of the
`RingConsumer`; `detaching` is `disconnect` before its exchange. -/
inductive RunPhase
  | top
  | connect
  | opening
  | opened
  | ready
  | sized
  | producerAlive
  | loaded (expected : Pid)
  | checked (expected : Pid)
  | claimed
  | capacityLoaded (capacity : U64)
  | tailLoaded (capacity tail : U64)
  | session (ring : RingConsumer) (phase : SessionPhase)
  | detaching
  | returned
  | threw
deriving DecidableEq

/-- Between the first test of `try_attach` and its exchange. -/
def RunPhase.testing : RunPhase → Bool
  | ready | sized | producerAlive | loaded _ | checked _ => true
  | _ => false

/-- `object` and `mapped` belong to the region of the source.  `flagged` is the record at which the present session has
set the flag; `abandoned` are the objects and records of the sessions that ended with the flag set; `reattached` are
those of them that were at the tail, still malformed, when the object was attached to again. -/
structure RunState where
  world : ShmWorld
  stop : Bool
  paused : Bool
  phase : RunPhase
  object : Nat
  mapped : Nat
  flagged : Option BadRecord
  abandoned : List (Nat × BadRecord)
  reattached : List (Nat × BadRecord)

/-- A step of the rest of the world, of whoever controls the consumer, or of the run: `tryOpen` says whether the system
calls do what they are asked, `checkDeadline` whether the deadline of `receive` has passed. -/
inductive RunAction
  | environment (world : ShmWorld)
  | setPaused (paused : Bool)
  | requestStop
  | tryOpen (success : Bool)
  | advance
  | checkDeadline (expired : Bool)

namespace RunState

def goto (s : RunState) (phase : RunPhase) : RunState := { s with phase := phase }

/-- The object of the source. -/
def shared (s : RunState) : RingObject := s.world.objects s.object

def setControl (s : RunState) (control : RingControl) : RunState :=
  { s with
    world := { s.world with objects := Function.update s.world.objects s.object { s.shared with control := control } } }

/-- The slot of the consumer is held by another process. -/
def slotTaken (cfg : RunSetup) (s : RunState) (expected : Pid) : Bool :=
  expected ≠ 0 && expected ≠ cfg.me && s.world.processAlive expected

/-- What earlier sessions left behind on the object of the source and is still malformed at its tail. -/
def stillMalformed (s : RunState) (world : ShmWorld) : List (Nat × BadRecord) :=
  s.abandoned.filter fun r => r.1 = s.object && (world.objects s.object).stillThere r.2

/-- `try_open` and the map of the region. -/
def doOpen (cfg : RunSetup) (s : RunState) (success : Bool) : RunState :=
  match s.world.name with
  | .missing => s.goto .connect
  | .unreadable => s.goto .threw
  | .found object =>
    let size := (s.world.objects object).size
    if success = false then s.goto .threw
    else if size = 0 then s.goto .connect
    else if size < 2 * cfg.page ∨ (size - cfg.page) % cfg.page ≠ 0 then s.goto .threw
    else { s with object := object, mapped := size - cfg.page, phase := .opened }

/-- `release` of the ring, after which the session is in another phase. -/
def doRelease (s : RunState) (ring : RingConsumer) (next : SessionPhase) : RunState :=
  (s.setControl { s.shared.control with tail := ring.release.2.getD s.shared.control.tail }).goto
    (.session ring.release.1 next)

/-- After an attempt of `receive`. -/
def afterPeek (cfg : RunSetup) (call : ReceiveCall) (retry : Bool) : Option Span → SessionPhase
  | some _ => match call with | .paused => .drop | call => .process call
  | none => if retry then .expire call else if cfg.timeout call = 0 then SessionState.noRecord call else .wait call

def doPeek (cfg : RunSetup) (s : RunState) (ring : RingConsumer) (call : ReceiveCall) (retry : Bool) : RunState :=
  let result := ring.tryPeek s.shared.control.head s.shared.data
  { s with
    flagged :=
      if ring.corrupted = false ∧ result.ring.corrupted = true then
        some ⟨ring.tail, s.shared.lengthAt ring.tail ring.mask⟩
      else s.flagged
    phase := .session result.ring (afterPeek cfg call retry result.view) }

/-- The end of `run_session`, and the release in `disconnect`. -/
def doDisconnect (s : RunState) (ring : RingConsumer) : RunState :=
  { (s.setControl { s.shared.control with tail := ring.release.2.getD s.shared.control.tail }) with
    phase := .detaching
    abandoned := if ring.corrupted then s.abandoned ++ s.flagged.toList.map (s.object, ·) else s.abandoned }

/-- The exchange won. -/
def doClaim (cfg : RunSetup) (s : RunState) : RunState :=
  { (s.setControl { s.shared.control with consumerPid := cfg.me }) with
    phase := .claimed
    flagged := none
    reattached := s.reattached ++ s.stillMalformed s.world }

/-- The steps of `run_session`. -/
def sessionStep (cfg : RunSetup) (s : RunState) (ring : RingConsumer) : SessionPhase → Option RunState
  | .loop => some (s.goto (.session ring (if s.stop then .ending false else .readPause)))
  | .readPause => some (s.goto (.session ring (if s.paused then .whilePaused else .release .next)))
  | .whilePaused =>
    match cfg.policy with
    | .Blocking => some (s.doRelease ring .report)
    | .Discarding => some (s.goto (.session ring (.release .paused)))
  | .release call => some (s.doRelease ring (.peek call false))
  | .peek call retry => some (s.doPeek cfg ring call retry)
  | .wait call => some (s.goto (.session ring (if s.stop then SessionState.noRecord call else .peek call true)))
  | .drop => some (s.goto (.session ring .report))
  | .process call => some (s.goto (.session ring (if call = .last then .loop else .report)))
  | .loadPid => some (s.goto (.session ring (.loadState s.shared.control.producerPid)))
  | .loadState pid =>
    some (s.goto (.session ring (.checkAlive pid (s.shared.control.state = .ProducerFinished || ring.corrupted))))
  | .checkAlive pid finished =>
    some (s.goto (.session ring (if finished ∨ s.world.processAlive pid = false then .release .last else .report)))
  | .report => some (s.goto (.session ring .loop))
  | .ending drained => some (s.doRelease ring (.done drained))
  | .done _ => some (s.doDisconnect ring)
  | .connecting | .expire _ => none

/-- The steps that nothing is open in. -/
def advance (cfg : RunSetup) (s : RunState) : Option RunState :=
  match s.phase with
  | .top => some (s.goto (if s.stop then .returned else .connect))
  | .connect => some (s.goto (if s.stop then .returned else .opening))
  | .opened => some (s.goto (if ringControlReady s.shared.control then .ready else .connect))
  | .ready => some (s.goto (if s.shared.control.capacity.toNat ≠ s.mapped then .threw else .sized))
  | .sized => some (s.goto (if s.world.processAlive s.shared.control.producerPid then .producerAlive else .connect))
  | .producerAlive => some (s.goto (.loaded s.shared.control.consumerPid))
  | .loaded expected => some (s.goto (if s.slotTaken cfg expected then .threw else .checked expected))
  | .checked expected =>
    some (if s.shared.control.consumerPid = expected then s.doClaim cfg else s.goto .connect)
  | .claimed => some (s.goto (.capacityLoaded s.shared.control.capacity))
  | .capacityLoaded capacity => some (s.goto (.tailLoaded capacity s.shared.control.tail))
  | .tailLoaded capacity tail => some (s.goto (.session (.new capacity tail s.shared.control.head) .loop))
  | .session ring phase => s.sessionStep cfg ring phase
  | .detaching =>
    -- the exchange clears the slot only if it still holds the process
    some ((if s.shared.control.consumerPid = cfg.me then s.setControl { s.shared.control with consumerPid := 0 }
      else s).goto (if cfg.once then .returned else .top))
  | .opening | .returned | .threw => none

def step (cfg : RunSetup) (s : RunState) : RunAction → Option RunState
  | .environment world => some { s with world := world }
  | .setPaused paused => some { s with paused := paused }
  | .requestStop => some { s with stop := true }
  | .tryOpen success => if s.phase = .opening then some (s.doOpen cfg success) else none
  | .advance => s.advance cfg
  | .checkDeadline expired =>
    match s.phase with
    | .session ring (.expire call) =>
      some (s.goto (.session ring (if expired then SessionState.noRecord call else .wait call)))
    | _ => none

/-- The start of `run`: nothing is abandoned yet. -/
def Initial (s : RunState) : Prop := s.phase = .top ∧ s.abandoned = [] ∧ s.reattached = []

/-- One of the tests of `try_attach` that are still to come fails on the world as it is. -/
def turnedAway (cfg : RunSetup) (s : RunState) : Bool :=
  let notReady := !ringControlReady s.shared.control
  let otherCapacity : Bool := s.shared.control.capacity.toNat ≠ s.mapped
  let producerDead := !s.world.processAlive s.shared.control.producerPid
  let taken := s.slotTaken cfg s.shared.control.consumerPid
  match s.phase with
  | .opened => notReady || otherCapacity || producerDead || taken
  | .ready => otherCapacity || producerDead || taken
  | .sized => producerDead || taken
  | .producerAlive => taken
  | .loaded expected => s.slotTaken cfg expected || s.shared.control.consumerPid ≠ expected
  | .checked expected => s.shared.control.consumerPid ≠ expected
  | _ => true

/-- The ring that is looked at is none that an earlier session found malformed, or its record is not there any more, or
a test to come turns the run away. -/
def spared (cfg : RunSetup) (s : RunState) : Bool := (s.stillMalformed s.world).isEmpty || s.turnedAway cfg

/-- When `try_attach` begins its tests, the state of the object and of the processes is such that one of them fails if
the ring is one that an earlier session found malformed; and what others do until the exchange leaves it so. -/
def Admissible (cfg : RunSetup) (s : RunState) : RunAction → Bool
  | .advance => s.phase ≠ .opened || s.spared cfg
  | .environment world => s.phase = .opened || { s with world := world }.spared cfg
  | _ => true

end RunState

def runMachine (cfg : RunSetup) : Machine RunState RunAction where
  init := RunState.Initial
  step := RunState.step cfg

namespace RunState

variable {cfg : RunSetup} {s t : RunState}

/-! ### The tests of an attempt -/

theorem turnedAway_of_not_testing (ho : s.phase ≠ .opened) (h : s.phase.testing = false) : s.turnedAway cfg = true := by
  unfold turnedAway
  cases hphase : s.phase <;> first | rfl | exact absurd hphase ho | (rw [hphase] at h; cases h)

/-- The step attaches to nothing, and no test is passed. -/
structure Quiet (s t : RunState) : Prop where
  reattached : t.reattached = s.reattached
  away : t.phase.testing = false

theorem Quiet.goto (s : RunState) {phase : RunPhase} (h : phase.testing = false) : s.Quiet (s.goto phase) := ⟨rfl, h⟩

theorem sessionStep_effect {ring : RingConsumer} {phase : SessionPhase} (hs : s.sessionStep cfg ring phase = some t) :
    s.Quiet t := by
  unfold sessionStep at hs
  cases phase with
  | whilePaused =>
    dsimp only at hs
    split at hs <;> cases hs <;> exact ⟨rfl, rfl⟩
  | connecting | expire _ => cases hs
  | _ =>
    cases hs
    exact ⟨rfl, rfl⟩

/-- A test that is passed leaves the reason to be turned away to a later one. -/
structure Passes (cfg : RunSetup) (s t : RunState) : Prop where
  same : ∃ phase, t = s.goto phase
  turnedAway : s.turnedAway cfg = true → t.turnedAway cfg = true

/-- What a step of the run does: it passes a test, or the exchange attaches, or neither. -/
theorem advance_effect (hs : s.advance cfg = some t) :
    Passes cfg s t ∨
    (∃ expected, s.phase = .checked expected ∧ s.shared.control.consumerPid = expected ∧ t = s.doClaim cfg) ∨
    s.Quiet t := by
  unfold advance at hs
  cases hphase : s.phase with
  | session ring phase =>
    rw [hphase] at hs
    exact .inr (.inr (sessionStep_effect hs))
  | opened =>
    simp only [hphase, Option.some.injEq] at hs
    subst hs
    by_cases hready : ringControlReady s.shared.control = true
    · refine .inl ⟨⟨_, rfl⟩, ?_⟩
      rw [if_pos hready]
      simp only [turnedAway, hphase, hready, Bool.not_true, Bool.false_or]
      exact id
    · rw [if_neg hready]
      exact .inr (.inr (.goto s rfl))
  | ready =>
    simp only [hphase, Option.some.injEq] at hs
    subst hs
    by_cases hcapacity : s.shared.control.capacity.toNat = s.mapped
    · refine .inl ⟨⟨_, rfl⟩, ?_⟩
      rw [if_neg (not_not_intro hcapacity)]
      simp only [turnedAway, hphase, hcapacity, ne_eq, not_true_eq_false, decide_false, Bool.false_or]
      exact id
    · rw [if_pos hcapacity]
      exact .inr (.inr (.goto s rfl))
  | sized =>
    simp only [hphase, Option.some.injEq] at hs
    subst hs
    by_cases halive : s.world.processAlive s.shared.control.producerPid = true
    · refine .inl ⟨⟨_, rfl⟩, ?_⟩
      rw [if_pos halive]
      simp only [turnedAway, hphase, halive, Bool.not_true, Bool.false_or]
      exact id
    · rw [if_neg halive]
      exact .inr (.inr (.goto s rfl))
  | producerAlive =>
    simp only [hphase, Option.some.injEq] at hs
    subst hs
    refine .inl ⟨⟨_, rfl⟩, ?_⟩
    simp only [turnedAway, hphase]
    intro htaken
    exact Bool.or_eq_true_iff.2 (.inl htaken)
  | loaded expected =>
    simp only [hphase, Option.some.injEq] at hs
    subst hs
    by_cases htaken : s.slotTaken cfg expected = true
    · rw [if_pos htaken]
      exact .inr (.inr (.goto s rfl))
    · refine .inl ⟨⟨_, rfl⟩, ?_⟩
      rw [if_neg htaken]
      simp only [turnedAway, hphase, htaken, Bool.false_or]
      exact id
  | checked expected =>
    simp only [hphase, Option.some.injEq] at hs
    subst hs
    split
    · exact .inr (.inl ⟨expected, rfl, ‹_›, rfl⟩)
    · exact .inr (.inr (.goto s rfl))
  | opening | returned | threw =>
    rw [hphase] at hs
    cases hs
  | claimed | capacityLoaded _ | tailLoaded _ _ =>
    simp only [hphase, Option.some.injEq] at hs
    subst hs
    exact .inr (.inr (.goto s rfl))
  | top | connect =>
    simp only [hphase, Option.some.injEq] at hs
    subst hs
    refine .inr (.inr ?_)
    split <;> exact .goto s rfl
  | detaching =>
    simp only [hphase, Option.some.injEq] at hs
    subst hs
    refine .inr (.inr ⟨?_, ?_⟩)
    · split <;> rfl
    · simp only [RunState.goto]
      split <;> rfl

theorem doOpen_effect (success : Bool) : s.Quiet (s.doOpen cfg success) := by
  unfold doOpen
  split
  · exact .goto s rfl
  · exact .goto s rfl
  · dsimp only
    repeat' split
    all_goals exact ⟨rfl, rfl⟩

/-! ### No ring is attached to again -/

/-- Nothing was attached to again, and an attempt that has passed its first test on a malformed ring will be turned
away by a later one. -/
structure Inv (cfg : RunSetup) (s : RunState) : Prop where
  reattached : s.reattached = []
  spared : s.phase ≠ .opened → s.spared cfg = true

theorem spared_of_turnedAway (h : s.turnedAway cfg = true) : s.spared cfg = true := by
  rw [RunState.spared, h, Bool.or_true]

theorem Inv.quiet (hr : s.reattached = []) (h : s.Quiet t) : t.Inv cfg where
  reattached := h.reattached.trans hr
  spared ho := spared_of_turnedAway (turnedAway_of_not_testing ho h.away)

theorem Inv.init (h : s.Initial) : s.Inv cfg := by
  refine .quiet (s := s) h.2.2 ⟨rfl, ?_⟩
  rw [h.1]
  rfl

theorem Inv.advance (h : s.Inv cfg) (hg : s.Admissible cfg .advance = true) (hs : s.advance cfg = some t) :
    t.Inv cfg := by
  have hspared : s.spared cfg = true := by
    by_cases ho : s.phase = .opened
    · simpa [Admissible, ho] using hg
    · exact h.spared ho
  simp only [RunState.spared, Bool.or_eq_true, List.isEmpty_iff] at hspared
  rcases advance_effect hs with ⟨⟨phase, rfl⟩, haway⟩ | ⟨expected, hphase, hslot, rfl⟩ | hquiet
  · refine ⟨h.reattached, fun _ => ?_⟩
    simp only [RunState.spared, Bool.or_eq_true, List.isEmpty_iff]
    exact hspared.imp_right haway
  · -- the exchange is won, so that no test was left to turn the run away
    have hnone : s.stillMalformed s.world = [] := by
      refine hspared.resolve_right ?_
      simp [turnedAway, hphase, hslot]
    have hclaim : (s.doClaim cfg).reattached = s.reattached := by
      simp only [doClaim, hnone, List.append_nil]
    exact .quiet h.reattached ⟨hclaim, rfl⟩
  · exact .quiet h.reattached hquiet

theorem Inv.environment (h : s.Inv cfg) {world : ShmWorld} (hg : s.Admissible cfg (.environment world) = true) :
    Inv cfg { s with world := world } := by
  refine ⟨h.reattached, fun ho => ?_⟩
  simp only [Admissible, Bool.or_eq_true, decide_eq_true_eq] at hg
  exact hg.resolve_left ho

theorem Inv.step (h : s.Inv cfg) {a : RunAction} (hg : s.Admissible cfg a = true) (hs : s.step cfg a = some t) :
    t.Inv cfg := by
  cases a with
  | environment world =>
    cases hs
    exact h.environment hg
  | setPaused paused =>
    cases hs
    exact ⟨h.reattached, h.spared⟩
  | requestStop =>
    cases hs
    exact ⟨h.reattached, h.spared⟩
  | tryOpen success =>
    simp only [RunState.step, Option.ite_none_right_eq_some, Option.some.injEq] at hs
    obtain ⟨-, rfl⟩ := hs
    exact .quiet h.reattached (doOpen_effect success)
  | advance => exact h.advance hg hs
  | checkDeadline expired =>
    unfold RunState.step at hs
    dsimp only at hs
    split at hs
    · cases hs
      exact .quiet h.reattached (.goto s rfl)
    · cases hs

/-! ### A ring that is attached to again and again -/

/-- All tests of `try_attach` let the consumer pass, and the record at the tail of the ring is malformed. -/
structure Lures (cfg : RunSetup) (o : Nat) (r : BadRecord) (world : ShmWorld) : Prop where
  name : world.name = .found o
  nonempty : (world.objects o).size ≠ 0
  size : ¬((world.objects o).size < 2 * cfg.page ∨ ((world.objects o).size - cfg.page) % cfg.page ≠ 0)
  ready : ringControlReady (world.objects o).control = true
  capacity : (world.objects o).control.capacity.toNat = (world.objects o).size - cfg.page
  producer : world.processAlive (world.objects o).control.producerPid = true
  slot : (world.objects o).control.consumerPid = 0
  malformed : (world.objects o).stillThere r = true

@[simp] theorem goto_phase (s : RunState) (phase : RunPhase) : (s.goto phase).phase = phase := rfl
@[simp] theorem goto_goto (s : RunState) (p q : RunPhase) : (s.goto p).goto q = s.goto q := rfl
@[simp] theorem goto_shared (s : RunState) (phase : RunPhase) : (s.goto phase).shared = s.shared := rfl
@[simp] theorem goto_world (s : RunState) (phase : RunPhase) : (s.goto phase).world = s.world := rfl
@[simp] theorem goto_stop (s : RunState) (phase : RunPhase) : (s.goto phase).stop = s.stop := rfl
@[simp] theorem goto_paused (s : RunState) (phase : RunPhase) : (s.goto phase).paused = s.paused := rfl
@[simp] theorem goto_mapped (s : RunState) (phase : RunPhase) : (s.goto phase).mapped = s.mapped := rfl

@[simp] theorem shared_setControl (s : RunState) (control : RingControl) :
    (s.setControl control).shared = { s.shared with control := control } := Function.update_self ..

@[simp] theorem setControl_self (s : RunState) : s.setControl s.shared.control = s := by
  simp only [setControl, shared, Function.update_eq_self]

/-- A step of the run that nothing is open in, and what follows. -/
theorem leads_advance {u : RunState} (hs : s.advance cfg = some u) (h : (runMachine cfg).Leads u t) :
    (runMachine cfg).Leads s t := Machine.Leads.step .advance hs h

/-- The steps of `connect` on a ring that lures, up to the exchange. -/
theorem Lures.leads_claimed {o : Nat} {r : BadRecord} (hw : Lures cfg o r s.world) (htop : s.phase = .top)
    (hstop : s.stop = false) :
    (runMachine cfg).Leads s
      ({ s with object := o, mapped := (s.world.objects o).size - cfg.page }.doClaim cfg) := by
  have hopen : (s.goto .opening).step cfg (.tryOpen true) =
      some ({ s with object := o, mapped := (s.world.objects o).size - cfg.page }.goto .opened) := by
    simp only [step, goto_phase, if_true, doOpen, goto_world, hw.name, hw.nonempty, hw.size, if_false, Bool.true_eq_false]
    rfl
  refine leads_advance (u := s.goto .connect) (by simp only [advance, htop, hstop]; rfl) ?_
  refine leads_advance (u := s.goto .opening) (by simp only [advance, goto_phase, goto_stop, hstop]; rfl) ?_
  refine .step (.tryOpen true) hopen ?_
  generalize hu : { s with object := o, mapped := (s.world.objects o).size - cfg.page } = u
  have hshared : u.shared = s.world.objects o := by rw [← hu]; rfl
  have hworld : u.world = s.world := by rw [← hu]
  have hmapped : u.mapped = (s.world.objects o).size - cfg.page := by rw [← hu]
  refine leads_advance (u := u.goto .ready) ?_ ?_
  · simp only [advance, goto_phase, goto_shared, hshared, hw.ready, if_true]
    rfl
  refine leads_advance (u := u.goto .sized) ?_ ?_
  · simp only [advance, goto_phase, goto_shared, goto_mapped, hshared, hmapped, hw.capacity]
    simp
  refine leads_advance (u := u.goto .producerAlive) ?_ ?_
  · simp only [advance, goto_phase, goto_shared, goto_world, hshared, hworld, hw.producer, if_true]
    rfl
  refine leads_advance (u := u.goto (.loaded 0)) ?_ ?_
  · simp only [advance, goto_phase, goto_shared, hshared, hw.slot]
    rfl
  refine leads_advance (u := u.goto (.checked 0)) ?_ ?_
  · simp [advance, slotTaken]
  refine leads_advance ?_ (.refl _)
  simp only [advance, goto_phase, goto_shared, hshared, hw.slot, if_true]
  rfl

/-- Without a pending record a release stores nothing. -/
theorem control_release_of_none {ring : RingConsumer} (hp : ring.pending = 0) (control : RingControl) :
    { control with tail := ring.release.2.getD control.tail } = control := by
  rw [RingConsumer.release_of_none hp]
  rfl

theorem doRelease_of_none {ring : RingConsumer} (hp : ring.pending = 0) (next : SessionPhase) :
    s.doRelease ring next = s.goto (.session ring next) := by
  rw [doRelease, control_release_of_none hp, setControl_self, RingConsumer.release_of_none hp]

/-- Once the flag is set, `try_peek` does nothing. -/
theorem doPeek_of_corrupted {ring : RingConsumer} (hc : ring.corrupted = true) (call : ReceiveCall) (retry : Bool) :
    s.doPeek cfg ring call retry = s.goto (.session ring (afterPeek cfg call retry none)) := by
  simp only [doPeek, RingConsumer.tryPeek_of_corrupted hc, hc, Bool.true_eq_false, false_and, if_false]
  rfl

theorem doDisconnect_of_corrupted {ring : RingConsumer} (hc : ring.corrupted = true) (hp : ring.pending = 0)
    {r : BadRecord} (hr : s.flagged = some r) :
    s.doDisconnect ring = { s with phase := .detaching, abandoned := s.abandoned ++ [(s.object, r)] } := by
  rw [doDisconnect, control_release_of_none hp, setControl_self, if_pos hc, hr]
  rfl

/-- However long `receive` waits, it returns nothing. -/
theorem leads_noRecord {ring : RingConsumer} (hc : ring.corrupted = true) (hstop : s.stop = false) :
    (runMachine cfg).Leads (s.goto (.session ring (afterPeek cfg .next false none)))
      (s.goto (.session ring .loadPid)) := by
  by_cases htimeout : cfg.timeout .next = 0
  · simp only [afterPeek, htimeout, if_true, Bool.false_eq_true, if_false]
    exact .refl _
  · simp only [afterPeek, htimeout, Bool.false_eq_true, if_false]
    refine leads_advance (u := s.goto (.session ring (.peek .next true))) ?_ ?_
    · simp [advance, sessionStep, hstop]
    refine leads_advance (u := s.goto (.session ring (.expire .next))) ?_ ?_
    · simp [advance, sessionStep, doPeek_of_corrupted hc, afterPeek]
    exact .step (.checkDeadline true) rfl (.refl _)

/-- A session whose ring is flagged is ended by `peer_status`. -/
theorem leads_ended {ring : RingConsumer} (hc : ring.corrupted = true) (hp : ring.pending = 0) :
    (runMachine cfg).Leads (s.goto (.session ring .loadPid)) (s.goto (.session ring (.done true))) := by
  generalize hpid : s.shared.control.producerPid = pid
  refine leads_advance (u := s.goto (.session ring (.loadState pid))) ?_ ?_
  · simp [advance, sessionStep, hpid]
  refine leads_advance (u := s.goto (.session ring (.checkAlive pid true))) ?_ ?_
  · simp [advance, sessionStep, hc]
  refine leads_advance (u := s.goto (.session ring (.release .last))) ?_ ?_
  · simp [advance, sessionStep]
  refine leads_advance (u := s.goto (.session ring (.peek .last false))) ?_ ?_
  · simp [advance, sessionStep, doRelease_of_none hp]
  refine leads_advance (u := s.goto (.session ring (.ending true))) ?_ ?_
  · simp [advance, sessionStep, doPeek_of_corrupted hc, afterPeek, RunSetup.timeout, SessionState.noRecord]
  refine leads_advance ?_ (.refl _)
  simp [advance, sessionStep, doRelease_of_none hp]

/-- A session that sets the flag at its first record ends, and leaves the record behind. -/
theorem leads_detaching {ring : RingConsumer} (hphase : s.phase = .session ring .loop) (hstop : s.stop = false)
    (hpaused : s.paused = false) (hfresh : ring.corrupted = false) (hpending : ring.pending = 0)
    (hflags : (ring.tryPeek s.shared.control.head s.shared.data).ring.corrupted = true) {r : BadRecord}
    (hr : r = ⟨ring.tail, s.shared.lengthAt ring.tail ring.mask⟩) :
    (runMachine cfg).Leads s
      { s with phase := .detaching, flagged := some r, abandoned := s.abandoned ++ [(s.object, r)] } := by
  obtain ⟨hpending', hview⟩ := RingConsumer.tryPeek_flags hfresh hpending hflags
  generalize hring : (ring.tryPeek s.shared.control.head s.shared.data).ring = ring' at hflags hpending'
  have hpeek : s.doPeek cfg ring .next false =
      { s with flagged := some r }.goto (.session ring' (afterPeek cfg .next false none)) := by
    simp only [doPeek, hring, hflags, hfresh, hview, and_self, if_true, ← hr]
    rfl
  refine leads_advance (u := s.goto (.session ring .readPause)) (by simp [advance, sessionStep, hphase, hstop]) ?_
  refine leads_advance (u := s.goto (.session ring (.release .next))) (by simp [advance, sessionStep, hpaused]) ?_
  refine leads_advance (u := s.goto (.session ring (.peek .next false))) ?_ ?_
  · simp [advance, sessionStep, doRelease_of_none hpending]
  refine leads_advance (u := { s with flagged := some r }.goto (.session ring' (afterPeek cfg .next false none))) ?_ ?_
  · rw [← hpeek]
    rfl
  refine (leads_noRecord (s := { s with flagged := some r }) hflags hstop).trans ?_
  refine (leads_ended hflags hpending').trans ?_
  refine leads_advance ?_ (.refl _)
  exact congrArg some (doDisconnect_of_corrupted hflags hpending' rfl)

/-- One session of a run on a ring that lures: it attaches, sets the flag and detaches, and all is as before. -/
def lap (o : Nat) (r : BadRecord) (cfg : RunSetup) (s : RunState) : RunState :=
  { s with
    object := o
    mapped := (s.world.objects o).size - cfg.page
    flagged := some r
    abandoned := s.abandoned ++ [(o, r)]
    reattached := s.reattached ++
      s.abandoned.filter fun r => r.1 = o && (s.world.objects o).stillThere r.2 }

theorem Lures.leads_lap {o : Nat} {r : BadRecord} (hw : Lures cfg o r s.world) (htop : s.phase = .top)
    (hstop : s.stop = false) (hpaused : s.paused = false) (honce : cfg.once = false) :
    (runMachine cfg).Leads s (s.lap o r cfg) := by
  refine (hw.leads_claimed htop hstop).trans ?_
  generalize hu : { s with object := o, mapped := (s.world.objects o).size - cfg.page } = u
  have hshared : u.shared = s.world.objects o := by rw [← hu]; rfl
  generalize hv : u.doClaim cfg = v
  have hvshared : v.shared = { u.shared with control := { u.shared.control with consumerPid := cfg.me } } := by
    rw [← hv]
    exact u.shared_setControl _
  refine leads_advance (u := v.goto (.capacityLoaded v.shared.control.capacity)) (by rw [← hv]; rfl) ?_
  refine leads_advance (u := v.goto (.tailLoaded v.shared.control.capacity v.shared.control.tail)) rfl ?_
  refine leads_advance (u := v.goto (.session v.shared.attached .loop)) rfl ?_
  have hmalformed : v.shared.stillThere r = true := by
    rw [hvshared, hshared]
    exact hw.malformed
  simp only [RingObject.stillThere, Bool.and_eq_true, decide_eq_true_eq] at hmalformed
  obtain ⟨⟨htail, hlength⟩, hflags⟩ := hmalformed
  have hr : r = ⟨v.shared.attached.tail, v.shared.lengthAt v.shared.attached.tail v.shared.attached.mask⟩ := by
    cases r
    exact congrArg₂ BadRecord.mk htail.symm hlength.symm
  refine (leads_detaching (s := v.goto (.session v.shared.attached .loop)) rfl ?_ ?_ rfl rfl hflags hr).trans ?_
  · rw [← hv, ← hu]
    exact hstop
  · rw [← hv, ← hu]
    exact hpaused
  refine leads_advance ?_ (.refl _)
  have hslot : (s.world.objects o).control.consumerPid = 0 := hw.slot
  have hcontrol : { (s.world.objects o).control with consumerPid := 0 } = (s.world.objects o).control := by
    rw [← hslot]
  rw [← hv, ← hu]
  simp [advance, honce, htop, lap, goto, doClaim, setControl, shared, stillMalformed, hcontrol]

/-- Left alone, the run opens session after session on the ring, and every session after the first attaches to it again
while the same malformed record is at its tail. -/
theorem Lures.leads_laps {o : Nat} {r : BadRecord} (hw : Lures cfg o r s.world) (htop : s.phase = .top)
    (hstop : s.stop = false) (hpaused : s.paused = false) (honce : cfg.once = false) (n : Nat) :
    ∃ t, (runMachine cfg).Leads s t ∧ (t.world = s.world ∧ t.phase = .top ∧ t.stop = false ∧ t.paused = false) ∧
      t.abandoned = s.abandoned ++ List.replicate n (o, r) ∧ (2 ≤ n → (o, r) ∈ t.reattached) := by
  induction n with
  | zero => exact ⟨s, .refl s, ⟨rfl, htop, hstop, hpaused⟩, by simp, by simp⟩
  | succ n ih =>
    obtain ⟨t, hleads, ⟨hworld, htop', hstop', hpaused'⟩, habandoned, -⟩ := ih
    rw [← hworld] at hw
    refine ⟨t.lap o r cfg, hleads.trans (hw.leads_lap htop' hstop' hpaused' honce),
      ⟨hworld, htop', hstop', hpaused'⟩, ?_, fun hn => ?_⟩
    · simp only [lap, habandoned, List.append_assoc, List.replicate_succ']
    · refine List.mem_append_right _ (List.mem_filter.2 ⟨?_, by simp [hw.malformed]⟩)
      rw [habandoned]
      exact List.mem_append_right _ (List.mem_replicate.2 ⟨by omega, rfl⟩)

end RunState

/-- In a run in which every attempt on a ring that a session found malformed meets, from its first test to its exchange,
an object that is not ready, of another capacity, of a dead producer, or whose slot another live process holds, no such
ring is attached to again while the malformed record is at its tail. -/
theorem malformed_ring_abandoned (cfg : RunSetup) {s : RunState}
    (h : (runMachine cfg).ReachableUnder (fun s a => s.Admissible cfg a = true) s) : s.reattached = [] := by
  refine (Machine.ReachableUnder.invariant (I := RunState.Inv cfg) (fun _ hs => RunState.Inv.init hs) ?_ h).reattached
  intro s a t hi hg hs
  exact hi.step hg hs

/-- A ring of 4096 bytes, of the producer 7, whose only record claims a length of `2 ^ 32 - 1` bytes. -/
def malformedRing : RingObject :=
  ⟨8192, { initializeRingControl 4096 7 with head := 8 }, ⟨4096, by decide, fun _ => 0xFF⟩⟩

def malformedWorld (alive : Pid → Bool) : ShmWorld := ⟨fun _ => malformedRing, .found 0, alive⟩

/-- A consumer is started while everybody is alive. -/
def malformedStart : RunState := ⟨malformedWorld fun _ => true, false, false, .top, 0, 0, none, [], []⟩

/-- The process 9, with the default receive timeout. -/
def consumer9 : RunSetup := ⟨4096, 9, .Blocking, 50, false⟩

/-- The steps of a session that attaches, sets the flag, waits in vain and detaches. -/
def malformedSession : List RunAction :=
  [.advance, .advance, .tryOpen true] ++ List.replicate 15 .advance ++ [.checkDeadline true] ++
    List.replicate 8 .advance

/-- The producer dies after the session, and the next attempt to attach is turned away. -/
theorem malformed_ring_abandoned_dead : ∃ s, (runMachine consumer9).runUnder (RunState.Admissible consumer9)
      malformedStart (malformedSession ++ [.environment (malformedWorld (· ≠ 7)), .advance, .advance, .tryOpen true,
        .advance, .advance, .advance]) = some s ∧
    s.phase = .connect ∧ s.abandoned = [(0, ⟨0, 0xFFFFFFFF⟩)] ∧ s.reattached = [] := by
  have hrun : ((runMachine consumer9).runUnder (RunState.Admissible consumer9) malformedStart
      (malformedSession ++ [.environment (malformedWorld (· ≠ 7)), .advance, .advance, .tryOpen true, .advance, .advance,
        .advance])).map (fun s => (s.phase, s.abandoned)) = some (.connect, [(0, ⟨0, 0xFFFFFFFF⟩)]) := by
    decide +kernel
  obtain ⟨s, hs, hview⟩ := Option.map_eq_some_iff.1 hrun
  obtain ⟨hphase, habandoned⟩ := Prod.mk.inj hview
  exact ⟨s, hs, hphase, habandoned, malformed_ring_abandoned consumer9 (.runUnder (.init ⟨rfl, rfl, rfl⟩) hs)⟩

/-- Left alone, the second session attaches to the ring that the first has found malformed. -/
theorem malformed_ring_reattached :
    ¬∀ cfg s, cfg.once = false → (runMachine cfg).Reachable s → s.reattached = [] := by
  intro h
  have hrun : ((runMachine consumer9).run malformedStart (malformedSession ++ malformedSession)).map
      RunState.reattached = some [(0, ⟨0, 0xFFFFFFFF⟩)] := by
    decide +kernel
  obtain ⟨s, hs, hreattached⟩ := Option.map_eq_some_iff.1 hrun
  have hnone := h consumer9 s rfl ((Machine.Reachable.init (show malformedStart.Initial from ⟨rfl, rfl, rfl⟩)).run hs)
  rw [hreattached] at hnone
  cases hnone

end ProducerConsumer
