import Mathlib.Logic.Function.Basic
import Mathlib.Tactic.IntervalCases
import ProducerConsumer.Ring
import ProducerConsumer.Lib.Machine

/-!
# Attaching to a ring

One shared memory object, the producer that initialises it, and any number of processes that each hold one
`ShmPacketSource`.  Every step of `try_attach` and of `disconnect` that touches the object, or looks at which processes
are alive, is a step of its own, so that any other process may act, and any process may crash, in between.  A load of
`consumer_pid` may return any value the slot has held.
-/

namespace ProducerConsumer

open Mirrored Transition

/-! ### The model -/

/-- What the producer was given: its ring capacity, a multiple of the page size, and its process. -/
structure RingSetup where
  page : Nat
  cap : Capacity
  page_pos : 0 < page
  page_dvd : page ∣ cap.bytes
  producerPid : Pid

/-- `page + data_capacity`, the size of the object. -/
def RingSetup.total (r : RingSetup) : Nat := r.page + r.cap.bytes

/-- The stores of `initialize_ring_control`, in order. -/
def controlStores (capacity : U64) (producerPid : Pid) : List (RingControl → RingControl) :=
  [fun c => { c with magic := kRingMagic },
   fun c => { c with version := kRingVersion },
   fun c => { c with capacity := capacity },
   fun c => { c with producerPid := producerPid },
   fun c => { c with consumerPid := 0 },
   fun c => { c with head := 0 },
   fun c => { c with tail := 0 },
   fun c => { c with state := .Ready }]

/-- The control block after the first `n` stores. -/
def controlAfter (capacity : U64) (producerPid : Pid) (n : Nat) : RingControl :=
  ((controlStores capacity producerPid).take n).foldl (fun c store => store c) .zero

/-- How far the producer is: the object exists, has its size, the zeroed block and the first `n` stores are there. -/
inductive InitPhase
  | created
  | sized
  | storing (n : Nat)
  | running
  | finished
deriving DecidableEq

/-- How far the source of a process is: nothing mapped; the checks of `try_attach` passed one after the other; the
exchange won and the `RingConsumer` under construction; attached; the last record released in `disconnect`. -/
inductive SourcePhase
  | unattached
  | opened
  | ready
  | sized
  | producerAlive
  | loaded (expected : Pid)
  | checked (expected : Pid)
  | claimed
  | tailLoaded (tail : U64)
  | attached (ring : RingConsumer)
  | detaching
deriving DecidableEq

/-- From the successful exchange of the attach to the exchange of the disconnect. -/
def SourcePhase.inSlot : SourcePhase → Bool
  | claimed | tailLoaded _ | attached _ | detaching => true
  | _ => false

/-- The ready check has succeeded. -/
def SourcePhase.sawReady : SourcePhase → Bool
  | unattached | opened => false
  | _ => true

theorem SourcePhase.sawReady_of_inSlot {phase : SourcePhase} (h : phase.inSlot = true) : phase.sawReady = true := by
  cases phase <;> first | rfl | cases h

theorem SourcePhase.ne_of_inSlot {phase : SourcePhase} (h : phase.inSlot = true) : phase ≠ .unattached := by
  rintro rfl
  cases h

/-- A `ShmPacketSource`: `mapped` is the data size of its region, while it has one. -/
structure Source where
  mapped : Nat
  phase : SourcePhase

/-- `slotStores` are the values `consumer_pid` has had, the oldest first. -/
structure AttachState where
  size : Nat
  control : RingControl
  slotStores : List Pid
  data : Memory U8
  producer : InitPhase
  alive : Pid → Bool
  source : Pid → Source

inductive SourceAction
  | openRegion (found : Bool)
  | checkReady
  | checkCapacity
  | checkProducer
  | loadSlot (load : Nat)
  | checkSlot
  | compareExchange
  | loadTail
  | loadHead
  | tryPeek
  | release
  | disconnect
  | clearSlot
deriving DecidableEq

inductive AttachAction
  | truncate
  | construct
  | store
  | publish (head : U64) (cells : Nat → U8)
  | finish
  | source (p : Pid) (a : SourceAction)
  | crash (p : Pid)

namespace AttachState

def processAlive (s : AttachState) (p : Pid) : Bool := 0 < p && s.alive p

def inSlot (s : AttachState) (p : Pid) : Bool := (s.source p).phase.inSlot

def setControl (s : AttachState) (control : RingControl) : AttachState :=
  { s with control := control, slotStores := s.slotStores ++ [control.consumerPid] }

def setSource (s : AttachState) (p : Pid) (src : Source) : AttachState :=
  { s with source := Function.update s.source p src }

/-- The source of `p` goes on to a phase. -/
def goto (s : AttachState) (p : Pid) (phase : SourcePhase) : AttachState :=
  s.setSource p { s.source p with phase := phase }

/-- `try_open`: the region is mapped if the object has a plausible size. -/
def doOpen (page : Nat) (s : AttachState) (p : Pid) : AttachState :=
  if s.size = 0 ∨ s.size < 2 * page ∨ (s.size - page) % page ≠ 0 then s
  else s.setSource p ⟨s.size - page, .opened⟩

/-- `release` of the ring of `p`, which is then in the given phase. -/
def doRelease (s : AttachState) (p : Pid) (c : RingConsumer) (next : RingConsumer → SourcePhase) : AttachState :=
  let (ring, store) := c.release
  (s.setControl { s.control with tail := store.getD s.control.tail }).goto p (next ring)

/-- A failed check ends the attempt: `try_attach` returns false or throws. -/
def sourceStep (page : Nat) (s : AttachState) (p : Pid) (a : SourceAction) : Option AttachState :=
  match (s.source p).phase, a with
  | .unattached, .openRegion found => some (if found then s.doOpen page p else s)
  | .opened, .checkReady => some (s.goto p (if ringControlReady s.control then .ready else .unattached))
  | .ready, .checkCapacity =>
    some (s.goto p (if s.control.capacity.toNat ≠ (s.source p).mapped then .unattached else .sized))
  | .sized, .checkProducer =>
    some (s.goto p (if s.processAlive s.control.producerPid then .producerAlive else .unattached))
  | .producerAlive, .loadSlot load => s.slotStores[load]?.map fun expected => s.goto p (.loaded expected)
  | .loaded expected, .checkSlot =>
    some (s.goto p (if expected ≠ 0 ∧ expected ≠ p ∧ s.processAlive expected then .unattached else .checked expected))
  | .checked expected, .compareExchange =>
    if s.control.consumerPid = expected then
      some ((s.setControl { s.control with consumerPid := p }).goto p .claimed)
    else some (s.goto p .unattached)
  | .claimed, .loadTail => some (s.goto p (.tailLoaded s.control.tail))
  | .tailLoaded tail, .loadHead => some (s.goto p (.attached (RingConsumer.new s.control.capacity tail s.control.head)))
  | .attached c, .tryPeek => some (s.goto p (.attached (c.tryPeek s.control.head s.data).ring))
  | .attached c, .release => some (s.doRelease p c .attached)
  | .attached c, .disconnect => some (s.doRelease p c fun _ => .detaching)
  | .detaching, .clearSlot =>
    if s.control.consumerPid = p then some ((s.setControl { s.control with consumerPid := 0 }).goto p .unattached)
    else some (s.goto p .unattached)
  | _, _ => none

def producerStep (r : RingSetup) (s : AttachState) (a : AttachAction) : Option AttachState :=
  match s.producer, a with
  | .created, .truncate => some { s with size := r.total, producer := .sized }
  | .sized, .construct => some { s.setControl .zero with producer := .storing 0 }
  | .storing n, .store =>
    (controlStores r.cap.word r.producerPid)[n]?.map fun store =>
      { s.setControl (store s.control) with
        producer := if n + 1 = (controlStores r.cap.word r.producerPid).length then .running else .storing (n + 1) }
  | .running, .publish head cells =>
    some { s with control := { s.control with head := head }, data := { s.data with cells := cells } }
  | .running, .finish => some { s with control := { s.control with state := .ProducerFinished }, producer := .finished }
  | _, _ => none

def step (r : RingSetup) (s : AttachState) (a : AttachAction) : Option AttachState :=
  match a with
  | .source p a => if s.processAlive p then s.sourceStep r.page p a else none
  | .crash p => some { s with alive := Function.update s.alive p false }
  | a => if s.processAlive r.producerPid then s.producerStep r a else none

/-- A fresh object: no size, zero bytes, and no process has opened it. -/
def Initial (s : AttachState) : Prop :=
  s.size = 0 ∧ s.control = .zero ∧ s.slotStores = [0] ∧ s.producer = .created ∧
    ∀ p, (s.source p).phase = .unattached

/-- A fresh object among live processes. -/
def fresh : AttachState :=
  ⟨0, .zero, [0], ⟨16, by decide, fun _ => 0⟩, .created, fun _ => true, fun _ => ⟨0, .unattached⟩⟩

theorem fresh_initial : fresh.Initial := ⟨rfl, rfl, rfl, rfl, fun _ => rfl⟩

end AttachState

def attachMachine (r : RingSetup) : Machine AttachState AttachAction where
  init := AttachState.Initial
  step := AttachState.step r

/-! ### The stores of the initialisation -/

theorem controlAfter_length (capacity : U64) (pid : Pid) :
    controlAfter capacity pid (controlStores capacity pid).length = initializeRingControl capacity pid := rfl

theorem controlAfter_succ {capacity : U64} {pid : Pid} {n : Nat} {store : RingControl → RingControl}
    (h : (controlStores capacity pid)[n]? = some store) :
    controlAfter capacity pid (n + 1) = store (controlAfter capacity pid n) := by
  obtain ⟨hlt, rfl⟩ := List.getElem?_eq_some_iff.1 h
  rw [controlAfter, List.take_succ_eq_append_getElem hlt, List.foldl_append]
  rfl

/-- The block is not ready before the last store. -/
theorem controlAfter_state {capacity : U64} {pid : Pid} {n : Nat} (h : n < (controlStores capacity pid).length) :
    (controlAfter capacity pid n).state = .Initializing := by
  have hlen : (controlStores capacity pid).length = 8 := rfl
  rw [hlen] at h
  interval_cases n <;> rfl

theorem not_ready_of_initializing {control : RingControl} (h : control.state = .Initializing) :
    ringControlReady control = false := by
  simp [ringControlReady, h]

namespace AttachState

variable {r : RingSetup} {s t : AttachState} {p q : Pid}

theorem processAlive_iff : s.processAlive p = true ↔ 0 < p ∧ s.alive p = true := by
  rw [processAlive, Bool.and_eq_true, decide_eq_true_eq]

theorem setSource_self (s : AttachState) (p : Pid) (src : Source) : (s.setSource p src).source p = src :=
  Function.update_self ..

theorem setSource_ne (s : AttachState) (src : Source) (h : q ≠ p) : (s.setSource p src).source q = s.source q :=
  Function.update_of_ne h ..

/-! ### The invariant -/

/-- What the object looks like at each point of the initialisation. -/
def InitOk (r : RingSetup) (s : AttachState) : Prop :=
  match s.producer with
  | .created => s.size = 0 ∧ s.control = .zero
  | .sized => s.size = r.total ∧ s.control = .zero
  | .storing n => s.size = r.total ∧ n < (controlStores r.cap.word r.producerPid).length ∧
      s.control = controlAfter r.cap.word r.producerPid n
  | .running | .finished => s.size = r.total ∧ s.control.capacity = r.cap.word ∧ s.control.state ≠ .Initializing

structure Inv (r : RingSetup) (s : AttachState) : Prop where
  producer : InitOk r s
  positive : ∀ p, (s.source p).phase ≠ .unattached → 0 < p
  mapped : ∀ p, (s.source p).phase ≠ .unattached → (s.source p).mapped = r.cap.bytes
  sawReady : ∀ p, (s.source p).phase.sawReady = true → s.control.state ≠ .Initializing
  checked : ∀ p e, (s.source p).phase = .checked e → e = 0 ∨ e = p ∨ s.processAlive e = false
  holder : ∀ p, s.inSlot p = true → s.alive p = true → s.control.consumerPid = p

theorem Inv.size (h : s.Inv r) : s.size = 0 ∨ s.size = r.total := by
  have hp := h.producer
  unfold InitOk at hp
  split at hp
  · exact .inl hp.1
  all_goals exact .inr hp.1

/-- A block that has left the initial state is the one the producer initialised. -/
theorem Inv.published (h : s.Inv r) (hstate : s.control.state ≠ .Initializing) :
    (s.producer = .running ∨ s.producer = .finished) ∧ s.size = r.total ∧ s.control.capacity = r.cap.word := by
  have hp := h.producer
  unfold InitOk at hp
  cases hphase : s.producer with
  | created =>
    rw [hphase] at hp
    exact absurd (by rw [hp.2]; rfl) hstate
  | sized =>
    rw [hphase] at hp
    exact absurd (by rw [hp.2]; rfl) hstate
  | storing n =>
    rw [hphase] at hp
    exact absurd (by rw [hp.2.2]; exact controlAfter_state hp.2.1) hstate
  | running =>
    rw [hphase] at hp
    exact ⟨.inl rfl, hp.1, hp.2.1⟩
  | finished =>
    rw [hphase] at hp
    exact ⟨.inr rfl, hp.1, hp.2.1⟩

/-- Before the block is ready no source is past the ready check. -/
theorem Inv.unseen (h : s.Inv r) (hstate : s.control.state = .Initializing) (p : Pid) :
    (s.source p).phase.sawReady = false := by
  rw [← Bool.not_eq_true]
  exact fun hp => h.sawReady p hp hstate

/-- A source goes on to a phase that it may be in, and nothing else changes. -/
theorem Inv.setSource (h : s.Inv r) {src : Source} (hp : 0 < p)
    (hmapped : src.phase ≠ .unattached → src.mapped = r.cap.bytes)
    (hready : src.phase.sawReady = true → s.control.state ≠ .Initializing)
    (hchecked : ∀ e, src.phase = .checked e → e = 0 ∨ e = p ∨ s.processAlive e = false)
    (hslot : src.phase.inSlot = true → s.alive p = true → s.control.consumerPid = p) :
    (s.setSource p src).Inv r := by
  refine ⟨h.producer, ?_, ?_, ?_, ?_, ?_⟩
  all_goals
    intro q
    rcases eq_or_ne q p with rfl | hq
  · exact fun _ => hp
  · rw [setSource_ne s src hq]
    exact h.positive q
  · rw [setSource_self]
    exact hmapped
  · rw [setSource_ne s src hq]
    exact h.mapped q
  · rw [setSource_self]
    exact hready
  · rw [setSource_ne s src hq]
    exact h.sawReady q
  · rw [setSource_self]
    exact hchecked
  · rw [setSource_ne s src hq]
    exact h.checked q
  · rw [inSlot, setSource_self]
    exact hslot
  · rw [inSlot, setSource_ne s src hq]
    exact h.holder q

/-- The next check succeeds or fails. -/
theorem Inv.goto (h : s.Inv r) {phase : SourcePhase} (hp : 0 < p) (hfrom : (s.source p).phase ≠ .unattached)
    (hready : phase.sawReady = true → s.control.state ≠ .Initializing)
    (hchecked : ∀ e, phase = .checked e → e = 0 ∨ e = p ∨ s.processAlive e = false)
    (hslot : phase.inSlot = true → s.alive p = true → s.control.consumerPid = p) : (s.goto p phase).Inv r :=
  h.setSource hp (fun _ => h.mapped p hfrom) hready hchecked hslot

theorem Inv.giveUp (h : s.Inv r) (hp : 0 < p) : (s.goto p .unattached).Inv r :=
  h.setSource hp (fun h => absurd rfl h) (fun h => by cases h) (fun e h => by cases h) (fun h => by cases h)

/-- A check after the ready check succeeds. -/
theorem Inv.pass (h : s.Inv r) (hp : 0 < p) (hready : (s.source p).phase.sawReady = true) {phase : SourcePhase}
    (hchecked : ∀ e, phase ≠ .checked e) (hslot : phase.inSlot = false) : (s.goto p phase).Inv r := by
  have hfrom : (s.source p).phase ≠ .unattached := by
    intro hphase
    rw [hphase] at hready
    cases hready
  refine h.goto hp hfrom (fun _ => h.sawReady p hready) (fun e he => absurd he (hchecked e)) fun hin => ?_
  rw [hslot] at hin
  cases hin

/-- A holder of the slot goes on. -/
theorem Inv.hold (h : s.Inv r) (hp : 0 < p) (hslot : s.inSlot p = true) {phase : SourcePhase}
    (hphase : ∀ e, phase ≠ .checked e) : (s.goto p phase).Inv r :=
  h.goto hp (SourcePhase.ne_of_inSlot hslot) (fun _ => h.sawReady p (SourcePhase.sawReady_of_inSlot hslot))
    (fun e he => absurd he (hphase e)) (fun _ => h.holder p hslot)

/-- A step on a ready block that leaves it ready with its capacity, and the slot to its live holder. -/
theorem Inv.update (h : s.Inv r) (hready : s.control.state ≠ .Initializing) (hsource : t.source = s.source)
    (halive : t.alive = s.alive) (hproducer : t.producer = .running ∨ t.producer = .finished) (hsize : t.size = s.size)
    (hcap : t.control.capacity = s.control.capacity) (hstate : t.control.state ≠ .Initializing)
    (hslot : ∀ q, s.inSlot q = true → s.alive q = true → t.control.consumerPid = q) : t.Inv r := by
  obtain ⟨-, htotal, hword⟩ := h.published hready
  refine ⟨?_, ?_, ?_, fun _ _ => hstate, ?_, ?_⟩
  · unfold InitOk
    rcases hproducer with hp | hp <;> rw [hp] <;> exact ⟨hsize.trans htotal, hcap.trans hword, hstate⟩
  · rw [hsource]
    exact h.positive
  · rw [hsource]
    exact h.mapped
  · intro p e he
    rw [hsource] at he
    rw [processAlive, halive]
    exact h.checked p e he
  · intro q hq hlive
    rw [inSlot, hsource] at hq
    rw [halive] at hlive
    exact hslot q hq hlive

/-- While the block is being initialised no source looks at it. -/
theorem Inv.initialise (h : s.Inv r) (hstate : s.control.state = .Initializing) (hsource : t.source = s.source)
    (ht : InitOk r t) : t.Inv r := by
  have hunseen (p : Pid) : (t.source p).phase.sawReady = false := by
    rw [hsource]
    exact h.unseen hstate p
  refine ⟨ht, ?_, ?_, ?_, ?_, ?_⟩
  · rw [hsource]
    exact h.positive
  · rw [hsource]
    exact h.mapped
  · intro p hp
    rw [hunseen p] at hp
    cases hp
  · intro p e he
    have := hunseen p
    rw [he] at this
    cases this
  · intro p hp
    have := hunseen p
    rw [SourcePhase.sawReady_of_inSlot hp] at this
    cases this

theorem Inv.init (h : s.Initial) : s.Inv r := by
  obtain ⟨hsize, hcontrol, -, hphase, hsource⟩ := h
  refine ⟨?_, ?_, ?_, ?_, ?_, ?_⟩
  · rw [InitOk, hphase]
    exact ⟨hsize, hcontrol⟩
  · exact fun p hp => absurd (hsource p) hp
  · exact fun p hp => absurd (hsource p) hp
  · intro p hp
    rw [hsource p] at hp
    cases hp
  · intro p e he
    rw [hsource p] at he
    cases he
  · intro p hp
    rw [inSlot, hsource p] at hp
    cases hp

/-! ### Steps of the producer -/

theorem Inv.producerStep (h : s.Inv r) {a : AttachAction} (hs : s.producerStep r a = some t) : t.Inv r := by
  have hinit := h.producer
  unfold InitOk at hinit
  unfold AttachState.producerStep at hs
  cases hphase : s.producer <;> cases a <;> simp only [hphase, reduceCtorEq, Option.some.injEq] at hs hinit
  case created.truncate =>
    obtain ⟨-, hcontrol⟩ := hinit
    subst hs
    exact h.initialise (by rw [hcontrol]; rfl) rfl ⟨rfl, hcontrol⟩
  case sized.construct =>
    obtain ⟨hsize, hcontrol⟩ := hinit
    subst hs
    exact h.initialise (by rw [hcontrol]; rfl) rfl ⟨hsize, Nat.zero_lt_succ _, rfl⟩
  case storing.store n =>
    obtain ⟨hsize, hn, hcontrol⟩ := hinit
    obtain ⟨store, hstore, rfl⟩ := Option.map_eq_some_iff.1 hs
    have hnext := controlAfter_succ hstore
    rw [← hcontrol] at hnext
    refine h.initialise (by rw [hcontrol]; exact controlAfter_state hn) rfl ?_
    unfold InitOk
    by_cases hlast : n + 1 = (controlStores r.cap.word r.producerPid).length
    · rw [hlast, controlAfter_length] at hnext
      simp only [hlast, if_true, setControl, ← hnext]
      exact ⟨hsize, rfl, by simp [initializeRingControl]⟩
    · simp only [hlast, if_false]
      exact ⟨hsize, by omega, hnext.symm⟩
  case running.publish head cells =>
    subst hs
    exact h.update hinit.2.2 rfl rfl (.inl rfl) rfl rfl hinit.2.2 h.holder
  case running.finish =>
    subst hs
    exact h.update hinit.2.2 rfl rfl (.inr rfl) rfl rfl (by simp) h.holder

/-! ### Steps of a source -/

/-- At the exchange no live process is in the slot, whatever happened since the slot was loaded. -/
theorem Inv.slot_free (h : s.Inv r) {e : Pid} (hphase : (s.source p).phase = .checked e)
    (he : s.control.consumerPid = e) (q : Pid) (hq : s.inSlot q = true) : s.alive q = false := by
  rw [← Bool.not_eq_true]
  intro hlive
  have hholder := h.holder q hq hlive
  have hpos := h.positive q (SourcePhase.ne_of_inSlot hq)
  -- the slot still has the value that was checked: nobody, the process itself, or a dead one
  rcases h.checked p e hphase with rfl | rfl | hdead
  · rw [← hholder, he] at hpos
    exact absurd hpos (Int.lt_irrefl 0)
  · rw [inSlot, ← hholder, he, hphase] at hq
    cases hq
  · rw [← he, hholder, ← Bool.not_eq_true, processAlive_iff] at hdead
    exact hdead ⟨hpos, hlive⟩

theorem Inv.doOpen (h : s.Inv r) (hp : 0 < p) : (s.doOpen r.page p).Inv r := by
  unfold AttachState.doOpen
  split
  · exact h
  · rename_i hsize
    have hmapped : s.size - r.page = r.cap.bytes := by
      have := h.size
      rw [RingSetup.total] at this
      omega
    exact h.setSource hp (fun _ => hmapped) (fun h => by cases h) (fun e h => by cases h) (fun h => by cases h)

theorem Inv.doRelease (h : s.Inv r) (hp : 0 < p) {c : RingConsumer} (hphase : (s.source p).phase = .attached c)
    {next : RingConsumer → SourcePhase} (hnext : ∀ c e, next c ≠ .checked e) : (s.doRelease p c next).Inv r := by
  have hslot : s.inSlot p = true := by rw [inSlot, hphase]; rfl
  have hready := h.sawReady p (SourcePhase.sawReady_of_inSlot hslot)
  obtain ⟨hproducer, -⟩ := h.published hready
  have hset : (s.setControl { s.control with tail := c.release.2.getD s.control.tail }).Inv r :=
    h.update hready rfl rfl hproducer rfl rfl hready h.holder
  exact hset.hold hp hslot (hnext _)

theorem Inv.sourceStep (h : s.Inv r) (hp : 0 < p) {a : SourceAction} (hs : s.sourceStep r.page p a = some t) :
    t.Inv r := by
  unfold AttachState.sourceStep at hs
  cases hphase : (s.source p).phase <;> cases a <;> simp only [hphase, reduceCtorEq, Option.some.injEq] at hs
  case unattached.openRegion found =>
    subst hs
    split
    · exact h.doOpen hp
    · exact h
  case opened.checkReady =>
    subst hs
    split
    · rename_i hready
      refine h.goto hp (by simp [hphase]) (fun _ hinit => ?_) (fun e he => by cases he) (fun h => by cases h)
      rw [not_ready_of_initializing hinit] at hready
      cases hready
    · exact h.giveUp hp
  case ready.checkCapacity =>
    subst hs
    split
    · exact h.giveUp hp
    · exact h.pass hp (by rw [hphase]; rfl) (fun e he => by cases he) rfl
  case sized.checkProducer =>
    subst hs
    split
    · exact h.pass hp (by rw [hphase]; rfl) (fun e he => by cases he) rfl
    · exact h.giveUp hp
  case producerAlive.loadSlot load =>
    obtain ⟨e, -, rfl⟩ := Option.map_eq_some_iff.1 hs
    exact h.pass hp (by rw [hphase]; rfl) (fun e he => by cases he) rfl
  case loaded.checkSlot e =>
    subst hs
    split
    · exact h.giveUp hp
    · rename_i hfree
      refine h.goto hp (by simp [hphase]) (fun _ => h.sawReady p (by rw [hphase]; rfl)) ?_ (fun h => by cases h)
      rintro e' ⟨⟩
      rw [← Bool.not_eq_true]
      tauto
  case checked.compareExchange e =>
    have hready := h.sawReady p (by rw [hphase]; rfl)
    obtain ⟨hproducer, -⟩ := h.published hready
    split at hs
    · rename_i he
      cases hs
      have hset : (s.setControl { s.control with consumerPid := p }).Inv r := by
        refine h.update hready rfl rfl hproducer rfl rfl hready fun q hq hlive => ?_
        rw [h.slot_free hphase he q hq] at hlive
        cases hlive
      exact hset.goto hp (by simp [setControl, hphase]) (fun _ => hready) (fun e he => by cases he) (fun _ _ => rfl)
    · cases hs
      exact h.giveUp hp
  case claimed.loadTail =>
    subst hs
    exact h.hold hp (by rw [inSlot, hphase]; rfl) (fun e he => by cases he)
  case tailLoaded.loadHead tail =>
    subst hs
    exact h.hold hp (by rw [inSlot, hphase]; rfl) (fun e he => by cases he)
  case attached.tryPeek c =>
    subst hs
    exact h.hold hp (by rw [inSlot, hphase]; rfl) (fun e he => by cases he)
  case attached.release c =>
    subst hs
    exact h.doRelease hp hphase (fun c e he => by cases he)
  case attached.disconnect c =>
    subst hs
    exact h.doRelease hp hphase (fun c e he => by cases he)
  case detaching.clearSlot =>
    split at hs
    · rename_i hmine
      cases hs
      have hready := h.sawReady p (by rw [hphase]; rfl)
      obtain ⟨hproducer, -⟩ := h.published hready
      -- another live process in the slot would be its holder
      refine (h.giveUp hp).update hready rfl rfl hproducer rfl rfl hready fun q hq hlive => ?_
      rcases eq_or_ne q p with rfl | hne
      · rw [inSlot, AttachState.goto, setSource_self] at hq
        cases hq
      · rw [inSlot, AttachState.goto, setSource_ne s _ hne] at hq
        exact absurd ((h.holder q hq hlive).symm.trans hmine) hne
    · cases hs
      exact h.giveUp hp

/-- A process that has crashed is no longer alive, and stays so. -/
theorem Inv.crash (h : s.Inv r) (p : Pid) : { s with alive := Function.update s.alive p false }.Inv r := by
  have hdead (q : Pid) (hq : Function.update s.alive p false q = true) : s.alive q = true := by
    rcases eq_or_ne q p with rfl | hne
    · rw [Function.update_self] at hq
      cases hq
    · rwa [Function.update_of_ne hne] at hq
  refine ⟨h.producer, h.positive, h.mapped, h.sawReady, ?_, fun q hq hlive => h.holder q hq (hdead q hlive)⟩
  intro q e he
  refine (h.checked q e he).imp id (Or.imp id ?_)
  rw [← Bool.not_eq_true, ← Bool.not_eq_true, processAlive_iff, processAlive_iff]
  exact fun hnot hlive => hnot ⟨hlive.1, hdead e hlive.2⟩

theorem Inv.step (h : s.Inv r) {a : AttachAction} (hs : s.step r a = some t) : t.Inv r := by
  unfold AttachState.step at hs
  split at hs
  · simp only [Option.ite_none_right_eq_some, processAlive_iff] at hs
    exact h.sourceStep hs.1.1 hs.2
  · cases hs
    exact h.crash _
  · simp only [Option.ite_none_right_eq_some] at hs
    exact h.producerStep hs.2

theorem Inv.of_reachable (h : (attachMachine r).Reachable s) : s.Inv r := by
  refine Machine.Reachable.invariant (I := AttachState.Inv r) (fun _ hs => Inv.init hs) ?_ h
  intro s a t hi hs
  exact hi.step hs

/-- A step of a source that is not in the slot either wins the exchange, or leaves the control block as it is and the
source unconnected. -/
theorem sourceStep_outside (hslot : s.inSlot p = false) {page : Nat} {a : SourceAction}
    (hs : s.sourceStep page p a = some t) :
    a = .compareExchange ∧ (t.source p).phase = .claimed ∨ t.control = s.control ∧ t.inSlot p = false := by
  have hgoto (phase : SourcePhase) (h : phase.inSlot = false) :
      (s.goto p phase).control = s.control ∧ (s.goto p phase).inSlot p = false := by
    refine ⟨rfl, ?_⟩
    rw [inSlot, goto, setSource_self]
    exact h
  have hsame : s.control = s.control ∧ s.inSlot p = false := ⟨rfl, hslot⟩
  unfold sourceStep at hs
  cases hphase : (s.source p).phase with
  | unattached =>
    cases a <;> simp only [hphase, reduceCtorEq, Option.some.injEq] at hs
    right
    subst hs
    split
    · unfold doOpen
      split
      · exact hsame
      · refine ⟨rfl, ?_⟩
        rw [inSlot, setSource_self]
        rfl
    · exact hsame
  | opened | ready | sized | loaded e =>
    cases a <;> simp only [hphase, reduceCtorEq, Option.some.injEq] at hs
    right
    subst hs
    split <;> exact hgoto _ rfl
  | producerAlive =>
    cases a <;> simp only [hphase, reduceCtorEq, Option.map_eq_some_iff] at hs
    obtain ⟨e, -, rfl⟩ := hs
    exact .inr (hgoto _ rfl)
  | checked e =>
    cases a <;> simp only [hphase, reduceCtorEq] at hs
    split at hs <;> cases hs
    · left
      refine ⟨rfl, ?_⟩
      rw [goto, setSource_self]
    · exact .inr (hgoto _ rfl)
  | claimed | tailLoaded | attached | detaching =>
    rw [inSlot, hphase] at hslot
    cases hslot

/-- The exchange of `disconnect` touches the slot only if the process is in it. -/
theorem sourceStep_clearSlot {page : Nat} (hs : s.sourceStep page p .clearSlot = some t) :
    t.inSlot p = false ∧ (s.control.consumerPid ≠ p → t.control = s.control) := by
  have hgoto (u : AttachState) : (u.goto p .unattached).inSlot p = false := by
    rw [inSlot, goto, setSource_self]
    rfl
  unfold sourceStep at hs
  cases hphase : (s.source p).phase <;> simp only [hphase, reduceCtorEq] at hs
  split at hs <;> cases hs
  · exact ⟨hgoto _, fun hne => absurd (by assumption) hne⟩
  · exact ⟨hgoto _, fun _ => rfl⟩

end AttachState

/-- (a) At most one live process is in the slot. (b) Who is in the slot got there when the block was ready and its
capacity the mapped size. (c) A disconnect clears the slot of no other process. (d) The steps of an attempt, but for the
exchange that ends it successfully, change nothing in the control block and leave the source unconnected. -/
theorem attach_exclusive (r : RingSetup) {s : AttachState} (h : (attachMachine r).Reachable s) :
    (∀ p q, s.alive p = true → s.alive q = true → s.inSlot p = true → s.inSlot q = true → p = q) ∧
    (∀ p, s.inSlot p = true → s.control.state ≠ .Initializing ∧ (s.producer = .running ∨ s.producer = .finished) ∧
      s.control.capacity.toNat = (s.source p).mapped ∧ (s.source p).mapped = r.cap.bytes) ∧
    (∀ p t, s.step r (.source p .clearSlot) = some t →
      t.inSlot p = false ∧ (s.control.consumerPid ≠ p → t.control = s.control)) ∧
    (∀ p a t, s.inSlot p = false → s.step r (.source p a) = some t →
      a = .compareExchange ∧ (t.source p).phase = .claimed ∨ t.control = s.control ∧ t.inSlot p = false) := by
  have hi := AttachState.Inv.of_reachable h
  refine ⟨?_, ?_, ?_, ?_⟩
  · intro p q hp hq hslotp hslotq
    rw [← hi.holder p hslotp hp, hi.holder q hslotq hq]
  · intro p hp
    have hready := hi.sawReady p (SourcePhase.sawReady_of_inSlot hp)
    obtain ⟨hproducer, -, hword⟩ := hi.published hready
    have hmapped := hi.mapped p (SourcePhase.ne_of_inSlot hp)
    exact ⟨hready, hproducer, by rw [hword, hmapped, Capacity.word_toNat], hmapped⟩
  · intro p t hs
    simp only [AttachState.step, Option.ite_none_right_eq_some] at hs
    exact AttachState.sourceStep_clearSlot hs.2
  · intro p a t hslot hs
    simp only [AttachState.step, Option.ite_none_right_eq_some] at hs
    exact AttachState.sourceStep_outside hslot hs.2

/-- The smallest ring, of the producer 7. -/
def setup16 : RingSetup := ⟨16, capacity16, by decide, by decide, 7⟩

/-- An attempt to attach up to its exchange; `load` is the store of `consumer_pid` that it reads. -/
def attemptActions (p : Pid) (load : Nat) : List AttachAction :=
  [.source p (.openRegion true), .source p .checkReady, .source p .checkCapacity, .source p .checkProducer,
    .source p (.loadSlot load), .source p .checkSlot]

/-- The producer initialises the object; the processes 9 and 11 pass all checks, and 9 wins the exchange.  Then it
crashes, and the next attempt of 11 takes the slot over. -/
def attachActions : List AttachAction :=
  [.truncate, .construct, .store, .store, .store, .store, .store, .store, .store, .store] ++ attemptActions 9 0 ++
    attemptActions 11 0 ++ [.source 9 .compareExchange, .source 11 .compareExchange, .crash 9] ++ attemptActions 11 10 ++
    [.source 11 .compareExchange]

theorem attach_exclusive_crash : ∃ s, (attachMachine setup16).run .fresh attachActions = some s ∧
    s.control.consumerPid = 11 ∧ s.inSlot 9 = true ∧ s.alive 9 = false ∧
    (∀ q, s.alive q = true → s.inSlot q = true → q = 11) ∧ s.control.capacity.toNat = (s.source 11).mapped := by
  have h (s : AttachState) (hr : (attachMachine setup16).run .fresh attachActions = some s) :=
    attach_exclusive setup16 ((Machine.Reachable.init AttachState.fresh_initial).run hr)
  refine ⟨_, rfl, rfl, rfl, rfl, fun q hlive hslot => (h _ rfl).1 q 11 hlive rfl hslot rfl, ((h _ rfl).2.1 11 rfl).2.2.1⟩

end ProducerConsumer
