import ProducerConsumer.Ring
import ProducerConsumer.Lib.Machine

/-!
# The ring shared by a producer and its consumers

One `RingProducer` and a succession of `RingConsumer`s run on one region, each operation of either side a step.  The
counters are modelled by the lists of the values stored to them so far: a load of the counter of the other side returns
any of these that is not older than the last one observed, so a side may see the other one arbitrarily late.  A
consumer attaches in three steps (the compare-exchange on the slot, the load of `tail`, the load of `head`), leaves in
two (the release of `disconnect`, the compare-exchange that clears the slot), and may crash between any two steps; the
next one attaches when the slot is free or its holder is dead.  The exchanges on the slot, and the end of a process,
order the accesses of successive consumers: a new one reads the last `tail` stored and no `head` older than the last
one observed before it.
-/

namespace ProducerConsumer

open Mirrored Transition

/-! ### Records and stream positions -/

/-- The bytes a record takes in the ring, its length prefix included. -/
def recordSize (r : List U8) : Nat := 4 + r.length

/-- The position in the infinite stream at which the record number `i` starts. -/
def streamPos (recs : List (List U8)) (i : Nat) : Nat := ((recs.take i).map recordSize).sum

/-- The counter that has this position. -/
def counter (recs : List (List U8)) (i : Nat) : U64 := BitVec.ofNat 64 (streamPos recs i)

/-- A record as it stands in the ring. -/
def frame (r : List U8) : List U8 := LittleEndian.bytes 4 r.length ++ r

/-! ### The system -/

/-- Where the current consumer is: the slot may be claimed before the `RingConsumer` is built, and the record may be
released before the slot is cleared. -/
inductive ConsumerPhase
  | absent
  | claimed
  | tailLoaded (tail : U64)
  | attached (ring : RingConsumer)
  | detaching

/-- The ring, its two sides and what is said about them.

`headStores` and `tailStores` are the values stored to the counters, the oldest first; `tailSeen` and `headSeen` are
the numbers of the last stores the producer and the consumer side have observed.  `slot` is the last reserved slot and
`view` the last peeked view, while they are valid.  `committed` and `released` are the records that were committed and
released, with their bytes at that moment; `delivered` has a pair of a consumer and the number of a record for each
record returned by `try_peek`, and `abandoned` one for each record its consumer held when it crashed. -/
structure SharedRing where
  data : Memory U8
  headStores : List U64
  tailStores : List U64
  producer : RingProducer
  slot : Option Span
  tailSeen : Nat
  consumer : ConsumerPhase
  view : Option Span
  headSeen : Nat
  committed : List (List U8)
  released : List (List U8)
  consumerId : Nat
  delivered : List (Nat × Nat)
  abandoned : List (Nat × Nat)

/-- A step of one side.  `load` is the number of the store that is read if the operation loads a counter. -/
inductive RingAction
  | tryReserve (bytes : U64) (load : Nat)
  | writeSlot (i : Nat) (byte : U8)
  | commit
  | claim
  | loadTail
  | loadHead (load : Nat)
  | tryPeek (load : Nat)
  | release
  | observeHead (load : Nat)
  | disconnect
  | clearSlot
  | crash
deriving DecidableEq

/-- The steps of the producer. -/
def RingAction.ofProducer : RingAction → Bool
  | .tryReserve _ _ | .writeSlot _ _ | .commit => true
  | _ => false

/-- The steps that end the use of a view. -/
def RingAction.endsView : RingAction → Bool
  | .release | .disconnect | .crash => true
  | _ => false

theorem RingAction.endsView_of_ofProducer {a : RingAction} (h : a.ofProducer = true) : a.endsView = false := by
  cases a <;> first | rfl | cases h

namespace SharedRing

def readSpan (s : SharedRing) (sp : Span) : List U8 := s.data.read sp.offset sp.size

/-- Store number `load` of `head`, if the consumer side may still read it. -/
def headLoad (s : SharedRing) (load : Nat) : Option U64 :=
  if s.headSeen ≤ load then s.headStores[load]? else none

def tailLoad (s : SharedRing) (load : Nat) : Option U64 :=
  if s.tailSeen ≤ load then s.tailStores[load]? else none

def doReserve (s : SharedRing) (bytes tail : U64) (load : Nat) : SharedRing :=
  let r := s.producer.tryReserve tail bytes
  { s with
    data := r.store s.data
    producer := r.ring
    tailSeen := if r.tailLoaded then load else s.tailSeen
    slot := r.slot <|> s.slot }

def doWrite (s : SharedRing) (sp : Span) (i : Nat) (byte : U8) : SharedRing :=
  { s with data := s.data.set (sp.offset + i) byte }

def doCommit (s : SharedRing) : SharedRing :=
  let (ring, store) := s.producer.commit
  { s with
    producer := ring
    headStores := s.headStores ++ store.toList
    committed := s.committed ++ (s.slot.map s.readSpan).toList
    slot := none }

def doPeek (s : SharedRing) (c : RingConsumer) (head : U64) (load : Nat) : SharedRing :=
  let r := c.tryPeek head s.data
  { s with
    consumer := .attached r.ring
    headSeen := if r.headLoaded then load else s.headSeen
    view := r.view
    delivered := if r.view.isSome then s.delivered ++ [(s.consumerId, s.released.length)] else s.delivered }

/-- `release` of the consumer `c`, which is then in the phase `next`. -/
def doRelease (s : SharedRing) (c : RingConsumer) (next : RingConsumer → ConsumerPhase) : SharedRing :=
  let (ring, store) := c.release
  { s with
    consumer := next ring
    tailStores := s.tailStores ++ store.toList
    released := s.released ++ (s.view.map s.readSpan).toList
    view := none }

/-- The consumer process ends, whatever it was doing. -/
def doCrash (s : SharedRing) : SharedRing :=
  { s with
    consumer := .absent
    view := none
    abandoned := if s.view.isSome then s.abandoned ++ [(s.consumerId, s.released.length)] else s.abandoned }

/-- A load of `head` outside `try_peek`, as in `used`. -/
def doObserve (s : SharedRing) (load : Nat) : SharedRing := { s with headSeen := load }

/-- The steps that an attached consumer takes. -/
def consumerStep (s : SharedRing) (c : RingConsumer) : RingAction → Option SharedRing
  | .tryPeek load => (s.headLoad load).map fun head => s.doPeek c head load
  | .release => some (s.doRelease c .attached)
  | .observeHead load => (s.headLoad load).map fun _ => s.doObserve load
  | .disconnect => some (s.doRelease c fun _ => .detaching)
  | .crash => some s.doCrash
  | _ => none

def step (cap : Capacity) (s : SharedRing) (a : RingAction) : Option SharedRing :=
  match a with
  | .tryReserve bytes load => (s.tailLoad load).map fun tail => s.doReserve bytes tail load
  | .writeSlot i byte =>
    match s.slot with
    | some sp => if i < sp.size then some (s.doWrite sp i byte) else none
    | none => none
  | .commit => some s.doCommit
  | a =>
    match s.consumer, a with
    | .absent, .claim => some { s with consumer := .claimed, consumerId := s.consumerId + 1 }
    | .claimed, .loadTail => s.tailStores.getLast?.map fun tail => { s with consumer := .tailLoaded tail }
    | .tailLoaded tail, .loadHead load =>
      (s.headLoad load).map fun head =>
        { s with consumer := .attached (RingConsumer.new cap.word tail head), headSeen := load }
    | .attached c, a => s.consumerStep c a
    | .detaching, .clearSlot => some { s with consumer := .absent }
    | .claimed, .crash | .tailLoaded _, .crash | .detaching, .crash => some s.doCrash
    | _, _ => none

/-- A ring that was just initialised, whatever its data area holds. -/
def Initial (cap : Capacity) (s : SharedRing) : Prop :=
  s.data.capacity = cap.bytes ∧
    s = ⟨s.data, [0], [0], RingProducer.new cap.word 0 0, none, 0, .absent, none, 0, [], [], 0, [], []⟩

/-- A ring whose data area is zeroed. -/
def fresh (cap : Capacity) : SharedRing :=
  ⟨⟨cap.bytes, cap.bytes_pos, fun _ => 0⟩, [0], [0], RingProducer.new cap.word 0 0, none, 0, .absent, none, 0, [], [], 0,
    [], []⟩

theorem fresh_initial (cap : Capacity) : (fresh cap).Initial cap := ⟨rfl, rfl⟩

/-- The steps one by one: what each needs and what it makes of the state. -/
inductive StepSpec (cap : Capacity) (s : SharedRing) : RingAction → SharedRing → Prop
  | tryReserve {bytes tail : U64} {load : Nat} :
      s.tailLoad load = some tail → StepSpec cap s (.tryReserve bytes load) (s.doReserve bytes tail load)
  | writeSlot {i : Nat} {byte : U8} {sp : Span} :
      s.slot = some sp → i < sp.size → StepSpec cap s (.writeSlot i byte) (s.doWrite sp i byte)
  | commit : StepSpec cap s .commit s.doCommit
  | claim : s.consumer = .absent → StepSpec cap s .claim { s with consumer := .claimed, consumerId := s.consumerId + 1 }
  | loadTail {tail : U64} :
      s.consumer = .claimed → s.tailStores.getLast? = some tail →
        StepSpec cap s .loadTail { s with consumer := .tailLoaded tail }
  | loadHead {tail head : U64} {load : Nat} :
      s.consumer = .tailLoaded tail → s.headLoad load = some head →
        StepSpec cap s (.loadHead load)
          { s with consumer := .attached (RingConsumer.new cap.word tail head), headSeen := load }
  | tryPeek {c : RingConsumer} {head : U64} {load : Nat} :
      s.consumer = .attached c → s.headLoad load = some head → StepSpec cap s (.tryPeek load) (s.doPeek c head load)
  | release {c : RingConsumer} : s.consumer = .attached c → StepSpec cap s .release (s.doRelease c .attached)
  | observeHead {c : RingConsumer} {head : U64} {load : Nat} :
      s.consumer = .attached c → s.headLoad load = some head → StepSpec cap s (.observeHead load) (s.doObserve load)
  | disconnect {c : RingConsumer} :
      s.consumer = .attached c → StepSpec cap s .disconnect (s.doRelease c fun _ => .detaching)
  | clearSlot : s.consumer = .detaching → StepSpec cap s .clearSlot { s with consumer := .absent }
  | crash : s.consumer ≠ .absent → StepSpec cap s .crash s.doCrash

theorem StepSpec.of_step {cap : Capacity} {s t : SharedRing} {a : RingAction} (h : s.step cap a = some t) :
    StepSpec cap s a t := by
  cases a with
  | tryReserve bytes load =>
    obtain ⟨tail, hl, rfl⟩ := Option.map_eq_some_iff.1 h
    exact .tryReserve hl
  | writeSlot i byte =>
    simp only [step] at h
    cases hsp : s.slot with
    | none => simp [hsp] at h
    | some sp =>
      simp only [hsp, Option.ite_none_right_eq_some, Option.some.injEq] at h
      obtain ⟨hi, rfl⟩ := h
      exact .writeSlot hsp hi
  | commit =>
    cases h
    exact .commit
  | _ =>
    cases hc : s.consumer <;> simp only [step, hc, consumerStep, reduceCtorEq, Option.some.injEq,
      Option.map_eq_some_iff] at h
    all_goals first
      | exact h.elim
      | (obtain ⟨x, hx, rfl⟩ := h; first | exact .loadTail hc hx | exact .loadHead hc hx | exact .tryPeek hc hx |
          exact .observeHead hc hx)
      | (subst h; first | exact .claim hc | exact .release hc | exact .disconnect hc | exact .clearSlot hc |
          exact .crash (by rw [hc]; simp))

end SharedRing

def ringMachine (cap : Capacity) : Machine SharedRing RingAction where
  init := SharedRing.Initial cap
  step := SharedRing.step cap

end ProducerConsumer
