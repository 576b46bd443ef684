import ProducerConsumer.Accounting
import ProducerConsumer.Builder

/-!
# A stream from end to end

`ProducerApp::run` on the sink of a shared ring, step by step, in parallel with a session of the consumer on that ring.
Every attempt of `reserve`, every byte that the builder stores and the commit is a step of its own; the process may
end between any two steps.  The rate limiter and the reports change nothing of this state.
-/

namespace ProducerConsumer

open Transition

/-! ### The model -/

/-- The `ProducerConfig` of a `ProducerApp`, without its report interval. -/
structure ProducerConfig where
  payloadSize : U64
  maxPackets : U64
  reserveTimeout : Nat
  waitForConsumer : Bool

/-- `record_size`. -/
def ProducerConfig.recordSize (config : ProducerConfig) : U64 := BitVec.ofNat 64 kHeaderSize + config.payloadSize

/-- Where `run` is.  `pollPeer` is inside `wait_for_peer`, `reserve` to `expire` are inside a call of `reserve`, `build`
has the stores that are left to do; the sink is destroyed after `returned` or `threw`. -/
inductive ProducerPhase
  | checkSize
  | waitForPeer
  | pollPeer
  | loop
  | readPause
  | reserve (retry : Bool)
  | wait
  | expire
  | stamp
  | build (stores : List (Nat × U8))
  | returned
  | threw
  | closed
deriving DecidableEq, Repr

/-- The locals of `run`, its control flags and its builder. -/
structure ProducerApp where
  phase : ProducerPhase
  stop : Bool
  paused : Bool
  wasPaused : Bool
  sequence : U64
  totalBytes : U64
  builder : PacketBuilder

/-- A step of `run`: open are the status of the peer, the store of `tail` that is read, the deadline and the clock. -/
inductive ProducerAction
  | advance
  | pollPeer (alive : Bool)
  | tryReserve (load : Nat)
  | checkDeadline (expired : Bool)
  | build (nowNs : I64)
deriving DecidableEq

structure StreamSetup where
  session : SessionSetup
  producer : ProducerConfig

structure StreamState where
  session : SessionState
  app : ProducerApp

inductive StreamAction
  | producer (a : ProducerAction)
  | setPaused (paused : Bool)
  | requestStop
  | consumer (a : SessionAction)
deriving DecidableEq

namespace ProducerApp

def goto (app : ProducerApp) (phase : ProducerPhase) : ProducerApp := { app with phase := phase }

def checkSize (config : ProducerConfig) (ring : RingProducer) : ProducerPhase :=
  if config.recordSize > ring.maxRecordSize then .threw
  else if config.waitForConsumer then .waitForPeer
  else .loop

/-- The head of the loop. -/
def nextRound (config : ProducerConfig) (app : ProducerApp) : ProducerPhase :=
  if app.stop then .returned
  else if config.maxPackets ≠ 0 ∧ app.sequence ≥ config.maxPackets then .returned
  else .readPause

theorem nextRound_cases (config : ProducerConfig) (app : ProducerApp) :
    app.nextRound config = .returned ∨ app.nextRound config = .readPause := by
  unfold nextRound
  split
  · exact .inl rfl
  · split
    · exact .inl rfl
    · exact .inr rfl

def doReadPause (app : ProducerApp) : ProducerApp :=
  { app with wasPaused := app.paused, phase := if app.paused then .loop else .reserve false }

/-- After an attempt of `reserve`.  Nothing was reserved before it, so a slot is its result. -/
def afterReserve (config : ProducerConfig) (app : ProducerApp) (retry : Bool) (slot : Option Span) : ProducerApp :=
  match slot with
  | some _ => app.goto .stamp
  | none => app.goto (if retry then .expire else if config.reserveTimeout = 0 then .loop else .wait)

def doBuild (app : ProducerApp) (slot : Span) (nowNs : I64) : ProducerApp :=
  let (stores, builder) := app.builder.stores slot.size app.sequence nowNs
  { app with builder := builder, phase := .build stores }

def afterCommit (config : ProducerConfig) (app : ProducerApp) : ProducerApp :=
  { app with sequence := app.sequence + 1, totalBytes := app.totalBytes + config.recordSize, phase := .loop }

/-- At the start of `run`. -/
def Initial (app : ProducerApp) : Prop :=
  app.phase = .checkSize ∧ app.wasPaused = false ∧ app.sequence = 0 ∧ app.totalBytes = 0

/-- The first run of a builder. -/
def fresh (builder : PacketBuilder) : ProducerApp := ⟨.checkSize, false, false, false, 0, 0, builder⟩

end ProducerApp

namespace StreamState

def committedCount (s : StreamState) : Nat := s.session.ring.committed.length

def goto (s : StreamState) (phase : ProducerPhase) : StreamState := { s with app := s.app.goto phase }

/-- A step of `run` that is one of the shared system. -/
def onSession (cfg : StreamSetup) (s : StreamState) (a : SessionAction) (next : SharedRing → ProducerApp) :
    Option StreamState :=
  (s.session.step cfg.session a).map fun session => ⟨session, next session.ring⟩

/-- The steps of `run` that nothing is open in. -/
def advance (cfg : StreamSetup) (s : StreamState) : Option StreamState :=
  match s.app.phase with
  | .checkSize => some (s.goto (ProducerApp.checkSize cfg.producer s.session.ring.producer))
  | .waitForPeer => some (s.goto (if s.app.stop then .returned else .pollPeer))
  | .loop => some (s.goto (s.app.nextRound cfg.producer))
  | .readPause => some { s with app := s.app.doReadPause }
  | .wait => some (s.goto (if s.app.stop then .loop else .reserve true))
  | .build (store :: stores) =>
    s.onSession cfg (.producer (.writeSlot store.1 store.2)) fun _ => s.app.goto (.build stores)
  | .build [] => s.onSession cfg (.producer .commit) fun _ => s.app.afterCommit cfg.producer
  | .returned | .threw => s.onSession cfg .finish fun _ => s.app.goto .closed
  | _ => none

def producerStep (cfg : StreamSetup) (s : StreamState) (a : ProducerAction) : Option StreamState :=
  match s.app.phase, a with
  | _, .advance => s.advance cfg
  | .pollPeer, .pollPeer alive => some (s.goto (if alive then .loop else .waitForPeer))
  | .reserve retry, .tryReserve load =>
    s.onSession cfg (.producer (.tryReserve cfg.producer.recordSize load)) fun ring =>
      s.app.afterReserve cfg.producer retry ring.slot
  | .expire, .checkDeadline expired => some (s.goto (if expired then .loop else .wait))
  | .stamp, .build nowNs => s.session.ring.slot.map fun slot => { s with app := s.app.doBuild slot nowNs }
  | _, _ => none

def step (cfg : StreamSetup) (s : StreamState) : StreamAction → Option StreamState
  | .producer a => if s.session.alive then s.producerStep cfg a else none
  | .setPaused paused => some { s with app := { s.app with paused := paused } }
  | .requestStop => some { s with app := { s.app with stop := true } }
  | .consumer a => if a.ofProducer then none else s.onSession cfg a fun _ => s.app

def Initial (cfg : StreamSetup) (s : StreamState) : Prop := s.session.Initial cfg.session ∧ s.app.Initial

end StreamState

def streamMachine (cfg : StreamSetup) : Machine StreamState StreamAction where
  init := StreamState.Initial cfg
  step := StreamState.step cfg

/-! ### What the producer commits -/

/-- Packet number `i` of a stream. -/
structure StreamPacket (config : ProducerConfig) (i : Nat) (r : List U8) : Prop where
  length : r.length = config.recordSize.toNat
  trusted : ∀ v : PacketValidator, v.Trusted r
  sequence : (readHeader r).sequence = BitVec.ofNat 64 i

/-- The packet limit leaves room for one more. -/
def ProducerConfig.Room (config : ProducerConfig) (packets : Nat) : Prop :=
  config.maxPackets ≠ 0 → packets < config.maxPackets.toNat

/-- What `run` knows about the ring in each phase. -/
def ProducerPhase.Ok (config : ProducerConfig) (ring : SharedRing) : ProducerPhase → Prop
  | .readPause | .reserve _ | .wait | .expire => ring.slot = none ∧ config.Room ring.committed.length
  | .stamp => config.Room ring.committed.length ∧ ∀ sp, ring.slot = some sp → sp.size = config.recordSize.toNat
  | .build stores => config.Room ring.committed.length ∧ ∃ sp, ring.slot = some sp ∧
      (∀ store ∈ stores, store.1 < sp.size) ∧
      StreamPacket config ring.committed.length (applyStores (ring.readSpan sp) stores)
  | _ => ring.slot = none

structure ProducerApp.Inv (config : ProducerConfig) (ring : SharedRing) (app : ProducerApp) : Prop where
  packets : ∀ i r, ring.committed[i]? = some r → StreamPacket config i r
  sequence : app.sequence = BitVec.ofNat 64 ring.committed.length
  totalBytes : app.totalBytes = BitVec.ofNat 64 ring.committed.length * config.recordSize
  limit : config.maxPackets ≠ 0 → ring.committed.length ≤ config.maxPackets.toNat
  phase : app.phase.Ok config ring

namespace ProducerApp.Inv

variable {config : ProducerConfig} {ring ring' : SharedRing} {app : ProducerApp}

/-- The consumer does not interfere. -/
theorem congr (h : app.Inv config ring) (hs : ring.SameSlot ring') : app.Inv config ring' := by
  have hread (sp : Span) : ring'.readSpan sp = ring.readSpan sp := by
    rw [SharedRing.readSpan, hs.data, SharedRing.readSpan]
  refine ⟨?_, ?_, ?_, ?_, ?_⟩
  · rw [hs.committed]
    exact h.packets
  · rw [hs.committed]
    exact h.sequence
  · rw [hs.committed]
    exact h.totalBytes
  · rw [hs.committed]
    exact h.limit
  · have hok := h.phase
    cases hphase : app.phase <;> rw [hphase] at hok <;>
      simp only [ProducerPhase.Ok, hs.slot, hs.committed, hread] at hok ⊢ <;> exact hok

theorem goto (h : app.Inv config ring) {phase : ProducerPhase} (hok : phase.Ok config ring) :
    (app.goto phase).Inv config ring :=
  ⟨h.packets, h.sequence, h.totalBytes, h.limit, hok⟩

theorem nextRound (h : app.Inv config ring) (hslot : ring.slot = none) :
    (app.nextRound config).Ok config ring := by
  unfold ProducerApp.nextRound
  split
  · exact hslot
  · split
    · exact hslot
    · rename_i hless
      refine ⟨hslot, fun hne => ?_⟩
      have hle := h.limit hne
      have hlt := config.maxPackets.isLt
      simp only [not_and, ge_iff_le, BitVec.not_le, BitVec.lt_def] at hless
      have hseq := hless hne
      -- within the limit the number of packets has not wrapped
      rw [h.sequence, BitVec.toNat_ofNat, Nat.mod_eq_of_lt (by omega)] at hseq
      exact hseq

/-- After an attempt of `reserve`. -/
theorem tryReserve (h : app.Inv config ring) {cap : Capacity} (hring : ring.Inv cap) {retry : Bool}
    (hphase : app.phase = .reserve retry) {load : Nat}
    (hs : ring.step cap (.tryReserve config.recordSize load) = some ring') :
    (app.afterReserve config retry ring'.slot).Inv config ring' := by
  have hok := h.phase
  rw [hphase] at hok
  obtain ⟨hnone, hroom⟩ := hok
  obtain ⟨hcommitted, hsize⟩ := hring.tryReserve_effect hs hnone
  have hkeep (app' : ProducerApp) (hsequence : app'.sequence = app.sequence) (hbytes : app'.totalBytes = app.totalBytes)
      (hok : app'.phase.Ok config ring') : app'.Inv config ring' := by
    refine ⟨?_, ?_, ?_, ?_, hok⟩
    · rw [hcommitted]
      exact h.packets
    · rw [hsequence, hcommitted, h.sequence]
    · rw [hbytes, hcommitted, h.totalBytes]
    · rw [hcommitted]
      exact h.limit
  rw [← hcommitted] at hroom
  unfold afterReserve
  cases hslot : ring'.slot with
  | some sp => exact hkeep _ rfl rfl ⟨hroom, hsize⟩
  | none =>
    refine hkeep _ rfl rfl ?_
    simp only [ProducerApp.goto]
    split
    · exact ⟨hslot, hroom⟩
    · split
      · exact hslot
      · exact ⟨hslot, hroom⟩

/-- The stores of the builder make the packet with the next number of whatever the slot holds. -/
theorem doBuild (h : app.Inv config ring) {cap : Capacity} (hring : ring.Inv cap) (hheader : 32 ≤ config.recordSize.toNat)
    (hphase : app.phase = .stamp) {sp : Span} (hslot : ring.slot = some sp) (nowNs : I64) :
    (app.doBuild sp nowNs).Inv config ring := by
  have hok := h.phase
  rw [hphase] at hok
  obtain ⟨hroom, hsize⟩ := hok
  obtain ⟨n, hn, hspn, -⟩ := hring.slot_room hslot
  have hshort := hn.short
  have hlength : (ring.readSpan sp).length = sp.size := ring.data.length_read _ _
  have hle : kHeaderSize ≤ (ring.readSpan sp).length := by
    rw [hlength, hsize sp hslot]
    exact hheader
  obtain ⟨hstores, -⟩ := app.builder.applyStores_stores hle app.sequence nowNs
  obtain ⟨payload, hpayload, hbuild⟩ := app.builder.build_eq_sealPacket hle app.sequence nowNs
  have hrecord : ((ring.readSpan sp).take kHeaderSize ++ payload).length = sp.size := by
    rw [List.length_append, List.length_take, hpayload]
    omega
  have hle' : kHeaderSize ≤ ((ring.readSpan sp).take kHeaderSize ++ payload).length := by
    rw [hrecord, ← hlength]
    exact hle
  have hpacket : StreamPacket config ring.committed.length
      (applyStores (ring.readSpan sp) (app.builder.stores sp.size app.sequence nowNs).1) := by
    rw [← hlength, hstores, hbuild]
    refine ⟨?_, fun v => ?_, ?_⟩
    · rw [length_sealPacket hle', hrecord, hsize sp hslot]
    · exact v.trusted_sealPacket hle' (by rw [hrecord]; omega) _ _ _
    · rw [readHeader_sealPacket, ← h.sequence]
      rfl
  refine ⟨h.packets, h.sequence, h.totalBytes, h.limit, hroom, sp, hslot, fun store hstore => ?_, hpacket⟩
  rw [hlength] at hle
  exact app.builder.mem_stores hle app.sequence nowNs hstore

theorem writeSlot (h : app.Inv config ring) {cap : Capacity} (hring : ring.Inv cap) {store : Nat × U8}
    {stores : List (Nat × U8)} (hphase : app.phase = .build (store :: stores))
    (hs : ring.step cap (.writeSlot store.1 store.2) = some ring') : (app.goto (.build stores)).Inv config ring' := by
  have hok := h.phase
  rw [hphase] at hok
  obtain ⟨hroom, sp, hslot, hin, hpacket⟩ := hok
  obtain ⟨hcommitted, hslot', hread⟩ := hring.writeSlot_effect hs hslot
  refine ⟨?_, ?_, ?_, ?_, ?_, sp, hslot', fun store hstore => hin store (List.mem_cons_of_mem _ hstore), ?_⟩
  · rw [hcommitted]
    exact h.packets
  · rw [hcommitted]
    exact h.sequence
  · rw [hcommitted]
    exact h.totalBytes
  · rw [hcommitted]
    exact h.limit
  · rw [hcommitted]
    exact hroom
  · rw [hcommitted, hread]
    exact hpacket

/-- A commit appends the next packet. -/
theorem commit (h : app.Inv config ring) {cap : Capacity} (hphase : app.phase = .build [])
    (hs : ring.step cap .commit = some ring') : (app.afterCommit config).Inv config ring' := by
  have hok := h.phase
  rw [hphase] at hok
  obtain ⟨hroom, sp, hslot, -, hpacket⟩ := hok
  obtain ⟨hcommitted, hslot'⟩ := SharedRing.commit_effect hs hslot
  refine ⟨?_, ?_, ?_, ?_, hslot'⟩
  · intro i r hr
    rw [hcommitted] at hr
    rcases Nat.lt_or_ge i ring.committed.length with hlt | hge
    · rw [List.getElem?_append_left hlt] at hr
      exact h.packets i r hr
    · obtain ⟨hlt, -⟩ := List.getElem?_eq_some_iff.1 hr
      rw [List.length_append, List.length_singleton] at hlt
      obtain rfl : i = ring.committed.length := by omega
      rw [List.getElem?_concat_length, Option.some.injEq] at hr
      rw [← hr]
      exact hpacket
  · rw [hcommitted, ofNat_length_append, ← h.sequence]
    rfl
  · have hone : (1 : U64) * config.recordSize = config.recordSize := BitVec.one_mul _
    rw [hcommitted, ofNat_length_append, BitVec.add_mul, ← h.totalBytes, hone]
    rfl
  · rw [hcommitted, List.length_append, List.length_singleton]
    exact hroom

end ProducerApp.Inv

namespace StreamState

variable {cfg : StreamSetup} {s t : StreamState}

/-- The session runs as `sessionMachine` says, on the packets of the producer. -/
structure Inv (cfg : StreamSetup) (s : StreamState) : Prop where
  session : (sessionMachine cfg.session).Reachable s.session
  app : s.app.Inv cfg.producer s.session.ring

theorem Inv.ring (h : s.Inv cfg) : s.session.ring.Inv cfg.session.cap :=
  (SessionState.Inv.of_reachable h.session).ringInv

theorem Inv.init (h : s.Initial cfg) : s.Inv cfg := by
  obtain ⟨hsession, hphase, -, hsequence, hbytes⟩ := h
  have hring : s.session.ring.committed = [] ∧ s.session.ring.slot = none := by
    rw [hsession.1.2]
    exact ⟨rfl, rfl⟩
  refine ⟨Machine.Reachable.init hsession, ?_, ?_, ?_, ?_, ?_⟩
  · intro i r hr
    rw [hring.1] at hr
    cases hr
  · rw [hsequence, hring.1]
    rfl
  · rw [hbytes, hring.1]
    exact (BitVec.zero_mul).symm
  · rw [hring.1]
    exact fun _ => Nat.zero_le _
  · rw [hphase]
    exact hring.2

/-- A step of `run` that only moves on. -/
theorem Inv.goto (h : s.Inv cfg) {phase : ProducerPhase} (hok : phase.Ok cfg.producer s.session.ring) :
    (s.goto phase).Inv cfg := ⟨h.session, h.app.goto hok⟩

theorem onSession_effect {a : SessionAction} {next : SharedRing → ProducerApp} (hs : s.onSession cfg a next = some t) :
    s.session.step cfg.session a = some t.session ∧ t.app = next t.session.ring := by
  obtain ⟨session, hsession, rfl⟩ := Option.map_eq_some_iff.1 hs
  exact ⟨hsession, rfl⟩

theorem Inv.onSession (h : s.Inv cfg) {a : SessionAction} {next : SharedRing → ProducerApp}
    (hs : s.onSession cfg a next = some t) :
    (sessionMachine cfg.session).Reachable t.session ∧ s.session.step cfg.session a = some t.session ∧
      t.app = next t.session.ring := by
  obtain ⟨hsession, happ⟩ := onSession_effect hs
  exact ⟨h.session.step hsession, hsession, happ⟩

/-- An operation of the sink on the ring. -/
theorem Inv.onRing (h : s.Inv cfg) {a : RingAction} {next : SharedRing → ProducerApp}
    (hs : s.onSession cfg (.producer a) next = some t)
    (hnext : ∀ ring, s.session.ring.step cfg.session.cap a = some ring → (next ring).Inv cfg.producer ring) :
    t.Inv cfg := by
  obtain ⟨hreach, hstep, happ⟩ := h.onSession hs
  refine ⟨hreach, ?_⟩
  rw [happ]
  generalize t.session = session at hstep
  cases SessionState.StepSpec.of_step hstep with
  | producer _ _ hring => exact hnext _ hring

theorem Inv.advance (h : s.Inv cfg) (hs : s.advance cfg = some t) : t.Inv cfg := by
  have hok := h.app.phase
  unfold StreamState.advance at hs
  cases hphase : s.app.phase <;> simp only [hphase, reduceCtorEq, Option.some.injEq] at hs hok
  case checkSize =>
    subst hs
    refine h.goto ?_
    unfold ProducerApp.checkSize
    split
    · exact hok
    · split <;> exact hok
  case waitForPeer =>
    subst hs
    refine h.goto ?_
    split <;> exact hok
  case loop =>
    subst hs
    exact h.goto (h.app.nextRound hok)
  case readPause =>
    subst hs
    refine ⟨h.session, h.app.packets, h.app.sequence, h.app.totalBytes, h.app.limit, ?_⟩
    simp only [ProducerApp.doReadPause]
    split
    · exact hok.1
    · exact hok
  case wait =>
    subst hs
    refine h.goto ?_
    split
    · exact hok.1
    · exact hok
  case build stores =>
    cases stores with
    | nil => exact h.onRing hs fun ring hring => h.app.commit hphase hring
    | cons store stores => exact h.onRing hs fun ring hring => h.app.writeSlot h.ring hphase hring
  all_goals
    obtain ⟨hreach, hstep, happ⟩ := h.onSession hs
    refine ⟨hreach, ?_⟩
    rw [happ]
    generalize t.session = session at hstep
    cases SessionState.StepSpec.of_step hstep with
    | finish _ => exact h.app.goto hok

theorem Inv.producerStep (h : s.Inv cfg) (hheader : 32 ≤ cfg.producer.recordSize.toNat) {a : ProducerAction}
    (hs : s.producerStep cfg a = some t) : t.Inv cfg := by
  have hok := h.app.phase
  cases a with
  | advance =>
    refine h.advance ?_
    rw [← hs]
    unfold StreamState.producerStep
    cases s.app.phase <;> rfl
  | pollPeer alive =>
    cases hphase : s.app.phase <;>
      simp only [StreamState.producerStep, hphase, reduceCtorEq, Option.some.injEq] at hs hok
    subst hs
    refine h.goto ?_
    split <;> exact hok
  | tryReserve load =>
    cases hphase : s.app.phase <;> simp only [StreamState.producerStep, hphase, reduceCtorEq] at hs
    exact h.onRing hs fun ring hring => h.app.tryReserve h.ring hphase hring
  | checkDeadline expired =>
    cases hphase : s.app.phase <;>
      simp only [StreamState.producerStep, hphase, reduceCtorEq, Option.some.injEq] at hs hok
    subst hs
    refine h.goto ?_
    split
    · exact hok.1
    · exact hok
  | build nowNs =>
    cases hphase : s.app.phase <;> simp only [StreamState.producerStep, hphase, reduceCtorEq] at hs
    obtain ⟨sp, hslot, rfl⟩ := Option.map_eq_some_iff.1 hs
    exact ⟨h.session, h.app.doBuild h.ring hheader hphase hslot nowNs⟩

/-- Every step keeps the invariant. -/
theorem Inv.step (h : s.Inv cfg) (hheader : 32 ≤ cfg.producer.recordSize.toNat) {a : StreamAction}
    (hs : s.step cfg a = some t) : t.Inv cfg := by
  cases a with
  | producer a =>
    simp only [StreamState.step, Option.ite_none_right_eq_some] at hs
    exact h.producerStep hheader hs.2
  | setPaused paused =>
    cases hs
    exact ⟨h.session, h.app.packets, h.app.sequence, h.app.totalBytes, h.app.limit, h.app.phase⟩
  | requestStop =>
    cases hs
    exact ⟨h.session, h.app.packets, h.app.sequence, h.app.totalBytes, h.app.limit, h.app.phase⟩
  | consumer a =>
    simp only [StreamState.step, Option.ite_none_left_eq_some, Bool.not_eq_true] at hs
    obtain ⟨ha, hs⟩ := hs
    obtain ⟨hreach, hstep, happ⟩ := h.onSession hs
    refine ⟨hreach, ?_⟩
    rw [happ]
    exact h.app.congr (SessionState.consumer_step ha hstep)

theorem Inv.of_reachable (hheader : 32 ≤ cfg.producer.recordSize.toNat) (h : (streamMachine cfg).Reachable s) :
    s.Inv cfg := by
  refine Machine.Reachable.invariant (I := StreamState.Inv cfg) (fun _ hs => Inv.init hs) ?_ h
  intro s a t hi hs
  exact hi.step hheader hs

/-! ### The steps one by one -/

/-- An operation of the sink on the ring, which is also a step of the shared system. -/
structure OnRing (cfg : StreamSetup) (s : StreamState) (a : RingAction) (ring : SharedRing) : Prop where
  ringStep : s.session.ring.step cfg.session.cap a = some ring
  sessionStep : s.session.step cfg.session (.producer a) = some { s.session with ring := ring }

/-- What each step needs and what it makes of the state. -/
inductive StepSpec (cfg : StreamSetup) (s : StreamState) : StreamAction → StreamState → Prop
  | checkSize :
      s.app.phase = .checkSize →
        StepSpec cfg s (.producer .advance) (s.goto (ProducerApp.checkSize cfg.producer s.session.ring.producer))
  | waitForPeer :
      s.app.phase = .waitForPeer → StepSpec cfg s (.producer .advance) (s.goto (if s.app.stop then .returned else .pollPeer))
  | pollPeer {alive : Bool} :
      s.app.phase = .pollPeer →
        StepSpec cfg s (.producer (.pollPeer alive)) (s.goto (if alive then .loop else .waitForPeer))
  | loop : s.app.phase = .loop → StepSpec cfg s (.producer .advance) (s.goto (s.app.nextRound cfg.producer))
  | readPause : s.app.phase = .readPause → StepSpec cfg s (.producer .advance) { s with app := s.app.doReadPause }
  | tryReserve {retry : Bool} {load : Nat} {ring : SharedRing} :
      s.app.phase = .reserve retry →
      s.OnRing cfg (.tryReserve cfg.producer.recordSize load) ring →
        StepSpec cfg s (.producer (.tryReserve load))
          ⟨{ s.session with ring := ring }, s.app.afterReserve cfg.producer retry ring.slot⟩
  | wait :
      s.app.phase = .wait → StepSpec cfg s (.producer .advance) (s.goto (if s.app.stop then .loop else .reserve true))
  | checkDeadline {expired : Bool} :
      s.app.phase = .expire →
        StepSpec cfg s (.producer (.checkDeadline expired)) (s.goto (if expired then .loop else .wait))
  | build {slot : Span} {nowNs : I64} :
      s.app.phase = .stamp → s.session.ring.slot = some slot →
        StepSpec cfg s (.producer (.build nowNs)) { s with app := s.app.doBuild slot nowNs }
  | writeSlot {store : Nat × U8} {stores : List (Nat × U8)} {ring : SharedRing} :
      s.app.phase = .build (store :: stores) → s.OnRing cfg (.writeSlot store.1 store.2) ring →
        StepSpec cfg s (.producer .advance) ⟨{ s.session with ring := ring }, s.app.goto (.build stores)⟩
  | commit {ring : SharedRing} :
      s.app.phase = .build [] → s.OnRing cfg .commit ring →
        StepSpec cfg s (.producer .advance) ⟨{ s.session with ring := ring }, s.app.afterCommit cfg.producer⟩
  | close :
      s.app.phase = .returned ∨ s.app.phase = .threw →
      s.session.step cfg.session .finish = some { s.session with finished := true } →
        StepSpec cfg s (.producer .advance) ⟨{ s.session with finished := true }, s.app.goto .closed⟩
  | setPaused {paused : Bool} : StepSpec cfg s (.setPaused paused) { s with app := { s.app with paused := paused } }
  | requestStop : StepSpec cfg s .requestStop { s with app := { s.app with stop := true } }
  | consumer {a : SessionAction} {session : SessionState} :
      a.ofProducer = false → s.session.step cfg.session a = some session →
        StepSpec cfg s (.consumer a) ⟨session, s.app⟩

/-- A step of `run` that is an operation on the ring. -/
theorem onSession_ring {a : RingAction} {next : SharedRing → ProducerApp}
    (hs : s.onSession cfg (.producer a) next = some t) :
    ∃ ring, s.OnRing cfg a ring ∧ t = ⟨{ s.session with ring := ring }, next ring⟩ := by
  obtain ⟨session, hsession, rfl⟩ := Option.map_eq_some_iff.1 hs
  cases SessionState.StepSpec.of_step hsession with
  | producer _ _ hring => exact ⟨_, ⟨hring, hsession⟩, rfl⟩

theorem StepSpec.of_advance (hs : s.advance cfg = some t) : StepSpec cfg s (.producer .advance) t := by
  unfold StreamState.advance at hs
  cases hphase : s.app.phase <;> simp only [hphase, reduceCtorEq, Option.some.injEq] at hs
  case checkSize =>
    subst hs
    exact .checkSize hphase
  case waitForPeer =>
    subst hs
    exact .waitForPeer hphase
  case loop =>
    subst hs
    exact .loop hphase
  case readPause =>
    subst hs
    exact .readPause hphase
  case wait =>
    subst hs
    exact .wait hphase
  case build stores =>
    cases stores with
    | nil =>
      obtain ⟨ring, hring, rfl⟩ := onSession_ring hs
      exact .commit hphase hring
    | cons store stores =>
      obtain ⟨ring, hring, rfl⟩ := onSession_ring hs
      exact .writeSlot hphase hring
  all_goals
    obtain ⟨session, hsession, rfl⟩ := Option.map_eq_some_iff.1 hs
    cases SessionState.StepSpec.of_step hsession with
    | finish _ => exact .close (by simp [hphase]) hsession

theorem StepSpec.of_producerStep {a : ProducerAction} (hs : s.producerStep cfg a = some t) :
    StepSpec cfg s (.producer a) t := by
  cases a with
  | advance =>
    refine .of_advance ?_
    rw [← hs]
    unfold StreamState.producerStep
    cases s.app.phase <;> rfl
  | pollPeer alive =>
    cases hphase : s.app.phase <;> simp only [StreamState.producerStep, hphase, reduceCtorEq, Option.some.injEq] at hs
    subst hs
    exact .pollPeer hphase
  | tryReserve load =>
    cases hphase : s.app.phase <;> simp only [StreamState.producerStep, hphase, reduceCtorEq] at hs
    obtain ⟨ring, hring, rfl⟩ := onSession_ring hs
    exact .tryReserve hphase hring
  | checkDeadline expired =>
    cases hphase : s.app.phase <;> simp only [StreamState.producerStep, hphase, reduceCtorEq, Option.some.injEq] at hs
    subst hs
    exact .checkDeadline hphase
  | build nowNs =>
    cases hphase : s.app.phase <;> simp only [StreamState.producerStep, hphase, reduceCtorEq] at hs
    obtain ⟨sp, hslot, rfl⟩ := Option.map_eq_some_iff.1 hs
    exact .build hphase hslot

theorem StepSpec.of_step {a : StreamAction} (hs : s.step cfg a = some t) : StepSpec cfg s a t := by
  cases a with
  | producer a =>
    simp only [StreamState.step, Option.ite_none_right_eq_some] at hs
    exact .of_producerStep hs.2
  | setPaused paused =>
    cases hs
    exact .setPaused
  | requestStop =>
    cases hs
    exact .requestStop
  | consumer a =>
    simp only [StreamState.step, Option.ite_none_left_eq_some, Bool.not_eq_true] at hs
    obtain ⟨session, hsession, rfl⟩ := Option.map_eq_some_iff.1 hs.2
    exact .consumer hs.1 hsession

/-- What the shared system sees of a step: nothing, a step of the producer, or the step of the consumer that it is. -/
theorem session_step {a : StreamAction} (hs : s.step cfg a = some t) :
    t.session = s.session ∨ ∃ b, s.session.step cfg.session b = some t.session ∧ (b.ofProducer = true ∨ a = .consumer b) := by
  cases StepSpec.of_step hs with
  | tryReserve _ hring | writeSlot _ hring | commit _ hring => exact .inr ⟨.producer _, hring.sessionStep, .inl rfl⟩
  | close _ hfinish => exact .inr ⟨.finish, hfinish, .inl rfl⟩
  | consumer _ hsession => exact .inr ⟨_, hsession, .inr rfl⟩
  | _ => exact .inl rfl

/-- What is left to do after the last store. -/
theorem step_of_built {a : ProducerAction} (h : StepSpec cfg s (.producer a) t) (hphase : s.app.phase = .build []) :
    ∃ ring, s.OnRing cfg .commit ring ∧ t = ⟨{ s.session with ring := ring }, s.app.afterCommit cfg.producer⟩ := by
  cases h with
  | commit _ hop => exact ⟨_, hop, rfl⟩
  | close hp _ =>
    rw [hphase] at hp
    rcases hp with hp | hp <;> cases hp
  | checkSize hp | waitForPeer hp | pollPeer hp | loop hp | readPause hp | tryReserve hp _ | wait hp | checkDeadline hp
  | build hp _ | writeSlot hp _ =>
    rw [hphase] at hp
    cases hp

theorem stop_producer {a : ProducerAction} (h : StepSpec cfg s (.producer a) t) : t.app.stop = s.app.stop := by
  cases h with
  | tryReserve _ _ =>
    unfold ProducerApp.afterReserve
    split <;> rfl
  | _ => rfl

/-- Only a commit adds to what is committed. -/
theorem committedCount_same {a : StreamAction} (hs : s.step cfg a = some t)
    (hne : s.app.phase = .build [] → a ≠ .producer .advance) : t.committedCount = s.committedCount := by
  cases StepSpec.of_step hs with
  | commit hphase _ => exact absurd rfl (hne hphase)
  | tryReserve _ hop =>
    have hring := hop.ringStep
    cases SharedRing.StepSpec.of_step hring with
    | tryReserve _ => rfl
  | writeSlot _ hop =>
    have hring := hop.ringStep
    cases SharedRing.StepSpec.of_step hring with
    | writeSlot _ _ => rfl
  | consumer hb hsession => rw [committedCount, committedCount, (SessionState.consumer_step hb hsession).committed]
  | _ => rfl

theorem committedCount_commit (h : s.Inv cfg) (hphase : s.app.phase = .build []) {ring : SharedRing}
    (hop : s.OnRing cfg .commit ring) : ring.committed.length = s.committedCount + 1 := by
  have hok := h.app.phase
  rw [hphase] at hok
  obtain ⟨-, slot, hslot, -⟩ := hok
  rw [(SharedRing.commit_effect hop.ringStep hslot).1, List.length_append]
  rfl

end StreamState

/-- Every byte that the builder stores lies in the reserved slot. -/
theorem StreamState.store_in_slot {cfg : StreamSetup} (hheader : 32 ≤ cfg.producer.recordSize.toNat) {s : StreamState}
    (h : (streamMachine cfg).Reachable s) {store : Nat × U8} {stores : List (Nat × U8)}
    (hphase : s.app.phase = .build (store :: stores)) :
    ∃ sp, s.session.ring.slot = some sp ∧ store.1 < sp.size := by
  have hok := (StreamState.Inv.of_reachable hheader h).app.phase
  rw [hphase] at hok
  obtain ⟨-, sp, hslot, hin, -⟩ := hok
  exact ⟨sp, hslot, hin store (List.mem_cons_self ..)⟩

/-! ### The account of a stream -/

theorem ProducerConfig.recordSize_toNat {config : ProducerConfig}
    (h : kHeaderSize + config.payloadSize.toNat < 2 ^ 64) :
    config.recordSize.toNat = kHeaderSize + config.payloadSize.toNat := by
  rw [ProducerConfig.recordSize, BitVec.toNat_add, BitVec.toNat_ofNat, Nat.mod_eq_of_lt (a := kHeaderSize) (by decide),
    Nat.mod_eq_of_lt h]

/-- The totals account for `k` packets of `size` bytes: as the 64-bit words they are, and exactly if the sum does not
wrap. -/
structure Accounts (policy : PausePolicy) (totals : ConsumerTotals) (k size : Nat) : Prop where
  packets : totals.received + totals.dropped = BitVec.ofNat 64 k
  bytes : totals.bytes + totals.droppedBytes = BitVec.ofNat 64 (k * size)
  exactPackets : k < 2 ^ 64 → totals.received.toNat + totals.dropped.toNat = k
  exactBytes : k * size < 2 ^ 64 → totals.bytes.toNat + totals.droppedBytes.toNat = k * size
  corrupted : totals.corrupted = 0
  sequenceGaps : totals.sequenceGaps = 0
  missing : totals.missing = 0
  sequenceRewinds : totals.sequenceRewinds = 0
  blocking : policy = .Blocking → totals.dropped = 0 ∧ totals.received = BitVec.ofNat 64 k

theorem sum_lengths {recs : List (List U8)} {size : Nat} (h : ∀ r ∈ recs, r.length = size) :
    (recs.map List.length).sum = recs.length * size := by
  have hall : recs.map List.length = List.replicate recs.length size := by
    refine List.eq_replicate_iff.2 ⟨List.length_map _, fun n hn => ?_⟩
    obtain ⟨r, hr, rfl⟩ := List.mem_map.1 hn
    exact h r hr
  rw [hall, List.sum_replicate_nat]

/-- Words whose sum does not wrap. -/
theorem toNat_add_ofNat {a b : Nat} (h : a + b < 2 ^ 64) :
    (BitVec.ofNat 64 a).toNat + (BitVec.ofNat 64 b).toNat = a + b := by
  rw [BitVec.toNat_ofNat, BitVec.toNat_ofNat, Nat.mod_eq_of_lt (by omega), Nat.mod_eq_of_lt (by omega)]

/-- Every packet was processed or dropped, and nothing was found wrong with any of them. -/
theorem Accounts.of_regular {cfg : SessionSetup} {s : SessionState} (hregular : s.Regular cfg)
    {processed dropped committed : List (List U8)} (hcounts : Counts s.stats.totals processed dropped)
    (hblocking : cfg.policy = .Blocking → dropped = []) (hsplit : (processed ++ dropped).Perm committed) {size : Nat}
    (hsize : ∀ r ∈ committed, r.length = size) :
    Accounts cfg.policy s.stats.totals committed.length size := by
  have hpackets : processed.length + dropped.length = committed.length := by
    rw [← List.length_append, hsplit.length_eq]
  have hprocessed := sum_lengths fun r hr => hsize r (hsplit.mem_iff.1 (List.mem_append_left dropped hr))
  have hdropped := sum_lengths fun r hr => hsize r (hsplit.mem_iff.1 (List.mem_append_right processed hr))
  have hbytes : processed.length * size + dropped.length * size = committed.length * size := by
    rw [← Nat.add_mul, hpackets]
  refine ⟨?_, ?_, fun hlt => ?_, fun hlt => ?_, hregular.corrupted, hregular.sequenceGaps, hregular.missing,
    hregular.sequenceRewinds, fun hb => ?_⟩
  · rw [hcounts.received, hcounts.dropped, ← BitVec.ofNat_add, hpackets]
  · rw [hcounts.bytes, hcounts.droppedBytes, ← BitVec.ofNat_add, hprocessed, hdropped, hbytes]
  · rw [hcounts.received, hcounts.dropped, toNat_add_ofNat (by omega)]
    exact hpackets
  · rw [hcounts.bytes, hcounts.droppedBytes, hprocessed, hdropped, toNat_add_ofNat (by omega)]
    exact hbytes
  · have hnone := hblocking hb
    rw [hcounts.received, hcounts.dropped, ← hpackets, hnone]
    exact ⟨rfl, rfl⟩

/-- The account of a stream under every interleaving and every pattern of pauses: the committed packets have the
sequence numbers `0, 1, ...` and the full size, and no more are committed than the limit allows; when the session ends
by itself, its totals account for all of them. -/
theorem stream_accounting (cfg : StreamSetup) (hfits : kHeaderSize + cfg.producer.payloadSize.toNat < 2 ^ 64)
    {s : StreamState} (h : (streamMachine cfg).Reachable s) :
    (∀ i r, s.session.ring.committed[i]? = some r →
      (readHeader r).sequence = BitVec.ofNat 64 i ∧ r.length = kHeaderSize + cfg.producer.payloadSize.toNat) ∧
    (cfg.producer.maxPackets ≠ 0 → s.session.ring.committed.length ≤ cfg.producer.maxPackets.toNat) ∧
    (s.session.phase = .done true →
      Accounts cfg.session.policy s.session.stats.totals s.session.ring.committed.length
        (kHeaderSize + cfg.producer.payloadSize.toNat)) := by
  have hrecord := ProducerConfig.recordSize_toNat hfits
  have hi : s.Inv cfg := StreamState.Inv.of_reachable (by rw [hrecord, kHeaderSize]; omega) h
  have hpackets := hi.app.packets
  have hlength : ∀ r ∈ s.session.ring.committed, r.length = kHeaderSize + cfg.producer.payloadSize.toNat := by
    intro r hr
    obtain ⟨i, hget⟩ := List.getElem?_of_mem hr
    rw [(hpackets i r hget).length, hrecord]
  refine ⟨fun i r hr => ⟨(hpackets i r hr).sequence, hlength r (List.mem_of_getElem? hr)⟩, hi.app.limit, fun hdone => ?_⟩
  have hstarted : s.session.phase ≠ .connecting := by simp [hdone]
  have hnumbered : Numbered s.session.ring.committed :=
    fun i r hr => ⟨(hpackets i r hr).trusted, (hpackets i r hr).sequence⟩
  have htally := SessionState.Tally.of_reachable hi.session
  have hregular := SessionState.Regular.of_reachable hi.session hstarted hnumbered
  obtain ⟨-, hsplit⟩ := SessionState.all_handled hi.session hdone
  exact .of_regular hregular (htally.counts hstarted) htally.blocking hsplit hlength

/-- A producer of one packet with a payload of one byte, and a blocking session that does not wait for records. -/
def StreamSetup.onePacket : StreamSetup :=
  ⟨{ SessionSetup.polling with cap := ⟨6, by decide, by decide⟩ }, ⟨1, 1, 0, false⟩⟩

def StreamState.fresh (cfg : StreamSetup) : StreamState :=
  ⟨.fresh cfg.session (.new ⟨false⟩ 0), .fresh ⟨.sequential 0, .Crc32⟩⟩

theorem StreamState.fresh_initial (cfg : StreamSetup) : (fresh cfg).Initial cfg :=
  ⟨SessionState.fresh_initial _ _, rfl, rfl, rfl, rfl⟩

/-- A packet with a payload of one byte: 37 stores of the builder, and the commit. -/
def packetProduced : List StreamAction :=
  [.producer .advance, .producer .advance, .producer (.tryReserve 0), .producer (.build 5)] ++
    List.replicate 38 (.producer .advance)

/-- The producer's part of the run: one packet, and the end. -/
def onePacketProduced : List StreamAction :=
  [.producer .advance] ++ packetProduced ++ [.producer .advance, .producer .advance]

/-- The session's part. -/
def onePacketConsumed : List StreamAction :=
  [.consumer (.connect .claim), .consumer (.connect .loadTail), .consumer (.connect (.loadHead 0)), .consumer .advance,
    .consumer .advance, .consumer .advance, .consumer (.tryPeek 1), .consumer (.process 9), .consumer (.report none),
    .consumer .advance, .consumer .advance, .consumer .advance, .consumer (.tryPeek 1), .consumer .advance,
    .consumer (.loadState true), .consumer (.checkAlive true), .consumer .advance, .consumer (.tryPeek 1),
    .consumer .advance]

/-- The same with two packets and a session that drops what comes while it is paused. -/
def StreamSetup.twoPackets : StreamSetup :=
  ⟨{ SessionSetup.polling with cap := capacity128, policy := .Discarding }, ⟨1, 2, 0, false⟩⟩

/-- The session processes the first packet, drops the second while it is paused, and resumes before the end. -/
def twoPacketsPaused : List StreamAction :=
  [.producer .advance] ++ packetProduced ++ packetProduced ++ [.producer .advance, .producer .advance] ++
    ([.connect .claim, .connect .loadTail, .connect (.loadHead 0), .advance, .advance, .advance, .tryPeek 2, .process 9,
      .report none, .setPaused true, .advance, .advance, .advance, .advance, .tryPeek 2, .advance, .report none,
      .setPaused false, .advance, .advance, .advance, .tryPeek 2, .advance, .loadState true, .checkAlive true, .advance,
      .tryPeek 2, .advance].map StreamAction.consumer)

theorem stream_accounting_paused : ∃ s,
    (streamMachine .twoPackets).run (.fresh .twoPackets) twoPacketsPaused = some s ∧
      s.session.processed.length = 1 ∧ s.session.dropped.length = 1 ∧
      s.session.stats.totals.received.toNat + s.session.stats.totals.dropped.toNat = 2 := by
  have hrun : ((streamMachine .twoPackets).run (.fresh .twoPackets) twoPacketsPaused).map (fun s =>
      (s.session.phase, s.session.ring.committed.length, s.session.processed.length, s.session.dropped.length)) =
      some (.done true, 2, 1, 1) := by
    decide +kernel
  obtain ⟨s, hs, hend⟩ := Option.map_eq_some_iff.1 hrun
  simp only [Prod.mk.injEq] at hend
  obtain ⟨hphase, hlen, hprocessed, hdropped⟩ := hend
  have h := stream_accounting .twoPackets (by decide) ((Machine.Reachable.init (StreamState.fresh_initial _)).run hs)
  have hcount := (h.2.2 hphase).exactPackets (by rw [hlen]; decide)
  rw [hlen] at hcount
  exact ⟨s, hs, hprocessed, hdropped, hcount⟩

end ProducerConsumer
