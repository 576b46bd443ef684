import ProducerConsumer.RingCounters
import ProducerConsumer.ProducerApp

/-!
# The size of a packet

`run` adds `kHeaderSize` to the requested payload size in 64 bits and compares the sum with `max_packet_size()`.  Where
the sum does not wrap, every slot has room for exactly the header and the payload.  For the 32 largest payload sizes it
wraps to less than a header, the comparison lets it pass, and a slot is reserved that the builder writes past.
-/

namespace ProducerConsumer

open Transition

/-- What `run` has reserved, built and committed so far has the size of a packet with the requested payload; if it threw,
that is nothing. -/
structure StreamState.SizesExact (config : ProducerConfig) (s : StreamState) : Prop where
  threw : s.app.phase = .threw → s.session.ring.slot = none ∧ s.session.ring.committed = []
  slot : ∀ sp, s.session.ring.slot = some sp → sp.size = kHeaderSize + config.payloadSize.toNat ∧
    sp.size ≤ s.session.ring.producer.maxRecordSize.toNat
  built : ∀ sp, s.session.ring.slot = some sp → s.app.phase = .build [] →
    (readHeader (s.session.ring.readSpan sp)).payloadSize.toNat = config.payloadSize.toNat
  committed : ∀ r ∈ s.session.ring.committed, r.length = kHeaderSize + config.payloadSize.toNat ∧
    (readHeader r).payloadSize.toNat = config.payloadSize.toNat

/-! ### Before the first reservation -/

/-- The phases from which no slot has been reserved yet. -/
def ProducerPhase.early : ProducerPhase → Bool
  | .checkSize | .waitForPeer | .pollPeer | .threw => true
  | _ => false

theorem ProducerApp.nextRound_early (config : ProducerConfig) (app : ProducerApp) :
    (app.nextRound config).early = false := by
  unfold ProducerApp.nextRound
  split
  · rfl
  · split <;> rfl

theorem ProducerApp.afterReserve_early (config : ProducerConfig) (app : ProducerApp) (retry : Bool)
    (slot : Option Span) : (app.afterReserve config retry slot).phase.early = false := by
  unfold ProducerApp.afterReserve
  cases slot with
  | some sp => rfl
  | none =>
    simp only [ProducerApp.goto]
    split
    · rfl
    · split <;> rfl

namespace StreamState

variable {cfg : StreamSetup} {s t : StreamState}

/-- The steps of `run` that end in an early phase do not touch the ring. -/
theorem advance_early (hs : s.advance cfg = some t) (ht : t.app.phase.early = true) :
    s.app.phase.early = true ∧ t.session = s.session := by
  unfold StreamState.advance at hs
  cases hphase : s.app.phase <;> simp only [hphase, reduceCtorEq, Option.some.injEq] at hs
  case checkSize =>
    subst hs
    exact ⟨rfl, rfl⟩
  case waitForPeer =>
    subst hs
    exact ⟨rfl, rfl⟩
  case loop =>
    subst hs
    rw [StreamState.goto, ProducerApp.goto, ProducerApp.nextRound_early] at ht
    cases ht
  case readPause =>
    subst hs
    simp only [ProducerApp.doReadPause] at ht
    split at ht <;> cases ht
  case wait =>
    subst hs
    simp only [StreamState.goto, ProducerApp.goto] at ht
    split at ht <;> cases ht
  case build stores =>
    cases stores with
    | nil =>
      rw [(onSession_effect hs).2] at ht
      cases ht
    | cons store stores =>
      rw [(onSession_effect hs).2] at ht
      cases ht
  all_goals
    rw [(onSession_effect hs).2] at ht
    cases ht

theorem producerStep_early {a : ProducerAction} (hs : s.producerStep cfg a = some t) (ht : t.app.phase.early = true) :
    s.app.phase.early = true ∧ t.session = s.session := by
  cases a with
  | advance =>
    have hadvance : s.advance cfg = some t := by
      rw [← hs]
      unfold StreamState.producerStep
      cases s.app.phase <;> rfl
    exact advance_early hadvance ht
  | pollPeer alive =>
    cases hphase : s.app.phase <;>
      simp only [StreamState.producerStep, hphase, reduceCtorEq, Option.some.injEq] at hs
    subst hs
    exact ⟨rfl, rfl⟩
  | tryReserve load =>
    cases hphase : s.app.phase <;> simp only [StreamState.producerStep, hphase, reduceCtorEq] at hs
    rw [(onSession_effect hs).2, ProducerApp.afterReserve_early] at ht
    cases ht
  | checkDeadline expired =>
    cases hphase : s.app.phase <;>
      simp only [StreamState.producerStep, hphase, reduceCtorEq, Option.some.injEq] at hs
    subst hs
    simp only [StreamState.goto, ProducerApp.goto] at ht
    split at ht <;> cases ht
  | build nowNs =>
    cases hphase : s.app.phase <;> simp only [StreamState.producerStep, hphase, reduceCtorEq] at hs
    obtain ⟨sp, -, rfl⟩ := Option.map_eq_some_iff.1 hs
    cases ht

/-- Nothing has been reserved before `run` enters its loop, nor when it threw. -/
theorem early_empty (h : (streamMachine cfg).Reachable s) (hs : s.app.phase.early = true) :
    s.session.ring.slot = none ∧ s.session.ring.committed = [] := by
  refine Machine.Reachable.invariant (M := streamMachine cfg)
    (I := fun s => s.app.phase.early = true → s.session.ring.slot = none ∧ s.session.ring.committed = []) ?_ ?_ h hs
  · rintro s ⟨⟨⟨-, hring⟩, -⟩, -⟩ -
    rw [hring]
    exact ⟨rfl, rfl⟩
  · intro s a t ih hs ht
    cases a with
    | producer a =>
      obtain ⟨-, hs⟩ := Option.ite_none_right_eq_some.1 hs
      obtain ⟨hearly, hsession⟩ := producerStep_early hs ht
      rw [hsession]
      exact ih hearly
    | setPaused paused =>
      cases hs
      exact ih ht
    | requestStop =>
      cases hs
      exact ih ht
    | consumer a =>
      obtain ⟨ha, hs⟩ := Option.ite_none_left_eq_some.1 hs
      obtain ⟨hstep, happ⟩ := onSession_effect hs
      rw [happ] at ht
      have hsame := SessionState.consumer_step (Bool.not_eq_true _ ▸ ha) hstep
      rw [hsame.slot, hsame.committed]
      exact ih ht

/-! ### The sizes where the sum does not wrap -/

/-- A reserved slot is one that `max_packet_size()` allows. -/
theorem Inv.slot_le_max (h : s.Inv cfg) {sp : Span} (hsp : s.session.ring.slot = some sp) :
    sp.size ≤ s.session.ring.producer.maxRecordSize.toNat := by
  obtain ⟨n, hn, hsize, hroom⟩ := h.ring.slot_room hsp
  have hshort := hn.short
  have hmono := streamPos_mono s.session.ring.committed h.ring.released_le_committed
  rw [RingProducer.maxRecordSize_toNat h.ring.producer.capacity, hsize]
  omega

theorem Inv.slot_size (h : s.Inv cfg) {sp : Span} (hsp : s.session.ring.slot = some sp) :
    sp.size = cfg.producer.recordSize.toNat := by
  have hok := h.app.phase
  cases hphase : s.app.phase <;> rw [hphase] at hok <;> simp only [ProducerPhase.Ok, hsp, reduceCtorEq, false_and] at hok
  case stamp => exact hok.2 sp rfl
  case build stores =>
    obtain ⟨-, sp', hsp', -, hpacket⟩ := hok
    cases hsp'
    have hlength := hpacket.length
    rwa [length_applyStores, SharedRing.readSpan, Mirrored.Memory.length_read] at hlength

end StreamState

theorem StreamPacket.payloadSize {config : ProducerConfig} {i : Nat} {r : List U8} (h : StreamPacket config i r)
    (hfits : kHeaderSize + config.payloadSize.toNat < 2 ^ 64) :
    (readHeader r).payloadSize.toNat = config.payloadSize.toNat := by
  rw [(h.trusted (.new ⟨false⟩ 0)).payloadSize, h.length, ProducerConfig.recordSize_toNat hfits]
  exact Nat.add_sub_cancel_left ..

theorem StreamState.sizesExact_of_fits {cfg : StreamSetup} (hfits : kHeaderSize + cfg.producer.payloadSize.toNat < 2 ^ 64)
    {s : StreamState} (h : (streamMachine cfg).Reachable s) : s.SizesExact cfg.producer := by
  have hrecord := ProducerConfig.recordSize_toNat hfits
  have hi : s.Inv cfg := StreamState.Inv.of_reachable (by rw [hrecord, kHeaderSize]; omega) h
  refine ⟨fun hphase => early_empty h (by rw [hphase]; rfl), fun sp hsp => ?_, fun sp hsp hphase => ?_, fun r hr => ?_⟩
  · exact ⟨(hi.slot_size hsp).trans hrecord, hi.slot_le_max hsp⟩
  · have hok := hi.app.phase
    rw [hphase] at hok
    obtain ⟨-, sp', hsp', -, hpacket⟩ := hok
    rw [hsp] at hsp'
    cases hsp'
    exact hpacket.payloadSize hfits
  · obtain ⟨i, hget⟩ := List.getElem?_of_mem hr
    have hpacket := hi.app.packets i r hget
    exact ⟨hpacket.length.trans hrecord, hpacket.payloadSize hfits⟩

/-! ### The sizes where it wraps -/

namespace StreamState

/-- A fresh producer enters its loop, at once or when a consumer has attached, unless the size check stops it. -/
theorem fresh_loop {cfg : StreamSetup}
    (hsize : ¬cfg.producer.recordSize > (fresh cfg).session.ring.producer.maxRecordSize) :
    (streamMachine cfg).Reachable ((fresh cfg).goto .loop) := by
  have hinit : (streamMachine cfg).Reachable (fresh cfg) := Machine.Reachable.init (fresh_initial cfg)
  have hcheck : (streamMachine cfg).step (fresh cfg) (.producer .advance) =
      some ((fresh cfg).goto (if cfg.producer.waitForConsumer then .waitForPeer else .loop)) := by
    have hphase : ProducerApp.checkSize cfg.producer (fresh cfg).session.ring.producer =
        if cfg.producer.waitForConsumer then .waitForPeer else .loop := if_neg hsize
    rw [← hphase]
    rfl
  cases hwait : cfg.producer.waitForConsumer with
  | false =>
    rw [hwait] at hcheck
    exact hinit.step hcheck
  | true =>
    rw [hwait] at hcheck
    have hpeer := (hinit.step hcheck).step (a := .producer .advance) rfl
    exact hpeer.step (a := .producer (.pollPeer true)) rfl

/-- In the loop a fresh producer reserves a slot of the size it has computed, if that is not too long. -/
theorem fresh_reserve {cfg : StreamSetup}
    (hsize : ¬cfg.producer.recordSize > (fresh cfg).session.ring.producer.maxRecordSize) :
    ∃ s sp, (streamMachine cfg).Reachable s ∧ s.session.ring.slot = some sp ∧
      sp.size = cfg.producer.recordSize.toNat := by
  have hnext : ((fresh cfg).goto .loop).app.nextRound cfg.producer = .readPause := by
    have hroom : ¬(cfg.producer.maxPackets ≠ 0 ∧ (0 : U64) ≥ cfg.producer.maxPackets) := by
      rintro ⟨hne, hle⟩
      exact hne (BitVec.le_zero_iff.1 hle)
    exact if_neg hroom
  have hpause : (streamMachine cfg).Reachable ((fresh cfg).goto .readPause) := by
    refine (fresh_loop hsize).step (a := .producer .advance) ?_
    rw [← hnext]
    rfl
  have hreserve : (streamMachine cfg).Reachable ((fresh cfg).goto (.reserve false)) :=
    hpause.step (a := .producer .advance) rfl
  -- the attempt on the empty ring
  let start := (fresh cfg).session.ring
  have hring : start.Inv cfg.session.cap := SharedRing.Inv.init (SharedRing.fresh_initial _)
  have hstep : start.step cfg.session.cap (.tryReserve cfg.producer.recordSize 0) =
      some (start.doReserve cfg.producer.recordSize 0 0) := rfl
  have hslot : (start.producer.tryReserve start.controlTail cfg.producer.recordSize).slot ≠ none := by
    rw [Ne, hring.tryReserve_none]
    have hmax := RingProducer.maxRecordSize_toNat hring.producer.capacity
    have h4 := cfg.session.cap.four_le
    have hzero : start.unreleasedBytes = 0 := rfl
    have hle := hsize
    rw [gt_iff_lt, BitVec.lt_def, hmax] at hle
    rw [not_or, hzero]
    exact ⟨hsize, by omega⟩
  obtain ⟨sp, hsp⟩ := Option.ne_none_iff_exists'.1 hslot
  have hsp' : (start.doReserve cfg.producer.recordSize 0 0).slot = some sp := by
    simp only [SharedRing.doReserve]
    have hzero : start.controlTail = 0 := rfl
    rw [hzero] at hsp
    rw [hsp]
    rfl
  refine ⟨_, sp, hreserve.step (a := .producer (.tryReserve 0)) rfl, hsp', ?_⟩
  exact (hring.tryReserve_effect hstep rfl).2 sp hsp'

end StreamState

/-- The run of a producer keeps to the requested payload size exactly if the size of a record does not wrap. -/
theorem payload_size_exact_iff (cfg : StreamSetup) (hpage : 4096 ≤ cfg.session.cap.bytes) :
    (∀ s, (streamMachine cfg).Reachable s → s.SizesExact cfg.producer) ↔
      kHeaderSize + cfg.producer.payloadSize.toNat < 2 ^ 64 := by
  constructor
  · intro h
    by_contra hwrap
    -- the sum has wrapped to less than the size of a header, which every ring of a page allows
    have hlt := cfg.producer.payloadSize.isLt
    have hrecord : cfg.producer.recordSize.toNat < kHeaderSize := by
      rw [ProducerConfig.recordSize, BitVec.toNat_add, BitVec.toNat_ofNat]
      simp only [kHeaderSize] at hwrap ⊢
      omega
    have hsize : ¬cfg.producer.recordSize > (StreamState.fresh cfg).session.ring.producer.maxRecordSize := by
      have hring : (StreamState.fresh cfg).session.ring.Inv cfg.session.cap :=
        SharedRing.Inv.init (SharedRing.fresh_initial _)
      rw [gt_iff_lt, BitVec.lt_def, RingProducer.maxRecordSize_toNat hring.producer.capacity]
      simp only [kHeaderSize] at hrecord
      omega
    obtain ⟨s, sp, hs, hsp, hshort⟩ := StreamState.fresh_reserve hsize
    have := ((h s hs).slot sp hsp).1
    omega
  · intro hfits s hs
    exact StreamState.sizesExact_of_fits hfits hs

/-- A producer of one packet on a ring of one page. -/
def StreamSetup.onePage (payloadSize : U64) : StreamSetup :=
  ⟨{ SessionSetup.polling with cap := ⟨12, by decide, by decide⟩ }, ⟨payloadSize, 1, 0, false⟩⟩

/-- The first steps of `run`, up to the first attempt to reserve. -/
def firstReserve : List StreamAction :=
  [.producer .advance, .producer .advance, .producer .advance, .producer (.tryReserve 0)]

theorem payload_size_exact_iff_1024 : ∃ s,
    (streamMachine (.onePage 1024)).run (.fresh (.onePage 1024)) firstReserve = some s ∧
      s.session.ring.slot = some ⟨4, 1056⟩ ∧ s.SizesExact (StreamSetup.onePage 1024).producer := by
  obtain ⟨s, hs, hslot⟩ : ∃ s, (streamMachine (.onePage 1024)).run (.fresh (.onePage 1024)) firstReserve = some s ∧
      s.session.ring.slot = some ⟨4, 1056⟩ := ⟨_, rfl, rfl⟩
  have hexact := (payload_size_exact_iff (.onePage 1024) (by decide)).2 (by decide)
  exact ⟨s, hs, hslot, hexact s ((Machine.Reachable.init (StreamState.fresh_initial _)).run hs)⟩

/-- With the payload size `2 ^ 64 - 32` a run passes the size check and reserves a slot of no bytes. -/
theorem payload_size_wraps : (∃ s,
    (streamMachine (.onePage 0xFFFFFFFFFFFFFFE0)).run (.fresh (.onePage 0xFFFFFFFFFFFFFFE0)) firstReserve = some s ∧
      s.session.ring.slot = some ⟨4, 0⟩) ∧
    ¬∀ s, (streamMachine (.onePage 0xFFFFFFFFFFFFFFE0)).Reachable s →
      s.SizesExact (StreamSetup.onePage 0xFFFFFFFFFFFFFFE0).producer := by
  have hrun : ∃ s, (streamMachine (.onePage 0xFFFFFFFFFFFFFFE0)).run (.fresh (.onePage 0xFFFFFFFFFFFFFFE0))
      firstReserve = some s ∧ s.session.ring.slot = some ⟨4, 0⟩ := ⟨_, rfl, rfl⟩
  refine ⟨hrun, fun h => ?_⟩
  obtain ⟨s, hs, hslot⟩ := hrun
  have hsize := ((h s ((Machine.Reachable.init (StreamState.fresh_initial _)).run hs)).slot _ hslot).1
  exact absurd hsize (by decide)

end ProducerConsumer
