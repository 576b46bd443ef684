import ProducerConsumer.StreamConsumers

/-!
# What a summary says about the stream

A session that ends by itself, under the blocking policy: its totals say how many of the committed records no session
before it had released, how many of these are not packets that `seal_packet` makes, and how many sequence numbers never
came.
-/

namespace ProducerConsumer

open Transition Succession

/-- What `seal_packet` makes of some buffer. -/
def IsPacket (record : List U8) : Prop :=
  ∃ (buffer : List U8) (sequence : U64) (timestampNs : I64) (c : Checksum), kHeaderSize ≤ buffer.length ∧
    buffer.length - kHeaderSize < 2 ^ 32 ∧ sealPacket buffer sequence timestampNs c = record

/-- The sequence numbers of the packets among the records. -/
def intactNumbers (recs : List (List U8)) : List Nat :=
  (recs.filter uncorrupted).map fun r => (readHeader r).sequence.toNat

theorem uncorrupted_iff_isPacket {record : List U8} : uncorrupted record = true ↔ IsPacket record := by
  constructor
  · intro hu
    have htrusted := (PacketValidator.uncorrupted_iff (.new ⟨false⟩ 0)).1 hu
    obtain ⟨c, hfind, -⟩ := htrusted.checksum
    have hsize := htrusted.payloadSize
    have hlt := (readHeader record).payloadSize.isLt
    exact ⟨record, (readHeader record).sequence, (readHeader record).timestampNs, c, htrusted.length, by omega,
      htrusted.sealed (ChecksumRegistry.kind_of_find hfind) rfl rfl⟩
  · rintro ⟨buffer, sequence, timestampNs, c, hlen, hsize, rfl⟩
    exact (PacketValidator.uncorrupted_iff (.new ⟨false⟩ 0)).2 (PacketValidator.trusted_sealPacket _ hlen hsize ..)

theorem arrivals_eq (records : List (List U8 × Int)) : arrivals records = intactNumbers (records.map Prod.fst) := by
  induction records with
  | nil => rfl
  | cons r records ih =>
    rw [arrivals_cons, ih, intactNumbers, intactNumbers, List.map_cons, List.filter_cons]
    split <;> rfl

/-- A record that is processed, with its receive time. -/
def SessionEvent.timed : SessionEvent → Option (List U8 × Int)
  | .process record nowNs => some (record, nowNs)
  | _ => none

theorem SessionEvent.map_timed (events : List SessionEvent) :
    (events.filterMap timed).map Prod.fst = events.filterMap processed := by
  induction events with
  | nil => rfl
  | cons e events ih => cases e <;> simp [timed, processed, List.filterMap_cons, ih]

theorem SessionEvent.handled_eq_processed {events : List SessionEvent} (h : events.filterMap dropped = []) :
    events.filterMap handled = events.filterMap processed := by
  induction events with
  | nil => rfl
  | cons e events ih =>
    cases e with
    | process record nowNs => exact congrArg (record :: ·) (ih h)
    | drop record => cases h
    | resume => exact ih h
    | takeInterval => exact ih h

namespace Findings

variable {cfg : SessionSetup}

/-- Under the blocking policy a session validates one record after the other and never resynchronises. -/
theorem recorded_verdicts (hpolicy : cfg.policy = .Blocking) (f : Findings) (events : List SessionEvent) :
    (f.recorded cfg events).map (fun p => p.1.result) =
      f.validator.verdicts (validations (events.filterMap SessionEvent.timed)) := by
  induction events generalizing f with
  | nil => rfl
  | cons e events ih =>
    cases e with
    | process record nowNs => exact congrArg (_ :: ·) (ih _)
    | drop record => exact ih _
    | resume =>
      have hkeep : (f.apply cfg .resume).validator = f.validator := by simp [apply, hpolicy, PausePolicy.onResume]
      rw [← hkeep]
      exact ih _
    | takeInterval => exact ih _

/-- The missing numbers are added up. -/
theorem applyAll_missing (f : Findings) (events : List SessionEvent) :
    (f.applyAll cfg events).stats.totals.missing =
      f.stats.totals.missing + BitVec.ofNat 64 ((f.recorded cfg events).map fun p => p.1.result.missing.toNat).sum := by
  induction events generalizing f with
  | nil => exact (BitVec.add_zero _).symm
  | cons e events ih =>
    cases e with
    | process record nowNs =>
      have hone := (f.stats.record_gaps (BitVec.ofNat 64 record.length) (f.validator.gap_iff_missing record nowNs)
        f.validator.no_gap_of_corrupted).1
      have hrest := ih (f.apply cfg (.process record nowNs))
      rw [show (f.apply cfg (.process record nowNs)).stats.totals.missing = _ from hone, BitVec.add_assoc,
        ← BitVec.ofNat_add] at hrest
      exact hrest
    | drop record => exact ih _
    | resume => exact ih _
    | takeInterval => exact ih _

/-- What the totals say of packets whose numbers increase. -/
structure SequenceTotals (totals : ConsumerTotals) (first : Nat) (rest : List Nat) : Prop where
  missing : totals.missing.toNat = (Finset.Icc first (rest.getLastD first) \ (first :: rest).toFinset).card
  sequenceGaps : totals.sequenceGaps = 0 ↔ (first :: rest).IsChain fun a b => b = a + 1
  sequenceRewinds : totals.sequenceRewinds = 0

theorem sequenceTotals (hpolicy : cfg.policy = .Blocking) (v : PacketValidator) {events : List SessionEvent} {first : Nat}
    {rest : List Nat} (hnumbers : intactNumbers (events.filterMap SessionEvent.processed) = first :: rest)
    (hchain : (first :: rest).IsChain (· < ·)) (hlt : rest.getLastD first < 2 ^ 64 - 1) :
    SequenceTotals ((Findings.start v).applyAll cfg events).stats.totals first rest := by
  have harrivals : arrivals (events.filterMap SessionEvent.timed) = first :: rest := by
    rw [arrivals_eq, SessionEvent.map_timed, hnumbers]
  have hresync : v.resync.Remembers none := ⟨rfl, by simp, by simp⟩
  have hrange : ∀ n ∈ arrivals (events.filterMap SessionEvent.timed), n < 2 ^ 64 - 1 := by
    intro n hn
    rw [harrivals] at hn
    exact Nat.lt_of_le_of_lt (le_getLastD hchain hn).2 hlt
  obtain ⟨hmissing, -, hrewinds⟩ := hresync.succession (by simp) hrange
  simp only [Option.map_none, Option.toList_none, List.nil_append, harrivals] at hmissing hrewinds
  have hverdicts := recorded_verdicts hpolicy (Findings.start v) events
  rw [show (Findings.start v).validator = v.resync from rfl] at hverdicts
  have htotals := ((Account.start cfg v).applyAll events).totals
  rw [List.nil_append] at htotals
  have hadd := @applyAll_missing cfg (Findings.start v) events
  generalize (Findings.start v).recorded cfg events = packets at hverdicts htotals hadd
  -- the numbers that are missing fit into a word
  have hcard := card_absent hchain
  have hbound : sumPairs skipped (first :: rest) < 2 ^ 64 := by
    have hle : (Finset.Icc first (rest.getLastD first) \ (first :: rest).toFinset).card ≤
        (Finset.Icc first (rest.getLastD first)).card := Finset.card_le_card Finset.sdiff_subset
    rw [Nat.card_Icc] at hle
    omega
  have hgaps : ∀ r ∈ packets.map (fun p => p.1.result), r.has .SequenceGap = true ↔ r.missing.toNat ≠ 0 := by
    rw [hverdicts]
    intro r hr
    obtain ⟨w, record, nowNs, rfl⟩ := PacketValidator.mem_verdicts hr
    exact w.gap_iff_missing record nowNs
  obtain ⟨hcount, hcount0⟩ := countP_gaps hgaps
  rw [← hverdicts] at hmissing
  rw [hmissing] at hcount hcount0
  rw [List.map_map] at hmissing
  rw [show (packets.map fun p => p.1.result.missing.toNat).sum = sumPairs skipped (first :: rest) from hmissing] at hadd
  rw [List.countP_map] at hcount hcount0
  refine ⟨?_, ?_, ?_⟩
  · rw [hadd, hcard, show (Findings.start v).stats.totals.missing = 0 from rfl, BitVec.toNat_add, BitVec.toNat_ofNat]
    simpa using hbound
  · rw [htotals.sequenceGaps, ← sumPairs_skipped_eq_zero hchain, ← hcount0, ← BitVec.toNat_inj, BitVec.toNat_ofNat]
    exact iff_of_eq (congrArg (· = 0) (Nat.mod_eq_of_lt (Nat.lt_of_le_of_lt hcount hbound)))
  · have hnone : packets.countP (fun p => p.1.result.has .SequenceRewind) = 0 := by
      rw [List.countP_eq_zero]
      intro p hp
      have := hrewinds.2 (sumPairs_fallen_eq_zero.2 hchain) p.1.result (by
        rw [← hverdicts]
        exact List.mem_map_of_mem hp)
      simp [this]
    rw [htotals.sequenceRewinds, hnone]
    rfl

end Findings

/-- The summary of a session that has received the stream to its end is exact.  Of the committed records that no session
before it had released, whatever they are, the totals give the number and how many are not packets that `seal_packet`
makes; and if the sequence numbers of the packets increase up to one that is not the greatest, they give how many of the
numbers between the first and the last never came, without a rewind, and report no gap exactly if none is missing. -/
theorem summary_is_exact (g : ObjectSetup) {c : StreamConsumers} (h : (consumersMachine g).Reachable c)
    (hpolicy : c.setup.policy = .Blocking) (hmode : c.mode = .engaged) (hphase : c.session.phase = .done true) :
    let stream := c.session.ring.committed.drop c.first
    let totals := c.session.stats.totals
    totals.received = BitVec.ofNat 64 stream.length ∧
    (∃ intact : List U8 → Bool, (∀ record, intact record = true ↔ IsPacket record) ∧
      totals.corrupted = BitVec.ofNat 64 (stream.countP fun record => !intact record)) ∧
    ∀ first rest, intactNumbers stream = first :: rest → (first :: rest).IsChain (· < ·) →
      rest.getLastD first < 2 ^ 64 - 1 → Findings.SequenceTotals totals first rest := by
  obtain ⟨hfirst, hw | hruns, hlogs⟩ := (StreamConsumers.Inv.of_reachable h).engaged hmode
  · rw [hw.phase] at hphase
    cases hphase
  obtain ⟨hview, hreleased⟩ := hruns.released_all hphase
  have hstream : c.session.ring.committed.drop c.first = c.session.returned := by
    have hreturned := hruns.returned
    rw [hview, hreleased, Option.map_none, Option.toList_none, List.append_nil] at hreturned
    rw [← hreturned, hfirst, List.drop_left]
  have hhandled : c.session.handled = c.session.returned := by
    rw [SessionState.handled, hphase]
    rfl
  -- nothing was dropped, so the session has processed all of it
  have hsound := hruns.sound hlogs
  obtain ⟨events, hfindings, hevents, hprocessed, hdropped⟩ := hsound.replay
  rw [hsound.blocking hpolicy] at hdropped
  have hall : events.filterMap SessionEvent.processed = c.session.ring.committed.drop c.first := by
    rw [hstream, ← hhandled, ← SessionEvent.handled_eq_processed hdropped.symm]
    exact hevents.symm
  obtain ⟨hcounts, hcorrupted⟩ := ((Findings.Account.start (g.session c.setup) c.setup.validator).applyAll events).counts
  have hstats : c.session.stats = ((Findings.start c.setup.validator).applyAll (g.session c.setup) events).stats :=
    congrArg Findings.stats hfindings
  intro stream totals
  rw [hall, ← hstats] at hcounts hcorrupted
  refine ⟨hcounts.received, ⟨uncorrupted, fun _ => uncorrupted_iff_isPacket, hcorrupted⟩, ?_⟩
  intro first rest hnumbers hchain hlt
  rw [show stream = events.filterMap SessionEvent.processed from hall.symm] at hnumbers
  have hsequence := Findings.sequenceTotals (show (g.session c.setup).policy = .Blocking from hpolicy) c.setup.validator
    hnumbers hchain hlt
  rwa [← hstats] at hsequence

/-- The packet 4, two bytes that are no packet, and the packet 7; the consumer receives all and the end of the stream. -/
def gapAndNoPacket : List ConsumersAction :=
  [.attach .polling, .session (.connect .loadTail), .session (.connect (.loadHead 0))] ++ sendActions (emptyPacket 4) ++
    sendActions [0, 0] ++ sendActions (emptyPacket 7) ++
    ([.finish, .advance, .advance, .advance, .tryPeek 3, .process 5, .report none, .advance, .advance, .advance,
      .tryPeek 3, .process 6, .report (some 3), .advance, .advance, .advance, .tryPeek 3, .process 7, .report none,
      .advance, .advance, .advance, .tryPeek 3, .advance, .loadState true, .checkAlive true, .advance, .tryPeek 3,
      .advance].map ConsumersAction.session)

theorem summary_is_exact_gap : ∃ c,
    (consumersMachine .packets).run (.fresh .packets .polling) gapAndNoPacket = some c ∧
      c.session.stats.totals.received = 3 ∧ c.session.stats.totals.missing.toNat = 2 ∧
      c.session.stats.totals.sequenceRewinds = 0 := by
  have hrun : ((consumersMachine .packets).run (.fresh .packets .polling) gapAndNoPacket).map
      (fun c => (c.setup.policy, c.mode, c.session.phase, c.session.ring.committed.drop c.first)) =
      some (.Blocking, .engaged, .done true, [emptyPacket 4, [0, 0], emptyPacket 7]) := by
    decide +kernel
  obtain ⟨c, hc, hview⟩ := Option.map_eq_some_iff.1 hrun
  simp only [Prod.mk.injEq] at hview
  obtain ⟨hpolicy, hmode, hphase, hstream⟩ := hview
  obtain ⟨hreceived, -, hnumbers⟩ :=
    summary_is_exact .packets ((Machine.Reachable.init (StreamConsumers.fresh_initial _ _)).run hc) hpolicy hmode hphase
  simp only [hstream] at hreceived hnumbers
  obtain ⟨hmissing, -, hrewinds⟩ := hnumbers 4 [7] (by decide +kernel) (by decide) (by decide)
  exact ⟨c, hc, hreceived, hmissing.trans (by decide), hrewinds⟩

end ProducerConsumer
