import ProducerConsumer.MissingPackets
import ProducerConsumer.Lib.Signed

/-!
# What the statistics account for

Histories of calls of `ConsumerStats` since a reset.  The calls of `take_interval` cut the recorded packets into
intervals; each snapshot describes exactly one of them, the window the one that is still open, and the totals all of
them together.
-/

namespace ProducerConsumer

/-! ### Histories -/

/-- A result that `validate` has produced. -/
structure Verdict where
  result : ValidationResult
  produced : ∃ (v : PacketValidator) (record : List U8) (nowNs : Int), (v.validate record nowNs).1 = result

inductive StatsCall
  | record (verdict : Verdict) (bytes : U64)
  | recordDropped (bytes : U64)
  | takeInterval

def StatsCall.isDropped : StatsCall → Bool
  | .recordDropped _ => true
  | _ => false

/-- The statistics and the snapshots taken so far, the oldest first. -/
structure StatsLog where
  stats : ConsumerStats
  snapshots : List ConsumerSnapshot

def StatsLog.call (log : StatsLog) : StatsCall → StatsLog
  | .record verdict bytes => { log with stats := log.stats.record verdict.result bytes }
  | .recordDropped bytes => { log with stats := log.stats.recordDropped bytes }
  | .takeInterval => ⟨log.stats.takeInterval.2, log.snapshots ++ [log.stats.takeInterval.1]⟩

/-- The history of calls since `reset`. -/
def StatsLog.since (stats : ConsumerStats) (calls : List StatsCall) : StatsLog :=
  calls.foldl StatsLog.call ⟨stats.reset, []⟩

/-- A recorded packet: its verdict and its size. -/
abbrev Recorded := Verdict × U64

/-- The recorded packets, cut into intervals: those that were closed, and the open one. -/
structure Traffic where
  closed : List (List Recorded) := []
  current : List Recorded := []

def Traffic.call (t : Traffic) : StatsCall → Traffic
  | .record verdict bytes => { t with current := t.current ++ [(verdict, bytes)] }
  | .recordDropped _ => t
  | .takeInterval => ⟨t.closed ++ [t.current], []⟩

def Traffic.since (calls : List StatsCall) : Traffic := calls.foldl Traffic.call {}

def Traffic.all (t : Traffic) : List Recorded := t.closed.flatten ++ t.current

/-- The packets recorded by the calls. -/
def recordedPackets (calls : List StatsCall) : List Recorded :=
  calls.filterMap fun c => match c with
    | .record verdict bytes => some (verdict, bytes)
    | _ => none

/-! ### Intervals -/

def totalBytes (packets : List Recorded) : Nat := (packets.map fun p => p.2.toNat).sum

/-- The latencies of the uncorrupted packets. -/
def latencies (packets : List Recorded) : List Int :=
  (packets.filter fun p => !p.1.result.corrupted).map fun p => p.1.result.latencyNs

/-- The window after these packets. -/
def windowOf (packets : List Recorded) : RateWindow :=
  ⟨BitVec.ofNat 64 packets.length, BitVec.ofNat 64 (totalBytes packets)⟩

/-- The sample of these latencies. -/
def sampleOf (latencies : List Int) : LatencySample := latencies.foldl LatencySample.add {}

theorem totalBytes_append (ps qs : List Recorded) : totalBytes (ps ++ qs) = totalBytes ps + totalBytes qs := by
  rw [totalBytes, List.map_append, List.sum_append]
  rfl

theorem latencies_append (ps qs : List Recorded) : latencies (ps ++ qs) = latencies ps ++ latencies qs := by
  rw [latencies, List.filter_append, List.map_append]
  rfl

theorem windowOf_append (packets : List Recorded) (p : Recorded) :
    windowOf (packets ++ [p]) = (windowOf packets).add p.2 := by
  have hbytes : totalBytes [p] = p.2.toNat := Nat.add_zero _
  rw [windowOf, List.length_append, totalBytes_append, hbytes, BitVec.ofNat_add, BitVec.ofNat_add, BitVec.ofNat_toNat,
    BitVec.setWidth_eq]
  rfl

theorem sampleOf_append (ls : List Int) (l : Int) : sampleOf (ls ++ [l]) = (sampleOf ls).add l := by
  rw [sampleOf, List.foldl_append]
  rfl

/-- What a sample says about the latencies it is of. -/
structure SampleOf (sample : LatencySample) (latencies : List Int) : Prop where
  count : sample.count = BitVec.ofNat 64 latencies.length
  sum : sample.sumNs = latencies.sum
  le : ∀ l ∈ latencies, sample.minNs ≤ l ∧ l ≤ sample.maxNs
  attained : latencies ≠ [] → sample.minNs ∈ latencies ∧ sample.maxNs ∈ latencies

theorem sampleOf_spec {ls : List Int} (h : ∀ l ∈ ls, Signed.InRange 64 l) : SampleOf (sampleOf ls) ls := by
  induction ls using List.reverseRecOn with
  | nil => exact ⟨rfl, rfl, by simp, fun hne => absurd rfl hne⟩
  | append_singleton ls l ih =>
    have hls := ih fun x hx => h x (List.mem_append_left _ hx)
    obtain ⟨hlow, hhigh⟩ := Signed.inRange_64.1 (h l (List.mem_append_right _ (List.mem_singleton_self l)))
    rw [sampleOf_append]
    refine ⟨?_, ?_, fun x hx => ?_, fun _ => ?_⟩
    · rw [LatencySample.add, hls.count, List.length_append, BitVec.ofNat_add]
      rfl
    · rw [LatencySample.add, hls.sum, List.sum_append, List.sum_singleton]
    · simp only [LatencySample.add]
      rcases List.mem_append.1 hx with hx | hx
      · have := hls.le x hx
        split <;> split <;> omega
      · rw [List.mem_singleton.1 hx]
        split <;> split <;> omega
    · simp only [LatencySample.add, List.mem_append, List.mem_singleton]
      rcases ls with _ | ⟨x, ls⟩
      -- the first latency replaces the extreme values that a sample starts with
      · simp only [sampleOf, List.foldl_nil, List.not_mem_nil, false_or]
        constructor <;> omega
      · obtain ⟨hmin, hmax⟩ := hls.attained (List.cons_ne_nil _ _)
        constructor
        · split
          · exact .inr rfl
          · exact .inl hmin
        · split
          · exact .inr rfl
          · exact .inl hmax

/-- The mean of a sample lies between its extremes. -/
theorem SampleOf.bounds {sample : LatencySample} {ls : List Int} (h : SampleOf sample ls) (hlen : ls.length < 2 ^ 64) :
    (sample.count.toNat : Int) * sample.minNs ≤ sample.sumNs ∧
      sample.sumNs ≤ (sample.count.toNat : Int) * sample.maxNs := by
  have hlow := ls.card_nsmul_le_sum sample.minNs fun l hl => (h.le l hl).1
  have hhigh := ls.sum_le_card_nsmul sample.maxNs fun l hl => (h.le l hl).2
  rw [nsmul_eq_mul] at hlow hhigh
  rw [h.count, h.sum, BitVec.toNat_ofNat, Nat.mod_eq_of_lt hlen]
  exact ⟨hlow, hhigh⟩

/-! ### Totals -/

/-- The totals of the recorded packets; the counts of drops are left open. -/
structure TotalsOf (totals : ConsumerTotals) (packets : List Recorded) : Prop where
  received : totals.received = BitVec.ofNat 64 packets.length
  bytes : totals.bytes = BitVec.ofNat 64 (totalBytes packets)
  valid : totals.valid = BitVec.ofNat 64 (packets.countP fun p => p.1.result.clean)
  corrupted : totals.corrupted = BitVec.ofNat 64 (packets.countP fun p => p.1.result.corrupted)
  sequenceGaps : totals.sequenceGaps = BitVec.ofNat 64 (packets.countP fun p => p.1.result.has .SequenceGap)
  sequenceRewinds : totals.sequenceRewinds = BitVec.ofNat 64 (packets.countP fun p => p.1.result.has .SequenceRewind)
  timestampAnomalies : totals.timestampAnomalies = BitVec.ofNat 64
    (packets.countP fun p => p.1.result.has .TimestampFuture || p.1.result.has .TimestampBackward)

namespace Verdict

/-- Nothing else is reported with a corruption. -/
theorem not_has_of_corrupted (verdict : Verdict) (h : verdict.result.corrupted = true) {d : Defect}
    (hd : d.bit &&& kCorruptionDefects = 0) : verdict.result.has d = false := by
  obtain ⟨v, record, nowNs, hresult⟩ := verdict.produced
  rw [← hresult] at h ⊢
  rw [PacketValidator.corrupted_eq, Bool.not_eq_true', ← Bool.not_eq_true] at h
  exact (v.validate_of_corrupted h nowNs).2 d hd

/-- The bits about the clock and the baseline are clean or counted. -/
theorem continuity_counted : ∀ b0 b1 b2 b3 : Bool,
    ({ defects := PacketValidator.continuityBits b0 b1 b2 b3 } : ValidationResult).clean = true ∨
    ({ defects := PacketValidator.continuityBits b0 b1 b2 b3 } : ValidationResult).has .SequenceGap = true ∨
    ({ defects := PacketValidator.continuityBits b0 b1 b2 b3 } : ValidationResult).has .SequenceRewind = true ∨
    (({ defects := PacketValidator.continuityBits b0 b1 b2 b3 } : ValidationResult).has .TimestampFuture ||
      ({ defects := PacketValidator.continuityBits b0 b1 b2 b3 } : ValidationResult).has .TimestampBackward) = true := by
  decide

/-- A packet that is neither clean nor corrupted has one of the counted defects. -/
theorem counted (verdict : Verdict) : verdict.result.clean = true ∨ verdict.result.corrupted = true ∨
    verdict.result.has .SequenceGap = true ∨ verdict.result.has .SequenceRewind = true ∨
      (verdict.result.has .TimestampFuture || verdict.result.has .TimestampBackward) = true := by
  by_cases hc : verdict.result.corrupted = true
  · exact .inr (.inl hc)
  · obtain ⟨v, record, nowNs, hresult⟩ := verdict.produced
    have hu : uncorrupted record = true := by
      rw [← hresult, PacketValidator.corrupted_eq] at hc
      simpa using hc
    have htrusted := (PacketValidator.uncorrupted_iff v).1 hu
    rw [← hresult, PacketValidator.validate_of_trusted htrusted]
    exact (continuity_counted _ _ _ _).imp_right .inr

theorem not_clean_of_corrupted {result : ValidationResult} (h : result.corrupted = true) : result.clean = false := by
  rw [ValidationResult.clean, decide_eq_false_iff_not]
  intro hzero
  rw [ValidationResult.corrupted, hzero] at h
  exact absurd h (by decide)

end Verdict

theorem countP_append_one (packets : List Recorded) (p : Recorded) (f : Recorded → Bool) :
    BitVec.ofNat 64 ((packets ++ [p]).countP f) =
      if f p then BitVec.ofNat 64 (packets.countP f) + 1 else BitVec.ofNat 64 (packets.countP f) := by
  rw [List.countP_append, List.countP_singleton]
  split
  · exact BitVec.ofNat_add _ _
  · rfl

/-- A recorded packet adds to the totals what it is. -/
theorem TotalsOf.record {totals : ConsumerTotals} {packets : List Recorded} (h : TotalsOf totals packets)
    (verdict : Verdict) (bytes : U64) :
    TotalsOf (ConsumerStats.recordTotals totals verdict.result bytes) (packets ++ [(verdict, bytes)]) := by
  have hnot (d : Defect) (hd : d.bit &&& kCorruptionDefects = 0) (hc : verdict.result.corrupted = true) :=
    verdict.not_has_of_corrupted hc hd
  have hbytes : BitVec.ofNat 64 (totalBytes (packets ++ [(verdict, bytes)])) = totals.bytes + bytes := by
    have hone : totalBytes [(verdict, bytes)] = bytes.toNat := Nat.add_zero _
    rw [totalBytes_append, hone, BitVec.ofNat_add, BitVec.ofNat_toNat, BitVec.setWidth_eq, h.bytes]
  have hreceived : BitVec.ofNat 64 (packets ++ [(verdict, bytes)]).length = totals.received + 1 := by
    rw [List.length_append, BitVec.ofNat_add, h.received]
    rfl
  unfold ConsumerStats.recordTotals
  by_cases hc : verdict.result.corrupted = true
  · rw [if_pos hc]
    constructor <;> simp only [countP_append_one, hreceived, hbytes, hc, Verdict.not_clean_of_corrupted hc,
      hnot .SequenceGap (by decide) hc, hnot .SequenceRewind (by decide) hc, hnot .TimestampFuture (by decide) hc,
      hnot .TimestampBackward (by decide) hc, Bool.or_self, Bool.false_eq_true, if_false, if_true, h.valid, h.corrupted,
      h.sequenceGaps, h.sequenceRewinds, h.timestampAnomalies]
  · rw [if_neg hc]
    constructor <;> simp only [countP_append_one, hreceived, hbytes, hc, Bool.false_eq_true, if_false, h.valid, h.corrupted,
      h.sequenceGaps, h.sequenceRewinds, h.timestampAnomalies]

/-! ### Every call -/

/-- The snapshots describe the closed intervals, the window and the latencies the open one, the totals all of them. -/
structure StatsLog.Describes (log : StatsLog) (t : Traffic) : Prop where
  intervals : log.snapshots.map ConsumerSnapshot.interval = t.closed.map windowOf
  samples : log.snapshots.map ConsumerSnapshot.latency = t.closed.map fun p => sampleOf (latencies p)
  window : log.stats.window = windowOf t.current
  latency : log.stats.latency = sampleOf (latencies t.current)
  totals : TotalsOf log.stats.totals t.all

theorem StatsLog.Describes.call {log : StatsLog} {t : Traffic} (h : log.Describes t) (c : StatsCall) :
    (log.call c).Describes (t.call c) := by
  cases c with
  | record verdict bytes =>
    have hall : (t.call (.record verdict bytes)).all = t.all ++ [(verdict, bytes)] := (List.append_assoc ..).symm
    refine ⟨h.intervals, h.samples, ?_, ?_, ?_⟩
    · exact (congrArg (·.add bytes) h.window).trans (windowOf_append t.current (verdict, bytes)).symm
    · simp only [StatsLog.call, Traffic.call, ConsumerStats.record, latencies_append, h.latency]
      by_cases hc : verdict.result.corrupted = true
      · rw [if_pos hc]
        simp [latencies, hc]
      · have hone : latencies [(verdict, bytes)] = [verdict.result.latencyNs] := by simp [latencies, hc]
        rw [if_neg hc, hone, sampleOf_append]
    · rw [hall]
      exact h.totals.record verdict bytes
  | recordDropped bytes =>
    have htotals := h.totals
    exact ⟨h.intervals, h.samples, h.window, h.latency, htotals.received, htotals.bytes, htotals.valid,
      htotals.corrupted, htotals.sequenceGaps, htotals.sequenceRewinds, htotals.timestampAnomalies⟩
  | takeInterval =>
    have hall : (t.call .takeInterval).all = t.all := by
      simp [Traffic.call, Traffic.all]
    refine ⟨?_, ?_, rfl, rfl, ?_⟩
    · simp only [StatsLog.call, Traffic.call, List.map_append, h.intervals]
      exact congrArg _ (congrArg (fun w => [w]) h.window)
    · simp only [StatsLog.call, Traffic.call, List.map_append, h.samples]
      exact congrArg _ (congrArg (fun l => [l]) h.latency)
    · rw [hall]
      exact h.totals

theorem StatsLog.Describes.calls {log : StatsLog} {t : Traffic} (h : log.Describes t) (calls : List StatsCall) :
    (calls.foldl StatsLog.call log).Describes (calls.foldl Traffic.call t) := by
  induction calls generalizing log t with
  | nil => exact h
  | cons c calls ih => exact ih (h.call c)

theorem StatsLog.Describes.since (stats : ConsumerStats) (calls : List StatsCall) :
    (StatsLog.since stats calls).Describes (Traffic.since calls) := by
  have hreset : StatsLog.Describes ⟨stats.reset, []⟩ {} := by
    constructor <;> first | rfl | constructor <;> rfl
  exact hreset.calls calls

/-- Every recorded packet is in exactly one interval. -/
theorem Traffic.all_since (calls : List StatsCall) : (Traffic.since calls).all = recordedPackets calls := by
  have hfold (t : Traffic) : (calls.foldl Traffic.call t).all = t.all ++ recordedPackets calls := by
    induction calls generalizing t with
    | nil => exact (List.append_nil _).symm
    | cons c calls ih =>
      rw [List.foldl_cons, ih]
      cases c <;> simp [Traffic.call, Traffic.all, recordedPackets]
  exact hfold {}

/-! ### Drops -/

def ConsumerTotals.withoutDropped (totals : ConsumerTotals) : ConsumerTotals :=
  { totals with dropped := 0, droppedBytes := 0 }

/-- Everything but the counts of drops. -/
def StatsLog.withoutDropped (log : StatsLog) : StatsLog where
  stats := { log.stats with totals := log.stats.totals.withoutDropped }
  snapshots := log.snapshots.map fun s => { s with totals := s.totals.withoutDropped }

/-- A drop changes nothing else, and no other call depends on the counts of drops. -/
theorem StatsLog.call_withoutDropped (log : StatsLog) (c : StatsCall) :
    (log.call c).withoutDropped = if c.isDropped then log.withoutDropped else log.withoutDropped.call c := by
  cases c with
  | record verdict bytes =>
    simp only [StatsCall.isDropped, Bool.false_eq_true, if_false, StatsLog.call, StatsLog.withoutDropped,
      ConsumerStats.record, ConsumerStats.recordTotals]
    split <;> rfl
  | recordDropped bytes => rfl
  | takeInterval =>
    simp only [StatsCall.isDropped, Bool.false_eq_true, if_false, StatsLog.call, StatsLog.withoutDropped,
      ConsumerStats.takeInterval, List.map_append, List.map_singleton]

theorem StatsLog.since_withoutDropped (stats : ConsumerStats) (calls : List StatsCall) :
    (StatsLog.since stats calls).withoutDropped = StatsLog.since stats (calls.filter fun c => !c.isDropped) := by
  have hfold (log : StatsLog) : (calls.foldl StatsLog.call log).withoutDropped =
      (calls.filter fun c => !c.isDropped).foldl StatsLog.call log.withoutDropped := by
    induction calls generalizing log with
    | nil => rfl
    | cons c calls ih =>
      rw [List.foldl_cons, ih, log.call_withoutDropped, List.filter_cons]
      cases c.isDropped <;> rfl
  exact hfold ⟨stats.reset, []⟩

/-! ### The account -/

/-- The counts and sums fit their 64-bit types. -/
structure WithinLimits (packets : List Recorded) : Prop where
  count : packets.length < 2 ^ 64
  bytes : totalBytes packets < 2 ^ 64
  latency : ∀ l ∈ latencies packets, Signed.InRange 64 l

/-- What the snapshots, the window and the totals say together. -/
structure Partition (log : StatsLog) (t : Traffic) : Prop where
  received : log.stats.totals.received.toNat = t.all.length
  packets : (log.snapshots.map fun s => s.interval.packets.toNat).sum + log.stats.window.packets.toNat =
    log.stats.totals.received.toNat
  bytes : (log.snapshots.map fun s => s.interval.bytes.toNat).sum + log.stats.window.bytes.toNat =
    log.stats.totals.bytes.toNat
  latencyCount : (log.snapshots.map fun s => s.latency.count.toNat).sum + log.stats.latency.count.toNat +
    log.stats.totals.corrupted.toNat = log.stats.totals.received.toNat
  latencySum : (log.snapshots.map fun s => s.latency.sumNs).sum + log.stats.latency.sumNs = (latencies t.all).sum
  sample : ∀ (i : Nat) (snapshot : ConsumerSnapshot), log.snapshots[i]? = some snapshot →
    ∃ interval, t.closed[i]? = some interval ∧ SampleOf snapshot.latency (latencies interval) ∧
    (snapshot.latency.count.toNat : Int) * snapshot.latency.minNs ≤ snapshot.latency.sumNs ∧
    snapshot.latency.sumNs ≤ (snapshot.latency.count.toNat : Int) * snapshot.latency.maxNs
  atLeast : log.stats.totals.valid.toNat + log.stats.totals.corrupted.toNat ≤ log.stats.totals.received.toNat
  atMost : log.stats.totals.received.toNat ≤ log.stats.totals.valid.toNat + log.stats.totals.corrupted.toNat +
    log.stats.totals.sequenceGaps.toNat + log.stats.totals.sequenceRewinds.toNat +
    log.stats.totals.timestampAnomalies.toNat

/-- A quantity that adds up over packets adds up over the intervals. -/
theorem Traffic.sum_intervals {M : Type} [AddMonoid M] (t : Traffic) (f : List Recorded → M) (hnil : f [] = 0)
    (happend : ∀ ps qs, f (ps ++ qs) = f ps + f qs) : (t.closed.map f).sum + f t.current = f t.all := by
  have hflatten (intervals : List (List Recorded)) : (intervals.map f).sum = f intervals.flatten := by
    induction intervals with
    | nil => exact hnil.symm
    | cons ps intervals ih => rw [List.map_cons, List.sum_cons, List.flatten_cons, happend, ih]
  rw [Traffic.all, happend, hflatten]

/-- The same for the words that hold it, if the sum does not wrap. -/
theorem Traffic.sum_words (t : Traffic) (f : List Recorded → Nat) (hnil : f [] = 0)
    (happend : ∀ ps qs, f (ps ++ qs) = f ps + f qs) (hlt : f t.all < 2 ^ 64) :
    (t.closed.map fun ps => (BitVec.ofNat 64 (f ps)).toNat).sum + (BitVec.ofNat 64 (f t.current)).toNat = f t.all := by
  have hsum := t.sum_intervals f hnil happend
  have hword {n : Nat} (hn : n ≤ f t.all) : (BitVec.ofNat 64 n).toNat = n := by
    rw [BitVec.toNat_ofNat, Nat.mod_eq_of_lt (Nat.lt_of_le_of_lt hn hlt)]
  have hmap : (t.closed.map fun ps => (BitVec.ofNat 64 (f ps)).toNat) = t.closed.map f := by
    refine List.map_congr_left fun ps hps => hword ?_
    have := List.single_le_sum (l := t.closed.map f) (fun _ _ => Nat.zero_le _) _ (List.mem_map_of_mem hps)
    omega
  rw [hmap, hword (by omega), hsum]

/-- Every interval is a part of the traffic, so its latencies and its length are within the limits. -/
theorem Traffic.interval_sample {t : Traffic} (h : WithinLimits t.all) {ps : List Recorded}
    (hps : ps ∈ t.closed ∨ ps = t.current) :
    SampleOf (sampleOf (latencies ps)) (latencies ps) ∧ (latencies ps).length < 2 ^ 64 := by
  have hsub : ps.Sublist t.all := by
    rcases hps with hps | rfl
    · exact (List.sublist_flatten_of_mem hps).trans (List.sublist_append_left _ _)
    · exact List.sublist_append_right _ _
  have hlatencies : (latencies ps).Sublist (latencies t.all) := (hsub.filter _).map _
  have hlen : (latencies ps).length ≤ ps.length := by
    rw [latencies, List.length_map]
    exact List.length_filter_le _ _
  have hcount := h.count
  have hle := hsub.length_le
  exact ⟨sampleOf_spec fun l hl => h.latency l (hlatencies.subset hl), by omega⟩

theorem StatsLog.Describes.map_windows {log : StatsLog} {t : Traffic} (h : log.Describes t) {M : Type}
    (f : RateWindow → M) : (log.snapshots.map fun s => f s.interval) = t.closed.map fun ps => f (windowOf ps) := by
  have hmap := congrArg (List.map f) h.intervals
  rwa [List.map_map, List.map_map] at hmap

theorem StatsLog.Describes.map_samples {log : StatsLog} {t : Traffic} (h : log.Describes t) {M : Type}
    (f : LatencySample → M) :
    (log.snapshots.map fun s => f s.latency) = t.closed.map fun ps => f (sampleOf (latencies ps)) := by
  have hmap := congrArg (List.map f) h.samples
  rwa [List.map_map, List.map_map] at hmap

theorem length_latencies (packets : List Recorded) :
    (latencies packets).length + packets.countP (fun p => p.1.result.corrupted) = packets.length := by
  have hsplit := List.length_eq_countP_add_countP (fun p : Recorded => p.1.result.corrupted) (l := packets)
  simp only [Bool.not_eq_true, ← Bool.not_eq_true', Bool.decide_eq_true] at hsplit
  rw [latencies, List.length_map, ← List.countP_eq_length_filter, Nat.add_comm, hsplit]

/-- No packet is both clean and corrupted, and one that is neither has a counted defect. -/
theorem countP_verdicts (packets : List Recorded) :
    packets.countP (fun p => p.1.result.clean) + packets.countP (fun p => p.1.result.corrupted) ≤ packets.length ∧
      packets.length ≤ packets.countP (fun p => p.1.result.clean) + packets.countP (fun p => p.1.result.corrupted) +
        packets.countP (fun p => p.1.result.has .SequenceGap) +
        packets.countP (fun p => p.1.result.has .SequenceRewind) +
        packets.countP (fun p => p.1.result.has .TimestampFuture || p.1.result.has .TimestampBackward) := by
  induction packets with
  | nil => simp
  | cons p packets ih =>
    simp only [List.countP_cons, List.length_cons]
    constructor
    · by_cases hc : p.1.result.corrupted = true
      · simp only [Verdict.not_clean_of_corrupted hc, hc, Bool.false_eq_true, if_false, if_true]
        omega
      · simp only [hc, Bool.false_eq_true, if_false]
        split <;> omega
    · rcases p.1.counted with h | h | h | h | h <;> rw [if_pos h] <;> omega

/-- The statistics partition the traffic.  Since a reset, with counts and sums within their limits: every recorded packet
is in exactly one interval; the packets, bytes and latencies of the snapshots and of the open window add up to the
totals; each snapshot has the least and the greatest latency of its interval, with the mean in between; every packet
that is not valid is counted as corrupted or with a defect; and calls of `record_dropped` enter none of this. -/
theorem stats_partition (stats : ConsumerStats) (calls : List StatsCall) (h : WithinLimits (recordedPackets calls)) :
    (Traffic.since calls).all = recordedPackets calls ∧
    Partition (StatsLog.since stats calls) (Traffic.since calls) ∧
    (StatsLog.since stats calls).withoutDropped = StatsLog.since stats (calls.filter fun c => !c.isDropped) := by
  have hall := Traffic.all_since calls
  have hdescribes := StatsLog.Describes.since stats calls
  refine ⟨hall, ?_, StatsLog.since_withoutDropped stats calls⟩
  rw [← hall] at h
  generalize StatsLog.since stats calls = log at hdescribes ⊢
  generalize Traffic.since calls = t at h hdescribes ⊢
  have htotals := hdescribes.totals
  have hword {n : Nat} (hn : n ≤ t.all.length) : (BitVec.ofNat 64 n).toNat = n := by
    rw [BitVec.toNat_ofNat, Nat.mod_eq_of_lt (Nat.lt_of_le_of_lt hn h.count)]
  have hcount (f : Recorded → Bool) : (BitVec.ofNat 64 (t.all.countP f)).toNat = t.all.countP f :=
    hword List.countP_le_length
  have hpackets := t.sum_words List.length rfl (fun _ _ => List.length_append) h.count
  have hbytes := t.sum_words totalBytes rfl totalBytes_append h.bytes
  have hlatencies := t.sum_words (fun ps => (latencies ps).length) rfl
    (fun ps qs => by rw [latencies_append, List.length_append]) (by
      have := length_latencies t.all
      have := h.count
      omega)
  have hsums := t.sum_intervals (fun ps => (latencies ps).sum) rfl
    (fun ps qs => by rw [latencies_append, List.sum_append])
  have hsample {ps : List Recorded} (hps : ps ∈ t.closed ∨ ps = t.current) := (Traffic.interval_sample h hps).1
  refine ⟨?_, ?_, ?_, ?_, ?_, ?_, ?_, ?_⟩
  · rw [htotals.received, hword (Nat.le_refl _)]
  · rw [hdescribes.map_windows fun w => w.packets.toNat, hdescribes.window, htotals.received, hword (Nat.le_refl _)]
    exact hpackets
  · rw [hdescribes.map_windows fun w => w.bytes.toNat, hdescribes.window, htotals.bytes,
      BitVec.toNat_ofNat (totalBytes t.all), Nat.mod_eq_of_lt h.bytes]
    exact hbytes
  · have hcounts : (t.closed.map fun ps => (sampleOf (latencies ps)).count.toNat) =
        t.closed.map fun ps => (BitVec.ofNat 64 (latencies ps).length).toNat :=
      List.map_congr_left fun ps hps => congrArg BitVec.toNat (hsample (.inl hps)).count
    rw [hdescribes.map_samples fun l => l.count.toNat, hcounts, hdescribes.latency, (hsample (.inr rfl)).count,
      htotals.corrupted, htotals.received, hcount, hword (Nat.le_refl _), hlatencies, length_latencies]
  · have hlatencySums : (t.closed.map fun ps => (sampleOf (latencies ps)).sumNs) =
        t.closed.map fun ps => (latencies ps).sum :=
      List.map_congr_left fun ps hps => (hsample (.inl hps)).sum
    rw [hdescribes.map_samples LatencySample.sumNs, hlatencySums, hdescribes.latency, (hsample (.inr rfl)).sum, hsums]
  · intro i snapshot hsnapshot
    have hget := congrArg (fun l => l[i]?) hdescribes.samples
    simp only [List.getElem?_map, hsnapshot, Option.map_some] at hget
    obtain ⟨interval, hclosed, hsample⟩ := Option.map_eq_some_iff.1 hget.symm
    obtain ⟨hspec, hlen⟩ := Traffic.interval_sample h (.inl (List.mem_of_getElem? hclosed))
    rw [hsample] at hspec
    exact ⟨interval, hclosed, hspec, hspec.bounds hlen⟩
  · rw [htotals.valid, htotals.corrupted, htotals.received, hcount, hcount, hword (Nat.le_refl _)]
    exact (countP_verdicts t.all).1
  · rw [htotals.valid, htotals.corrupted, htotals.received, htotals.sequenceGaps, htotals.sequenceRewinds,
      htotals.timestampAnomalies, hcount, hcount, hcount, hcount, hcount, hword (Nat.le_refl _)]
    exact (countP_verdicts t.all).2

/-- The verdict of a validator on a record. -/
def Verdict.of (v : PacketValidator) (record : List U8) (nowNs : Int) : Verdict :=
  ⟨(v.validate record nowNs).1, v, record, nowNs, rfl⟩

/-- A packet, the end of the interval, a drop and a corrupted record. -/
def twoIntervals : List StatsCall :=
  [.record (.of (.new ⟨false⟩ 0) (emptyPacket 5) 7) 32, .takeInterval, .recordDropped 40,
    .record (.of (.new ⟨false⟩ 0) [] 9) 0]

theorem stats_partition_two_intervals : Partition (StatsLog.since {} twoIntervals) (Traffic.since twoIntervals) := by
  have hlatencies : latencies (recordedPackets twoIntervals) = [7] := by decide +kernel
  refine (stats_partition {} twoIntervals ⟨by decide, by decide, ?_⟩).2.1
  rw [hlatencies]
  simp [Signed.inRange_64]

end ProducerConsumer
