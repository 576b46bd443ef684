import ProducerConsumer.Validator

/-!
# Consumer statistics

`ConsumerStats` as in `consumer_stats.cpp`, without its clocks.  Counters are 64-bit words, latencies exact integers.
-/

namespace ProducerConsumer

structure ConsumerTotals where
  received : U64 := 0
  bytes : U64 := 0
  valid : U64 := 0
  corrupted : U64 := 0
  sequenceGaps : U64 := 0
  missing : U64 := 0
  sequenceRewinds : U64 := 0
  timestampAnomalies : U64 := 0
  dropped : U64 := 0
  droppedBytes : U64 := 0
deriving DecidableEq, Repr

/-- The counts of a `RateWindow`. -/
structure RateWindow where
  packets : U64 := 0
  bytes : U64 := 0
deriving DecidableEq, Repr

def RateWindow.add (w : RateWindow) (bytes : U64) : RateWindow := ⟨w.packets + 1, w.bytes + bytes⟩

structure LatencySample where
  minNs : Int := 2 ^ 63 - 1
  maxNs : Int := -2 ^ 63
  sumNs : Int := 0
  count : U64 := 0
deriving DecidableEq, Repr

def LatencySample.add (l : LatencySample) (latencyNs : Int) : LatencySample where
  minNs := if latencyNs < l.minNs then latencyNs else l.minNs
  maxNs := if latencyNs > l.maxNs then latencyNs else l.maxNs
  sumNs := l.sumNs + latencyNs
  count := l.count + 1

structure ConsumerSnapshot where
  totals : ConsumerTotals
  interval : RateWindow
  latency : LatencySample
deriving DecidableEq, Repr

structure ConsumerStats where
  totals : ConsumerTotals := {}
  window : RateWindow := {}
  latency : LatencySample := {}
deriving DecidableEq, Repr

namespace ConsumerStats

/-- The totals after a record with this result; a corrupted one is counted as such and no further. -/
def recordTotals (totals : ConsumerTotals) (result : ValidationResult) (bytes : U64) : ConsumerTotals :=
  let counted := { totals with
    received := totals.received + 1
    bytes := totals.bytes + bytes
    valid := if result.clean then totals.valid + 1 else totals.valid }
  if result.corrupted then { counted with corrupted := totals.corrupted + 1 }
  else
    { counted with
      sequenceGaps := if result.has .SequenceGap then totals.sequenceGaps + 1 else totals.sequenceGaps
      missing := if result.has .SequenceGap then totals.missing + result.missing else totals.missing
      sequenceRewinds :=
        if result.has .SequenceRewind then totals.sequenceRewinds + 1 else totals.sequenceRewinds
      timestampAnomalies :=
        if result.has .TimestampFuture || result.has .TimestampBackward then totals.timestampAnomalies + 1
        else totals.timestampAnomalies }

def record (s : ConsumerStats) (result : ValidationResult) (bytes : U64) : ConsumerStats where
  totals := recordTotals s.totals result bytes
  window := s.window.add bytes
  latency := if result.corrupted then s.latency else s.latency.add result.latencyNs

def recordDropped (s : ConsumerStats) (bytes : U64) : ConsumerStats :=
  { s with totals := { s.totals with
      dropped := s.totals.dropped + 1, droppedBytes := s.totals.droppedBytes + bytes } }

/-- The snapshot, and the statistics with a new window. -/
def takeInterval (s : ConsumerStats) : ConsumerSnapshot × ConsumerStats :=
  (⟨s.totals, s.window, s.latency⟩, { s with window := {}, latency := {} })

def reset (_ : ConsumerStats) : ConsumerStats := {}

/-- What any record adds to the totals. -/
theorem record_totals (s : ConsumerStats) (result : ValidationResult) (bytes : U64) :
    (s.record result bytes).totals.received = s.totals.received + 1 ∧
      (s.record result bytes).totals.bytes = s.totals.bytes + bytes ∧
      (s.record result bytes).totals.dropped = s.totals.dropped ∧
      (s.record result bytes).totals.droppedBytes = s.totals.droppedBytes := by
  unfold record recordTotals
  dsimp only
  split <;> exact ⟨rfl, rfl, rfl, rfl⟩

/-- A trusted record that is neither ahead nor behind counts as none of these. -/
theorem record_totals_of_regular (s : ConsumerStats) {result : ValidationResult} (bytes : U64)
    (hcorrupted : result.corrupted = false) (hgap : result.has .SequenceGap = false)
    (hrewind : result.has .SequenceRewind = false) :
    (s.record result bytes).totals.corrupted = s.totals.corrupted ∧
      (s.record result bytes).totals.sequenceGaps = s.totals.sequenceGaps ∧
      (s.record result bytes).totals.missing = s.totals.missing ∧
      (s.record result bytes).totals.sequenceRewinds = s.totals.sequenceRewinds := by
  simp [record, recordTotals, hcorrupted, hgap, hrewind]

end ConsumerStats

end ProducerConsumer
