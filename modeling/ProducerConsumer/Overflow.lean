import ProducerConsumer.StatsPartition

/-!
# The signed arithmetic of the consumer

`validate` and `record` once more, with the additions and subtractions of `std::int64_t` that they make, which are
undefined where they overflow.  Where all are defined they compute what the exact model does.  The timestamp of a record
that passes the checks is any 64-bit value: the subtraction from the receive time overflows for timestamps far before the
epoch, and the sum of the latencies of an interval is not bounded at all.
-/

namespace ProducerConsumer

/-! ### The operations with their undefined cases -/

def PacketValidator.validateChecked (v : PacketValidator) (record : List U8) (nowNs : Int) :
    Option (ValidationResult × PacketValidator) :=
  if record.length < kHeaderSize then some ({ defects := Defect.BadHeaderSize.bit ||| Defect.SizeMismatch.bit }, v)
  else
    let header := readHeader record
    let result : ValidationResult := { defects := v.integrity record, sequence := header.sequence }
    if result.corrupted then some (result, v)
    else do
      let latencyNs ← Signed.sub 64 nowNs header.timestampNs.toInt
      -- the limit that the timestamp is compared with
      let _ ← Signed.add 64 nowNs v.futureToleranceNs
      some ({ result with
          defects := result.defects ||| v.continuity header nowNs
          missing := v.missing header
          latencyNs := latencyNs }, v.track header)

def LatencySample.addChecked (l : LatencySample) (latencyNs : Int) : Option LatencySample := do
  let sumNs ← Signed.add 64 l.sumNs latencyNs
  some { l.add latencyNs with sumNs := sumNs }

def ConsumerStats.recordChecked (s : ConsumerStats) (result : ValidationResult) (bytes : U64) : Option ConsumerStats :=
  if result.corrupted then some (s.record result bytes)
  else do
    let latency ← s.latency.addChecked result.latencyNs
    some { s.record result bytes with latency := latency }

/-- A record that some validator is given, in whatever state, with its receive time and the size that is recorded.  The
tolerance is a `std::int64_t`, and the receive time leaves room for it. -/
structure Receipt where
  validator : PacketValidator
  record : List U8
  nowNs : Int
  bytes : U64
  tolerance : Signed.InRange 64 validator.futureToleranceNs
  now_nonneg : 0 ≤ nowNs
  now_le : nowNs + validator.futureToleranceNs ≤ 2 ^ 63 - 1

namespace Receipt

def result (r : Receipt) : ValidationResult := (r.validator.validate r.record r.nowNs).1

/-- The latency of an uncorrupted record, exactly. -/
def latencyNs (r : Receipt) : Int := r.nowNs - (Stamp.of r.record).timestampNs.toInt

/-- Not more than `2 ^ 63 - 1` nanoseconds between the timestamp and the receive time, if the record is uncorrupted. -/
def Recent (r : Receipt) : Prop := uncorrupted r.record = true → r.latencyNs ≤ 2 ^ 63 - 1

instance (r : Receipt) : Decidable r.Recent := inferInstanceAs (Decidable (_ → _))

/-- One step of a session: validate, then record. -/
def receiveChecked (s : ConsumerStats) (r : Receipt) : Option ConsumerStats := do
  let (result, _) ← r.validator.validateChecked r.record r.nowNs
  s.recordChecked result r.bytes

end Receipt

/-- The latencies of the uncorrupted records. -/
def receiptLatencies (receipts : List Receipt) : List Int :=
  (receipts.filter fun r => uncorrupted r.record).map Receipt.latencyNs

/-! ### Where they are defined -/

theorem Receipt.limit_inRange (r : Receipt) : Signed.InRange 64 (r.nowNs + r.validator.futureToleranceNs) := by
  obtain ⟨hlow, -⟩ := Signed.inRange_64.1 r.tolerance
  have := r.now_nonneg
  exact Signed.inRange_64.2 ⟨by omega, r.now_le⟩

theorem Receipt.latency_inRange (r : Receipt) : Signed.InRange 64 r.latencyNs ↔ r.latencyNs ≤ 2 ^ 63 - 1 := by
  have hnow := r.now_nonneg
  have hstamp := (Stamp.of r.record).timestampNs.toInt_lt
  rw [Signed.inRange_64, latencyNs]
  constructor
  · exact fun h => h.2
  · intro h
    exact ⟨by omega, h⟩

theorem PacketValidator.validateChecked_of_not_trusted {v : PacketValidator} {record : List U8} (nowNs : Int)
    (h : ¬v.Trusted record) : v.validateChecked record nowNs = some (v.validate record nowNs) := by
  unfold validateChecked validate
  by_cases hshort : record.length < kHeaderSize
  · rw [if_pos hshort, if_pos hshort]
  · rw [← integrity_iff (Nat.not_lt.1 hshort)] at h
    have hcorrupted : ({ defects := v.integrity record, sequence := (readHeader record).sequence } :
        ValidationResult).corrupted = true := by
      simpa only [ValidationResult.corrupted, decide_eq_true_eq] using h
    rw [if_neg hshort, if_neg hshort]
    dsimp only
    rw [if_pos hcorrupted, if_pos hcorrupted]

theorem PacketValidator.validateChecked_of_trusted {v : PacketValidator} {record : List U8} (nowNs : Int)
    (h : v.Trusted record) : v.validateChecked record nowNs =
      if Signed.InRange 64 (nowNs - (readHeader record).timestampNs.toInt) ∧
          Signed.InRange 64 (nowNs + v.futureToleranceNs) then some (v.validate record nowNs)
      else none := by
  have hzero : (0 : U32) ||| v.continuity (readHeader record) nowNs = v.continuity (readHeader record) nowNs :=
    BitVec.zero_or
  rw [validate_of_trusted h, validateChecked, if_neg (Nat.not_lt.2 h.length)]
  dsimp only
  rw [integrity_of_trusted h, if_neg (by simp [ValidationResult.corrupted]), hzero, Signed.sub, Signed.add,
    Signed.checked, Signed.checked]
  by_cases hlatency : Signed.InRange 64 (nowNs - (readHeader record).timestampNs.toInt)
  · by_cases hlimit : Signed.InRange 64 (nowNs + v.futureToleranceNs)
    · simp [hlatency, hlimit]
    · simp [hlatency, hlimit]
  · simp [hlatency]

/-- A call of `validate` is defined exactly on records that are recent, and then it is the exact one. -/
theorem Receipt.validateChecked_eq (r : Receipt) : r.validator.validateChecked r.record r.nowNs =
    if r.Recent then some (r.validator.validate r.record r.nowNs) else none := by
  by_cases hu : uncorrupted r.record = true
  · have htrusted := (PacketValidator.uncorrupted_iff r.validator).1 hu
    have hiff : Signed.InRange 64 (r.nowNs - (readHeader r.record).timestampNs.toInt) ∧
        Signed.InRange 64 (r.nowNs + r.validator.futureToleranceNs) ↔ r.Recent :=
      ⟨fun hand _ => r.latency_inRange.1 hand.1, fun hrecent => ⟨r.latency_inRange.2 (hrecent hu), r.limit_inRange⟩⟩
    rw [PacketValidator.validateChecked_of_trusted _ htrusted]
    simp only [hiff]
  · rw [PacketValidator.validateChecked_of_not_trusted _ fun ht => hu ((PacketValidator.uncorrupted_iff _).2 ht),
      if_pos]
    exact fun h => absurd h hu

theorem ConsumerStats.recordChecked_eq (s : ConsumerStats) (result : ValidationResult) (bytes : U64) :
    s.recordChecked result bytes =
      if result.corrupted = false → Signed.InRange 64 (s.latency.sumNs + result.latencyNs) then
        some (s.record result bytes)
      else none := by
  unfold recordChecked
  by_cases hc : result.corrupted = true
  · rw [if_pos hc, if_pos fun h => absurd hc (by rw [h]; exact Bool.false_ne_true)]
  · have hf : result.corrupted = false := Bool.eq_false_iff.2 hc
    have hrecord : s.record result bytes = { s.record result bytes with latency := s.latency.add result.latencyNs } := by
      simp only [record, if_neg hc]
    rw [if_neg hc, LatencySample.addChecked, Signed.add, Signed.checked]
    by_cases hr : Signed.InRange 64 (s.latency.sumNs + result.latencyNs)
    · rw [if_pos hr, if_pos fun _ => hr, hrecord]
      rfl
    · rw [if_neg hr, if_neg fun h => hr (h hf)]
      rfl

/-! ### A whole interval -/

theorem Receipt.corrupted_eq (r : Receipt) : r.result.corrupted = !uncorrupted r.record :=
  PacketValidator.corrupted_eq _ _ _

theorem Receipt.result_latencyNs {r : Receipt} (hu : uncorrupted r.record = true) : r.result.latencyNs = r.latencyNs := by
  rw [result, PacketValidator.validate_of_trusted ((PacketValidator.uncorrupted_iff _).1 hu)]
  rfl

theorem Receipt.receiveChecked_eq (s : ConsumerStats) (r : Receipt) : receiveChecked s r =
    if r.Recent ∧ (uncorrupted r.record = true → Signed.InRange 64 (s.latency.sumNs + r.latencyNs)) then
      some (s.record r.result r.bytes)
    else none := by
  have hiff : (r.result.corrupted = false → Signed.InRange 64 (s.latency.sumNs + r.result.latencyNs)) ↔
      (uncorrupted r.record = true → Signed.InRange 64 (s.latency.sumNs + r.latencyNs)) := by
    rw [r.corrupted_eq, Bool.not_eq_false']
    exact forall_congr' fun hu => by rw [result_latencyNs hu]
  unfold receiveChecked
  rw [r.validateChecked_eq]
  by_cases hrecent : r.Recent
  · have hrecord := s.recordChecked_eq r.result r.bytes
    simp only [hiff] at hrecord
    simp only [hrecent, if_true, true_and]
    exact hrecord
  · rw [if_neg hrecent, if_neg fun hand => hrecent hand.1]
    rfl

/-- The latency sample after a record. -/
theorem Receipt.record_sum (s : ConsumerStats) (r : Receipt) : (s.record r.result r.bytes).latency.sumNs =
    if uncorrupted r.record = true then s.latency.sumNs + r.latencyNs else s.latency.sumNs := by
  simp only [ConsumerStats.record, r.corrupted_eq]
  by_cases hu : uncorrupted r.record = true
  · rw [hu, if_neg (by simp), if_pos rfl, LatencySample.add, result_latencyNs hu]
  · rw [Bool.eq_false_iff.2 hu, if_pos (by simp), if_neg Bool.false_ne_true]

theorem receiptLatencies_cons (r : Receipt) (receipts : List Receipt) : receiptLatencies (r :: receipts) =
    if uncorrupted r.record then r.latencyNs :: receiptLatencies receipts else receiptLatencies receipts := by
  rw [receiptLatencies, List.filter_cons]
  split <;> rfl

/-- A whole interval is defined exactly if its records are recent and the partial sums of their latencies fit; then it is
the exact one, and its sum is the sum of the latencies. -/
theorem Receipt.foldlM_receive (s : ConsumerStats) (receipts : List Receipt) (t : ConsumerStats) :
    receipts.foldlM receiveChecked s = some t ↔
      (∀ r ∈ receipts, r.Recent) ∧ Signed.SumsInRange 64 s.latency.sumNs (receiptLatencies receipts) ∧
        t = s.recordAll (receipts.map fun r => (r.result, r.bytes)) := by
  induction receipts generalizing s with
  | nil =>
    rw [List.foldlM_nil]
    constructor
    · intro h
      exact ⟨by simp, .nil _ _, (Option.some.inj h).symm⟩
    · rintro ⟨-, -, rfl⟩
      rfl
  | cons r receipts ih =>
    have hcons : s.recordAll ((r :: receipts).map fun r => (r.result, r.bytes)) =
        (s.record r.result r.bytes).recordAll (receipts.map fun r => (r.result, r.bytes)) := rfl
    have hsum := r.record_sum s
    rw [List.foldlM_cons, receiveChecked_eq, receiptLatencies_cons, List.forall_mem_cons, hcons]
    by_cases hstep : r.Recent ∧ (uncorrupted r.record = true → Signed.InRange 64 (s.latency.sumNs + r.latencyNs))
    · rw [if_pos hstep]
      refine (ih (s.record r.result r.bytes)).trans ?_
      rw [hsum, and_assoc, and_iff_right hstep.1]
      by_cases hu : uncorrupted r.record = true
      · rw [if_pos hu, if_pos hu, Signed.sumsInRange_cons, and_iff_right (hstep.2 hu)]
      · rw [if_neg hu, if_neg hu]
    · -- the first operation that is undefined ends the run
      rw [if_neg hstep]
      refine iff_of_false (by simp) ?_
      rintro ⟨⟨hrecent, -⟩, hsums, -⟩
      refine hstep ⟨hrecent, fun hu => ?_⟩
      rw [if_pos hu, Signed.sumsInRange_cons] at hsums
      exact hsums.1

/-- The exact sum of an interval. -/
theorem Receipt.recordAll_sum (s : ConsumerStats) (receipts : List Receipt) :
    (s.recordAll (receipts.map fun r => (r.result, r.bytes))).latency.sumNs =
      s.latency.sumNs + (receiptLatencies receipts).sum := by
  induction receipts generalizing s with
  | nil => exact (Int.add_zero _).symm
  | cons r receipts ih =>
    refine (ih (s.record r.result r.bytes)).trans ?_
    rw [r.record_sum, receiptLatencies_cons]
    split
    · rw [List.sum_cons, Int.add_assoc]
    · rfl

/-- Where no signed operation of the consumer overflows.  The limit of the timestamp check never does.  The latency of an
uncorrupted record does exactly if its timestamp lies more than `2 ^ 63 - 1` nanoseconds before the receive time.  An
interval, from one call of `take_interval` on, is free of overflow and has the sum of the latencies in its sample exactly
if all its uncorrupted records are recent and all partial sums of their latencies fit. -/
theorem signed_arithmetic_defined_iff (r : Receipt) (stats : ConsumerStats) (receipts : List Receipt) :
    Signed.InRange 64 (r.nowNs + r.validator.futureToleranceNs) ∧
    (r.validator.validateChecked r.record r.nowNs = some (r.validator.validate r.record r.nowNs) ↔
      (uncorrupted r.record = true → r.nowNs - (2 ^ 63 - 1) ≤ (Stamp.of r.record).timestampNs.toInt)) ∧
    ((∃ s, receipts.foldlM Receipt.receiveChecked stats.takeInterval.2 = some s ∧
        s.latency.sumNs = (receiptLatencies receipts).sum) ↔
      (∀ r ∈ receipts, uncorrupted r.record = true →
        r.nowNs - (2 ^ 63 - 1) ≤ (Stamp.of r.record).timestampNs.toInt) ∧
        Signed.SumsInRange 64 0 (receiptLatencies receipts)) := by
  have hrecent (r : Receipt) : r.Recent ↔
      (uncorrupted r.record = true → r.nowNs - (2 ^ 63 - 1) ≤ (Stamp.of r.record).timestampNs.toInt) := by
    refine forall_congr' fun _ => ?_
    rw [Receipt.latencyNs]
    omega
  refine ⟨r.limit_inRange, ?_, ?_⟩
  · rw [r.validateChecked_eq, ← hrecent]
    by_cases h : r.Recent
    · rw [if_pos h]
      exact iff_of_true rfl h
    · rw [if_neg h]
      exact iff_of_false (by simp) h
  · simp only [← hrecent]
    constructor
    · rintro ⟨s, hrun, -⟩
      obtain ⟨hall, hsums, -⟩ := (Receipt.foldlM_receive _ _ _).1 hrun
      exact ⟨hall, hsums⟩
    · rintro ⟨hall, hsums⟩
      refine ⟨_, (Receipt.foldlM_receive _ _ _).2 ⟨hall, hsums, rfl⟩, ?_⟩
      rw [Receipt.recordAll_sum]
      exact Int.zero_add _

/-- A packet without a payload, received at the epoch by a validator with a tolerance of one second. -/
def Receipt.stamped (timestampNs : I64) : Receipt :=
  ⟨.new ⟨false⟩ 1000000000, sealPacket (List.replicate kHeaderSize 0) 0 timestampNs .Crc32, 0, 32, by decide, by decide,
    by decide⟩

/-- The smallest timestamp overflows the latency; the latencies of two packets stamped `2 ^ 62` nanoseconds before the
epoch fit, their sum does not. -/
theorem signed_arithmetic_overflows :
    (Receipt.stamped 0x8000000000000000).validator.validateChecked (Receipt.stamped 0x8000000000000000).record
        (Receipt.stamped 0x8000000000000000).nowNs = none ∧
      (Receipt.stamped 0xC000000000000000).validator.validateChecked (Receipt.stamped 0xC000000000000000).record
        (Receipt.stamped 0xC000000000000000).nowNs ≠ none ∧
      [Receipt.stamped 0xC000000000000000, Receipt.stamped 0xC000000000000000].foldlM Receipt.receiveChecked
        ({} : ConsumerStats).takeInterval.2 = none := by
  refine ⟨?_, ?_, ?_⟩
  · exact Option.isNone_iff_eq_none.1 (by decide +kernel)
  · exact Option.isSome_iff_ne_none.1 (by decide +kernel)
  · decide +kernel

/-- Records stamped within `bound` of their receive time overflow nothing as long as `bound` times their number fits. -/
theorem Receipt.foldlM_of_bound (stats : ConsumerStats) {receipts : List Receipt} {bound : Int}
    (h : ∀ r ∈ receipts, -bound ≤ r.latencyNs ∧ r.latencyNs ≤ bound) (hone : bound ≤ 2 ^ 63 - 1)
    (hall : (receiptLatencies receipts).length * bound ≤ 2 ^ 63 - 1) :
    receipts.foldlM receiveChecked stats.takeInterval.2 =
      some (stats.takeInterval.2.recordAll (receipts.map fun r => (r.result, r.bytes))) := by
  refine (foldlM_receive _ _ _).2 ⟨fun r hr _ => Int.le_trans (h r hr).2 hone, ?_, rfl⟩
  have hbounds : ∀ n ∈ receiptLatencies receipts, -bound ≤ n ∧ n ≤ bound := by
    intro n hn
    obtain ⟨r, hr, rfl⟩ := List.mem_map.1 hn
    exact h r (List.mem_filter.1 hr).1
  exact Signed.SumsInRange.of_bound hbounds hall

end ProducerConsumer
