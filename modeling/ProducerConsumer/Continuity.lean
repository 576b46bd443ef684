import ProducerConsumer.PacketIntegrity
import ProducerConsumer.Stats

/-!
# Verdicts and the last trusted packet

Histories of calls of a validator.  All that a validator remembers is the sequence number and the timestamp of the last
uncorrupted record since the last `resync`: a stale `expected_sequence_` or `last_timestamp_ns_` is not read before it is
set again.  So the verdict on a record is a function of that pair (`verdict_of_history`).
-/

namespace ProducerConsumer

/-! ### Histories -/

inductive ValidatorCall
  | validate (record : List U8) (nowNs : Int)
  | resync
deriving DecidableEq

/-- What is remembered of an uncorrupted record. -/
structure Stamp where
  sequence : U64
  timestampNs : I64
deriving DecidableEq, Repr

def Stamp.of (record : List U8) : Stamp := ⟨(readHeader record).sequence, (readHeader record).timestampNs⟩

/-- A record that passes the checks on the header and the checksum, which no validator's state enters. -/
def uncorrupted (record : List U8) : Bool := !((PacketValidator.new ⟨false⟩ 0).validate record 0).1.corrupted

/-- The stamps of the uncorrupted records since the last resync, one call later. -/
def ValidatorCall.note (stamps : List Stamp) : ValidatorCall → List Stamp
  | .validate record _ => if uncorrupted record then stamps ++ [.of record] else stamps
  | .resync => []

def stampsSince (stamps : List Stamp) (history : List ValidatorCall) : List Stamp := history.foldl ValidatorCall.note stamps

/-- The most recent uncorrupted record since the last resync. -/
def lastTrusted (history : List ValidatorCall) : Option Stamp := (stampsSince [] history).getLast?

namespace PacketValidator

def call (v : PacketValidator) : ValidatorCall → PacketValidator
  | .validate record nowNs => (v.validate record nowNs).2
  | .resync => v.resync

def calls (v : PacketValidator) (history : List ValidatorCall) : PacketValidator := history.foldl call v

/-- The results of the calls of `validate`. -/
def verdicts (v : PacketValidator) : List ValidatorCall → List ValidationResult
  | [] => []
  | .validate record nowNs :: history => (v.validate record nowNs).1 :: (v.validate record nowNs).2.verdicts history
  | .resync :: history => v.resync.verdicts history

/-- A validator that remembers `last`. -/
def remembering (futureToleranceNs : Int) : Option Stamp → PacketValidator
  | some s => ⟨⟨false⟩, futureToleranceNs, true, s.sequence + 1, s.timestampNs.toInt⟩
  | none => .new ⟨false⟩ futureToleranceNs

/-- The verdict on a record by what is remembered. -/
def verdict (record : List U8) (nowNs futureToleranceNs : Int) (last : Option Stamp) : ValidationResult :=
  ((remembering futureToleranceNs last).validate record nowNs).1

/-! ### What a validator remembers -/

/-- Whether a record is trusted is no matter of the validator's state, nor of the path of its CRC-32C. -/
theorem Trusted.congr {v w : PacketValidator} {record : List U8} (h : v.Trusted record) : w.Trusted record := by
  obtain ⟨c, hfind, hsum⟩ := h.checksum
  obtain ⟨c', hfind', hkind⟩ := w.checksums.find_kind c
  rw [ChecksumRegistry.kind_of_find hfind] at hfind'
  refine ⟨h.length, h.magic, h.version, h.headerSize, h.payloadSize, c', hfind', ?_⟩
  rw [packetChecksum_congr hkind h.length, hsum]

theorem uncorrupted_iff (v : PacketValidator) {record : List U8} : uncorrupted record = true ↔ v.Trusted record := by
  rw [uncorrupted, Bool.not_eq_true', ← Bool.not_eq_true, corrupted_iff, not_not]
  exact ⟨.congr, .congr⟩

theorem corrupted_eq (v : PacketValidator) (record : List U8) (nowNs : Int) :
    (v.validate record nowNs).1.corrupted = !uncorrupted record := by
  rw [Bool.eq_iff_iff, corrupted_iff, ← uncorrupted_iff, Bool.not_eq_true, Bool.not_eq_true']

/-- The state of a validator that agrees with what it ought to remember; without a baseline the rest may be anything. -/
structure Remembers (v : PacketValidator) (last : Option Stamp) : Prop where
  hasBaseline : v.hasBaseline = last.isSome
  expectedSequence : ∀ s, last = some s → v.expectedSequence = s.sequence + 1
  lastTimestampNs : ∀ s, last = some s → v.lastTimestampNs = s.timestampNs.toInt

theorem remembering_remembers (futureToleranceNs : Int) (last : Option Stamp) :
    (remembering futureToleranceNs last).Remembers last := by
  cases last with
  | none => exact ⟨rfl, by simp, by simp⟩
  | some s =>
    refine ⟨rfl, ?_, ?_⟩
    · rintro _ ⟨⟩
      rfl
    · rintro _ ⟨⟩
      rfl

theorem integrity_eq (v w : PacketValidator) {record : List U8} (hlen : kHeaderSize ≤ record.length) :
    v.integrity record = w.integrity record := by
  unfold integrity
  dsimp only
  refine congrArg _ ?_
  -- both registries know the same kinds
  unfold ChecksumRegistry.find
  by_cases h1 : (readHeader record).checksumKind = 1
  · rw [if_pos h1, if_pos h1]
  · by_cases h2 : (readHeader record).checksumKind = 2
    · rw [if_neg h1, if_neg h1, if_pos h2, if_pos h2]
      have hkind : (Checksum.Crc32c v.checksums.hardware).kind = (Checksum.Crc32c w.checksums.hardware).kind := rfl
      simp only [packetChecksum_congr hkind hlen]
    · rw [if_neg h1, if_neg h1, if_neg h2, if_neg h2]

/-- Validators that remember the same find the same discontinuities. -/
theorem Remembers.continuity_eq {v w : PacketValidator} {last : Option Stamp} (hv : v.Remembers last)
    (hw : w.Remembers last) (htol : v.futureToleranceNs = w.futureToleranceNs) (header : PacketHeader) (nowNs : Int) :
    v.continuity header nowNs = w.continuity header nowNs ∧ v.missing header = w.missing header := by
  unfold continuity missing
  rw [hv.hasBaseline, hw.hasBaseline, htol]
  cases last with
  | none => simp
  | some s =>
    rw [hv.expectedSequence s rfl, hw.expectedSequence s rfl, hv.lastTimestampNs s rfl, hw.lastTimestampNs s rfl]
    exact ⟨rfl, rfl⟩

theorem Remembers.validate_eq {v w : PacketValidator} {last : Option Stamp} (hv : v.Remembers last)
    (hw : w.Remembers last) (htol : v.futureToleranceNs = w.futureToleranceNs) (record : List U8) (nowNs : Int) :
    (v.validate record nowNs).1 = (w.validate record nowNs).1 := by
  by_cases hlen : record.length < kHeaderSize
  · rw [validate, validate, if_pos hlen, if_pos hlen]
  · obtain ⟨hcontinuity, hmissing⟩ := hv.continuity_eq hw htol (readHeader record) nowNs
    unfold validate
    rw [if_neg hlen, if_neg hlen]
    dsimp only
    rw [integrity_eq v w (Nat.not_lt.1 hlen), hcontinuity, hmissing]
    split <;> rfl

/-- A call of `validate` leaves the stamp of an uncorrupted record, and nothing of a corrupted one. -/
theorem Remembers.validate {v : PacketValidator} {last : Option Stamp} (h : v.Remembers last) (record : List U8)
    (nowNs : Int) :
    (v.validate record nowNs).2.Remembers (if uncorrupted record then some (.of record) else last) ∧
      (v.validate record nowNs).2.futureToleranceNs = v.futureToleranceNs := by
  by_cases hu : uncorrupted record = true
  · rw [if_pos hu, validate_of_trusted ((uncorrupted_iff v).1 hu)]
    refine ⟨⟨rfl, ?_, ?_⟩, rfl⟩
    · rintro _ ⟨⟩
      rfl
    · rintro _ ⟨⟩
      rfl
  · rw [if_neg hu, validate_of_not_trusted fun ht => hu ((uncorrupted_iff v).2 ht)]
    exact ⟨h, rfl⟩

/-- One call leaves in the validator what the history with that call says. -/
theorem Remembers.call {v : PacketValidator} {stamps : List Stamp} (h : v.Remembers stamps.getLast?) (c : ValidatorCall) :
    (v.call c).Remembers (c.note stamps).getLast? ∧ (v.call c).futureToleranceNs = v.futureToleranceNs := by
  cases c with
  | resync => exact ⟨⟨rfl, by simp [ValidatorCall.note], by simp [ValidatorCall.note]⟩, rfl⟩
  | validate record nowNs =>
    have hlast : ((ValidatorCall.validate record nowNs).note stamps).getLast? =
        if uncorrupted record then some (.of record) else stamps.getLast? := by
      simp only [ValidatorCall.note]
      split
      · rw [List.getLast?_concat]
      · rfl
    rw [hlast]
    exact h.validate record nowNs

theorem Remembers.calls {v : PacketValidator} {stamps : List Stamp} (h : v.Remembers stamps.getLast?)
    (history : List ValidatorCall) : (v.calls history).Remembers (stampsSince stamps history).getLast? ∧
      (v.calls history).futureToleranceNs = v.futureToleranceNs := by
  induction history generalizing v stamps with
  | nil => exact ⟨h, rfl⟩
  | cons c history ih =>
    obtain ⟨hcall, htol⟩ := h.call c
    obtain ⟨hrest, htol'⟩ := ih hcall
    exact ⟨hrest, htol'.trans htol⟩

/-- From validators that remember the same, later calls have the same results. -/
theorem Remembers.verdicts_eq {v w : PacketValidator} {stamps : List Stamp} (hv : v.Remembers stamps.getLast?)
    (hw : w.Remembers stamps.getLast?) (htol : v.futureToleranceNs = w.futureToleranceNs)
    (history : List ValidatorCall) : v.verdicts history = w.verdicts history := by
  induction history generalizing v w stamps with
  | nil => rfl
  | cons c history ih =>
    obtain ⟨hv', htolv⟩ := hv.call c
    obtain ⟨hw', htolw⟩ := hw.call c
    have hrest := ih hv' hw' (htolv.trans (htol.trans htolw.symm))
    cases c with
    | validate record nowNs =>
      rw [verdicts, verdicts, hv.validate_eq hw htol]
      exact congrArg _ hrest
    | resync => exact hrest

theorem new_remembers (checksums : ChecksumRegistry) (futureToleranceNs : Int) :
    (new checksums futureToleranceNs).Remembers ([] : List Stamp).getLast? := ⟨rfl, by simp, by simp⟩

/-! ### What a verdict says -/

/-- The corruption bits are none of those about the clock and the baseline. -/
theorem integrity_has {d : Defect} (hd : d.bit &&& kCorruptionDefects = 0) : ∀ b0 b1 b2 b3 b4 b5 : Bool,
    ({ defects := integrityBits b0 b1 b2 b3 b4 b5 } : ValidationResult).has d = false := by
  cases d <;> first | decide | exact absurd hd (by decide)

/-- On a corrupted record nothing is reported about the clock and the baseline. -/
theorem validate_of_corrupted (v : PacketValidator) {record : List U8} (hu : ¬uncorrupted record = true) (nowNs : Int) :
    (v.validate record nowNs).1.missing = 0 ∧
      ∀ d : Defect, d.bit &&& kCorruptionDefects = 0 → (v.validate record nowNs).1.has d = false := by
  have hcorrupted : (v.validate record nowNs).1.corrupted = true :=
    corrupted_iff.2 fun ht => hu ((uncorrupted_iff v).2 ht)
  unfold validate at hcorrupted ⊢
  by_cases hshort : record.length < kHeaderSize
  · rw [if_pos hshort]
    have hbits : ∀ d : Defect, d.bit &&& kCorruptionDefects = 0 →
        ({ defects := Defect.BadHeaderSize.bit ||| Defect.SizeMismatch.bit } : ValidationResult).has d = false := by
      intro d
      cases d <;> decide
    exact ⟨rfl, hbits⟩
  · rw [if_neg hshort] at hcorrupted ⊢
    dsimp only at hcorrupted ⊢
    split
    · refine ⟨rfl, fun d hd => ?_⟩
      obtain ⟨b4, b5, hbits, -⟩ := v.integrity_eq_bits record
      rw [ValidationResult.has, hbits]
      exact integrity_has hd _ _ _ _ _ _
    · rename_i hclean
      rw [if_neg hclean] at hcorrupted
      simp only [ValidationResult.corrupted, continuity_eq_bits, or_continuityBits] at hcorrupted hclean
      exact absurd hcorrupted hclean

/-- What a result reports about a record, by the last trusted packet.  The sequence number after `2 ^ 64 - 1` is `0`, so
for that one the code has no successor to compare with. -/
structure Reports (record : List U8) (nowNs futureToleranceNs : Int) (last : Option Stamp) (result : ValidationResult) :
    Prop where
  future : result.has .TimestampFuture = true ↔
    uncorrupted record = true ∧ nowNs + futureToleranceNs < (Stamp.of record).timestampNs.toInt
  backward : result.has .TimestampBackward = true ↔
    uncorrupted record = true ∧ ∃ s, last = some s ∧ (Stamp.of record).timestampNs.toInt < s.timestampNs.toInt
  none : last = none → result.has .SequenceGap = false ∧ result.has .SequenceRewind = false ∧ result.missing = 0
  gap : ∀ s, last = some s → s.sequence.toNat < 2 ^ 64 - 1 → (result.has .SequenceGap = true ↔
    uncorrupted record = true ∧ s.sequence.toNat + 1 < (Stamp.of record).sequence.toNat)
  rewind : ∀ s, last = some s → s.sequence.toNat < 2 ^ 64 - 1 → (result.has .SequenceRewind = true ↔
    uncorrupted record = true ∧ (Stamp.of record).sequence.toNat ≤ s.sequence.toNat)
  missing : ∀ s, last = some s → s.sequence.toNat < 2 ^ 64 - 1 → result.missing.toNat =
    if result.has .SequenceGap = true then (Stamp.of record).sequence.toNat - s.sequence.toNat - 1 else 0

/-- The bits that the checks against the clock and the baseline set. -/
theorem has_of_trusted {v : PacketValidator} {record : List U8} (h : v.Trusted record) (nowNs : Int) :
    ((v.validate record nowNs).1.has .TimestampFuture = true ↔
      nowNs + v.futureToleranceNs < (readHeader record).timestampNs.toInt) ∧
    ((v.validate record nowNs).1.has .SequenceGap = true ↔
      v.hasBaseline = true ∧ v.expectedSequence < (readHeader record).sequence) ∧
    ((v.validate record nowNs).1.has .SequenceRewind = true ↔
      v.hasBaseline = true ∧ (readHeader record).sequence < v.expectedSequence) ∧
    ((v.validate record nowNs).1.has .TimestampBackward = true ↔
      v.hasBaseline = true ∧ (readHeader record).timestampNs.toInt < v.lastTimestampNs) := by
  obtain ⟨hfuture, hgap, hrewind, hbackward⟩ := continuity_has
    (decide ((readHeader record).timestampNs.toInt > nowNs + v.futureToleranceNs))
    (v.hasBaseline && decide ((readHeader record).sequence > v.expectedSequence))
    (v.hasBaseline && decide ((readHeader record).sequence < v.expectedSequence))
    (v.hasBaseline && decide ((readHeader record).timestampNs.toInt < v.lastTimestampNs))
  rw [validate_of_trusted h]
  refine ⟨(Bool.eq_iff_iff.1 hfuture).trans ?_, (Bool.eq_iff_iff.1 hgap).trans ?_,
    (Bool.eq_iff_iff.1 hrewind).trans ?_, (Bool.eq_iff_iff.1 hbackward).trans ?_⟩ <;> simp

theorem Remembers.reports {v : PacketValidator} {last : Option Stamp} (h : v.Remembers last) (record : List U8)
    (nowNs : Int) : Reports record nowNs v.futureToleranceNs last (v.validate record nowNs).1 := by
  by_cases hu : uncorrupted record = true
  · have htrusted := (uncorrupted_iff v).1 hu
    obtain ⟨hfuture, hgap, hrewind, hbackward⟩ := has_of_trusted htrusted nowNs
    -- the expected sequence number does not wrap
    have hnext (s : Stamp) (hs : last = some s) (hlt : s.sequence.toNat < 2 ^ 64 - 1) :
        v.hasBaseline = true ∧ v.expectedSequence.toNat = s.sequence.toNat + 1 := by
      refine ⟨by rw [h.hasBaseline, hs]; rfl, ?_⟩
      rw [h.expectedSequence s hs, BitVec.toNat_add]
      simp only [BitVec.ofNat_eq_ofNat, BitVec.toNat_ofNat]
      omega
    have hmissing : (v.validate record nowNs).1.missing = v.missing (readHeader record) := by
      rw [validate_of_trusted htrusted]
    refine ⟨?_, ?_, fun hnone => ?_, fun s hs hlt => ?_, fun s hs hlt => ?_, fun s hs hlt => ?_⟩
    · rw [hfuture]
      exact (and_iff_right hu).symm
    · rw [hbackward, h.hasBaseline]
      constructor
      · rintro ⟨hsome, hlt⟩
        obtain ⟨s, hs⟩ := Option.isSome_iff_exists.1 hsome
        rw [h.lastTimestampNs s hs] at hlt
        exact ⟨hu, s, hs, hlt⟩
      · rintro ⟨-, s, hs, hlt⟩
        rw [h.lastTimestampNs s hs, hs]
        exact ⟨rfl, hlt⟩
    · have hbase : ¬v.hasBaseline = true := by
        rw [h.hasBaseline, hnone]
        simp
      refine ⟨Bool.eq_false_iff.2 fun hg => hbase (hgap.1 hg).1, Bool.eq_false_iff.2 fun hr => hbase (hrewind.1 hr).1, ?_⟩
      rw [hmissing, PacketValidator.missing, if_neg fun hg => hbase hg.1]
    · obtain ⟨hbase, hexpected⟩ := hnext s hs hlt
      rw [hgap, and_iff_right hbase, and_iff_right hu, BitVec.lt_def, hexpected]
      exact Iff.rfl
    · obtain ⟨hbase, hexpected⟩ := hnext s hs hlt
      rw [hrewind, and_iff_right hbase, and_iff_right hu, BitVec.lt_def, hexpected]
      exact Nat.lt_succ_iff
    · obtain ⟨hbase, hexpected⟩ := hnext s hs hlt
      rw [hmissing, PacketValidator.missing]
      by_cases hahead : v.hasBaseline = true ∧ (readHeader record).sequence > v.expectedSequence
      · rw [if_pos hahead, if_pos (hgap.2 hahead), BitVec.toNat_sub_of_le (BitVec.le_of_lt hahead.2), hexpected]
        exact Nat.sub_add_eq _ _ _
      · rw [if_neg hahead, if_neg fun hg => hahead (hgap.1 hg)]
        rfl
  · obtain ⟨hmissing, hnot⟩ := v.validate_of_corrupted hu nowNs
    have hfuture := hnot .TimestampFuture (by decide)
    have hbackward := hnot .TimestampBackward (by decide)
    have hgap := hnot .SequenceGap (by decide)
    have hrewind := hnot .SequenceRewind (by decide)
    constructor <;> simp [hfuture, hbackward, hgap, hrewind, hmissing, hu]

end PacketValidator

/-- A verdict depends on the record, the clock, the tolerance and the last trusted packet and on nothing else of the
history; it reports what `Reports` says.  So a corrupted record changes no later verdict, wherever it stands or stood,
and neither does the traffic before a resync. -/
theorem verdict_of_history (checksums : ChecksumRegistry) (futureToleranceNs : Int) (history : List ValidatorCall) :
    (∀ record nowNs, (((PacketValidator.new checksums futureToleranceNs).calls history).validate record nowNs).1 =
      PacketValidator.verdict record nowNs futureToleranceNs (lastTrusted history)) ∧
    (∀ record nowNs last, PacketValidator.Reports record nowNs futureToleranceNs last
      (PacketValidator.verdict record nowNs futureToleranceNs last)) ∧
    (∀ record nowNs later, uncorrupted record = false →
      ((PacketValidator.new checksums futureToleranceNs).calls (history ++ [.validate record nowNs])).verdicts later =
        ((PacketValidator.new checksums futureToleranceNs).calls history).verdicts later) ∧
    ∀ history' later,
      ((PacketValidator.new checksums futureToleranceNs).calls (history ++ [.resync])).verdicts later =
        ((PacketValidator.new checksums futureToleranceNs).calls (history' ++ [.resync])).verdicts later := by
  have hcalls (history : List ValidatorCall) :=
    (PacketValidator.new_remembers checksums futureToleranceNs).calls history
  refine ⟨fun record nowNs => ?_, fun record nowNs last => ?_, fun record nowNs later hu => ?_, fun history' later => ?_⟩
  · obtain ⟨hremembers, htol⟩ := hcalls history
    refine hremembers.validate_eq (PacketValidator.remembering_remembers futureToleranceNs _) ?_ record nowNs
    rw [htol]
    cases (stampsSince [] history).getLast? <;> rfl
  · have hreports := (PacketValidator.remembering_remembers futureToleranceNs last).reports record nowNs
    have htol : (PacketValidator.remembering futureToleranceNs last).futureToleranceNs = futureToleranceNs := by
      cases last <;> rfl
    rwa [htol] at hreports
  · obtain ⟨hremembers, htol⟩ := hcalls (history ++ [.validate record nowNs])
    have hsame : stampsSince [] (history ++ [.validate record nowNs]) = stampsSince [] history := by
      rw [stampsSince, List.foldl_append]
      simp [ValidatorCall.note, hu, stampsSince]
    rw [hsame] at hremembers
    exact hremembers.verdicts_eq (hcalls history).1 (htol.trans (hcalls history).2.symm) later
  · obtain ⟨hremembers, htol⟩ := hcalls (history ++ [.resync])
    obtain ⟨hremembers', htol'⟩ := hcalls (history' ++ [.resync])
    have hnone (history : List ValidatorCall) : stampsSince [] (history ++ [.resync]) = [] := by
      rw [stampsSince, List.foldl_append]
      rfl
    rw [hnone] at hremembers hremembers'
    exact hremembers.verdicts_eq hremembers' (htol.trans htol'.symm) later

end ProducerConsumer
