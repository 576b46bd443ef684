import ProducerConsumer.Packet

/-!
# The packet validator

`PacketValidator` as in `packet_validator.cpp`: the checks on the header and the checksum, then, for a record that
passes them, the sequence and timestamp checks against the last record that did.  Times are exact integers; the code
computes them in signed 64-bit arithmetic, which is defined only where the two agree.
-/

namespace ProducerConsumer

inductive Defect
  | BadMagic
  | BadVersion
  | BadHeaderSize
  | SizeMismatch
  | BadChecksum
  | SequenceGap
  | SequenceRewind
  | TimestampFuture
  | TimestampBackward
  | UnknownChecksum
deriving DecidableEq, Repr

def Defect.bit : Defect → U32
  | BadMagic => 1 <<< 0
  | BadVersion => 1 <<< 1
  | BadHeaderSize => 1 <<< 2
  | SizeMismatch => 1 <<< 3
  | BadChecksum => 1 <<< 4
  | SequenceGap => 1 <<< 5
  | SequenceRewind => 1 <<< 6
  | TimestampFuture => 1 <<< 7
  | TimestampBackward => 1 <<< 8
  | UnknownChecksum => 1 <<< 9

/-- The bit of a defect if the check found it. -/
def Defect.found (d : Defect) (b : Bool) : U32 := if b then d.bit else 0

def kCorruptionDefects : U32 :=
  Defect.BadMagic.bit ||| Defect.BadVersion.bit ||| Defect.BadHeaderSize.bit ||| Defect.SizeMismatch.bit |||
    Defect.BadChecksum.bit ||| Defect.UnknownChecksum.bit

structure ValidationResult where
  defects : U32 := 0
  sequence : U64 := 0
  missing : U64 := 0
  latencyNs : Int := 0
deriving DecidableEq, Repr

namespace ValidationResult

def has (r : ValidationResult) (d : Defect) : Bool := r.defects &&& d.bit ≠ 0

def corrupted (r : ValidationResult) : Bool := r.defects &&& kCorruptionDefects ≠ 0

def anomalous (r : ValidationResult) : Bool := r.defects &&& ~~~kCorruptionDefects ≠ 0

def clean (r : ValidationResult) : Bool := r.defects = 0

end ValidationResult

structure PacketValidator where
  checksums : ChecksumRegistry
  futureToleranceNs : Int
  hasBaseline : Bool
  expectedSequence : U64
  lastTimestampNs : Int

namespace PacketValidator

def new (checksums : ChecksumRegistry) (futureTolerance : Int) : PacketValidator :=
  ⟨checksums, futureTolerance, false, 0, 0⟩

def resync (v : PacketValidator) : PacketValidator := { v with hasBaseline := false }

/-- The checks on the header and the checksum of a record of at least `kHeaderSize` bytes. -/
def integrity (v : PacketValidator) (record : List U8) : U32 :=
  let header := readHeader record
  Defect.BadMagic.found (header.magic ≠ kPacketMagic) |||
  Defect.BadVersion.found (header.version ≠ kPacketVersion) |||
  Defect.BadHeaderSize.found (header.headerSize.toNat ≠ kHeaderSize) |||
  Defect.SizeMismatch.found (header.payloadSize.toNat ≠ record.length - kHeaderSize) |||
  match v.checksums.find header.checksumKind with
  | some checksum => Defect.BadChecksum.found (packetChecksum record checksum ≠ header.checksum)
  | none => Defect.UnknownChecksum.bit

/-- The checks against the clock and the baseline. -/
def continuity (v : PacketValidator) (header : PacketHeader) (nowNs : Int) : U32 :=
  Defect.TimestampFuture.found (header.timestampNs.toInt > nowNs + v.futureToleranceNs) |||
  (Defect.SequenceGap.found (v.hasBaseline && header.sequence > v.expectedSequence) |||
  Defect.SequenceRewind.found (v.hasBaseline && header.sequence < v.expectedSequence) |||
  Defect.TimestampBackward.found (v.hasBaseline && header.timestampNs.toInt < v.lastTimestampNs))

/-- The number of packets skipped before this one. -/
def missing (v : PacketValidator) (header : PacketHeader) : U64 :=
  if v.hasBaseline ∧ header.sequence > v.expectedSequence then header.sequence - v.expectedSequence else 0

/-- The baseline that a trusted record leaves. -/
def track (v : PacketValidator) (header : PacketHeader) : PacketValidator :=
  { v with
    hasBaseline := true
    expectedSequence := header.sequence + 1
    lastTimestampNs := header.timestampNs.toInt }

def validate (v : PacketValidator) (record : List U8) (nowNs : Int) : ValidationResult × PacketValidator :=
  if record.length < kHeaderSize then ({ defects := Defect.BadHeaderSize.bit ||| Defect.SizeMismatch.bit }, v)
  else
    let header := readHeader record
    let result : ValidationResult := { defects := v.integrity record, sequence := header.sequence }
    if result.corrupted then (result, v)
    else
      ({ result with
          defects := result.defects ||| v.continuity header nowNs
          missing := v.missing header
          latencyNs := nowNs - header.timestampNs.toInt }, v.track header)

/-! ### What a verdict means -/

/-- What the checks on the header and the checksum ask of a record. -/
structure Trusted (v : PacketValidator) (record : List U8) : Prop where
  length : kHeaderSize ≤ record.length
  magic : (readHeader record).magic = kPacketMagic
  version : (readHeader record).version = kPacketVersion
  headerSize : (readHeader record).headerSize.toNat = kHeaderSize
  payloadSize : (readHeader record).payloadSize.toNat = record.length - kHeaderSize
  checksum : ∃ c, v.checksums.find (readHeader record).checksumKind = some c ∧
    packetChecksum record c = (readHeader record).checksum

/-- The bits that `integrity` sets, by the outcomes of its checks. -/
def integrityBits (magic version headerSize size checksum unknown : Bool) : U32 :=
  Defect.BadMagic.found magic ||| Defect.BadVersion.found version ||| Defect.BadHeaderSize.found headerSize |||
    Defect.SizeMismatch.found size ||| (Defect.BadChecksum.found checksum ||| Defect.UnknownChecksum.found unknown)

/-- The bits that `continuity` sets, by the outcomes of its checks. -/
def continuityBits (future gap rewind backward : Bool) : U32 :=
  Defect.TimestampFuture.found future ||| (Defect.SequenceGap.found gap ||| Defect.SequenceRewind.found rewind |||
    Defect.TimestampBackward.found backward)

theorem integrityBits_iff : ∀ b0 b1 b2 b3 b4 b5 : Bool, integrityBits b0 b1 b2 b3 b4 b5 &&& kCorruptionDefects = 0 ↔
    b0 = false ∧ b1 = false ∧ b2 = false ∧ b3 = false ∧ b4 = false ∧ b5 = false := by
  decide

theorem continuity_eq_bits (v : PacketValidator) (header : PacketHeader) (nowNs : Int) :
    v.continuity header nowNs = continuityBits (header.timestampNs.toInt > nowNs + v.futureToleranceNs)
      (v.hasBaseline && header.sequence > v.expectedSequence) (v.hasBaseline && header.sequence < v.expectedSequence)
      (v.hasBaseline && header.timestampNs.toInt < v.lastTimestampNs) := rfl

/-- The later checks only set the other bits. -/
theorem or_continuityBits (d : U32) (b0 b1 b2 b3 : Bool) :
    (d ||| continuityBits b0 b1 b2 b3) &&& kCorruptionDefects = d &&& kCorruptionDefects := by
  have hzero : ∀ b0 b1 b2 b3 : Bool, continuityBits b0 b1 b2 b3 &&& kCorruptionDefects = 0 := by
    decide
  rw [BitVec.and_or_distrib_right, hzero]
  exact BitVec.or_zero

/-- The bits of `integrity`; a missing and a wrong checksum have one each. -/
theorem integrity_eq_bits (v : PacketValidator) (record : List U8) :
    ∃ b4 b5, v.integrity record = integrityBits ((readHeader record).magic ≠ kPacketMagic)
        ((readHeader record).version ≠ kPacketVersion) ((readHeader record).headerSize.toNat ≠ kHeaderSize)
        ((readHeader record).payloadSize.toNat ≠ record.length - kHeaderSize) b4 b5 ∧
      (b4 = false ∧ b5 = false ↔ ∃ c, v.checksums.find (readHeader record).checksumKind = some c ∧
        packetChecksum record c = (readHeader record).checksum) := by
  unfold integrity integrityBits
  dsimp only
  cases hfind : v.checksums.find (readHeader record).checksumKind with
  | none => exact ⟨false, true, congrArg₂ (· ||| ·) rfl BitVec.zero_or.symm, by simp⟩
  | some c =>
    refine ⟨decide (packetChecksum record c ≠ (readHeader record).checksum), false, ?_, by simp⟩
    exact congrArg₂ (· ||| ·) rfl BitVec.or_zero.symm

/-- On a record that is long enough, no corruption bit is set exactly if all checks succeed. -/
theorem integrity_iff {v : PacketValidator} {record : List U8} (hlen : kHeaderSize ≤ record.length) :
    v.integrity record &&& kCorruptionDefects = 0 ↔ v.Trusted record := by
  obtain ⟨b4, b5, hbits, hchecksum⟩ := v.integrity_eq_bits record
  rw [hbits, integrityBits_iff, hchecksum]
  simp only [decide_eq_false_iff_not, ne_eq, not_not]
  exact ⟨fun ⟨h1, h2, h3, h4, h5⟩ => ⟨hlen, h1, h2, h3, h4, h5⟩,
    fun h => ⟨h.magic, h.version, h.headerSize, h.payloadSize, h.checksum⟩⟩

theorem integrity_of_trusted {v : PacketValidator} {record : List U8} (h : v.Trusted record) :
    v.integrity record = 0 := by
  obtain ⟨c, hfind, hsum⟩ := h.checksum
  simp only [integrity, hfind, h.magic, h.version, h.headerSize, h.payloadSize, hsum, ne_eq, not_true_eq_false,
    decide_false]
  decide

/-- `validate` reports a record as corrupted if and only if it is not trusted. -/
theorem corrupted_iff {v : PacketValidator} {record : List U8} {nowNs : Int} :
    (v.validate record nowNs).1.corrupted = true ↔ ¬v.Trusted record := by
  unfold validate
  by_cases hshort : record.length < kHeaderSize
  · rw [if_pos hshort]
    have hbits : ({ defects := Defect.BadHeaderSize.bit ||| Defect.SizeMismatch.bit } : ValidationResult).corrupted := by
      decide
    exact iff_of_true hbits fun h => absurd h.length (Nat.not_le.2 hshort)
  · rw [if_neg hshort, ← integrity_iff (Nat.not_lt.1 hshort)]
    dsimp only
    split
    · simp only [ValidationResult.corrupted, decide_eq_true_eq]
    · simp only [ValidationResult.corrupted, continuity_eq_bits, or_continuityBits, decide_eq_true_eq]

/-- A corrupted record leaves the validator as it is. -/
theorem validate_of_not_trusted {v : PacketValidator} {record : List U8} {nowNs : Int} (h : ¬v.Trusted record) :
    (v.validate record nowNs).2 = v := by
  unfold validate
  by_cases hshort : record.length < kHeaderSize
  · rw [if_pos hshort]
  · rw [← integrity_iff (Nat.not_lt.1 hshort)] at h
    rw [if_neg hshort]
    dsimp only
    rw [if_pos]
    simpa only [ValidationResult.corrupted, decide_eq_true_eq] using h

theorem validate_of_trusted {v : PacketValidator} {record : List U8} {nowNs : Int} (h : v.Trusted record) :
    v.validate record nowNs =
      ({ defects := v.continuity (readHeader record) nowNs
         sequence := (readHeader record).sequence
         missing := v.missing (readHeader record)
         latencyNs := nowNs - (readHeader record).timestampNs.toInt }, v.track (readHeader record)) := by
  have hzero : (0 : U32) ||| v.continuity (readHeader record) nowNs = v.continuity (readHeader record) nowNs :=
    BitVec.zero_or
  rw [validate, if_neg (Nat.not_lt.2 h.length)]
  dsimp only
  rw [integrity_of_trusted h, if_neg (by simp [ValidationResult.corrupted]), hzero]

/-- Each bit about the clock and the baseline is set exactly if its check fails. -/
theorem continuity_has : ∀ b0 b1 b2 b3 : Bool,
    ({ defects := continuityBits b0 b1 b2 b3 } : ValidationResult).has .TimestampFuture = b0 ∧
    ({ defects := continuityBits b0 b1 b2 b3 } : ValidationResult).has .SequenceGap = b1 ∧
    ({ defects := continuityBits b0 b1 b2 b3 } : ValidationResult).has .SequenceRewind = b2 ∧
    ({ defects := continuityBits b0 b1 b2 b3 } : ValidationResult).has .TimestampBackward = b3 := by
  decide

/-- A trusted record whose sequence number is the expected one, if there is a baseline. -/
theorem validate_of_regular {v : PacketValidator} {record : List U8} (nowNs : Int) (h : v.Trusted record)
    (hseq : v.hasBaseline = true → v.expectedSequence = (readHeader record).sequence) :
    (v.validate record nowNs).1.corrupted = false ∧ (v.validate record nowNs).1.has .SequenceGap = false ∧
      (v.validate record nowNs).1.has .SequenceRewind = false ∧
      (v.validate record nowNs).2.expectedSequence = (readHeader record).sequence + 1 := by
  have hgap : (v.hasBaseline && decide ((readHeader record).sequence > v.expectedSequence)) = false := by
    cases hb : v.hasBaseline with
    | false => rfl
    | true => simp [hseq hb]
  have hrewind : (v.hasBaseline && decide ((readHeader record).sequence < v.expectedSequence)) = false := by
    cases hb : v.hasBaseline with
    | false => rfl
    | true => simp [hseq hb]
  refine ⟨?_, ?_, ?_, ?_⟩
  · rw [← Bool.not_eq_true, corrupted_iff, not_not]
    exact h
  · rw [validate_of_trusted h]
    exact (continuity_has _ _ _ _).2.1.trans hgap
  · rw [validate_of_trusted h]
    exact (continuity_has _ _ _ _).2.2.1.trans hrewind
  · rw [validate_of_trusted h]
    rfl

end PacketValidator

end ProducerConsumer
