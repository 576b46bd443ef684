import ProducerConsumer.Validator

/-!
# What the validator accepts

The validator reports a record as uncorrupted exactly if it is what `seal_packet` makes of its own payload
(`validate_iff_sealed`), and it detects every alteration of a sealed record that is confined to four consecutive bytes
other than the checksum kind and the checksum, to the checksum, or to one bit (`altered_packet_detected`).
-/

namespace ProducerConsumer

/-! ### Sealed records -/

theorem newHeader_payloadSize {size : Nat} (hsize : size - kHeaderSize < 2 ^ 32) (sequence : U64) (timestampNs : I64)
    (kind : U8) : (newHeader size sequence timestampNs kind).payloadSize.toNat = size - kHeaderSize := by
  rw [newHeader, BitVec.toNat_ofNat, Nat.mod_eq_of_lt hsize]

theorem readHeader_sealPacket (record : List U8) (sequence : U64) (timestampNs : I64) (c : Checksum) :
    readHeader (sealPacket record sequence timestampNs c) =
      { newHeader record.length sequence timestampNs c.kind with
        checksum := c.compute
          ((newHeader record.length sequence timestampNs c.kind).toBytes ++ record.drop kHeaderSize) } := by
  rw [sealPacket_eq, readHeader_append]

theorem drop_sealPacket (record : List U8) (sequence : U64) (timestampNs : I64) (c : Checksum) :
    (sealPacket record sequence timestampNs c).drop kHeaderSize = record.drop kHeaderSize := by
  rw [sealPacket_eq, List.drop_left' (PacketHeader.length_toBytes _)]

/-- The checksum in a sealed record is the one that `packet_checksum` recomputes. -/
theorem packetChecksum_sealPacket {record : List U8} (h : kHeaderSize ≤ record.length) (sequence : U64)
    (timestampNs : I64) (c : Checksum) :
    packetChecksum (sealPacket record sequence timestampNs c) c =
      (readHeader (sealPacket record sequence timestampNs c)).checksum := by
  rw [packetChecksum_eq (by rw [length_sealPacket h]; exact h), readHeader_sealPacket, sealPacket_eq,
    patchChecksum_append]
  rfl

theorem packetChecksum_congr {c c' : Checksum} (h : c.kind = c'.kind) {record : List U8}
    (hlen : kHeaderSize ≤ record.length) : packetChecksum record c = packetChecksum record c' := by
  rw [packetChecksum_eq hlen, packetChecksum_eq hlen, Checksum.compute_congr h]

/-- A sealed record passes the checks of every validator. -/
theorem PacketValidator.trusted_sealPacket (v : PacketValidator) {record : List U8} (h : kHeaderSize ≤ record.length)
    (hsize : record.length - kHeaderSize < 2 ^ 32) (sequence : U64) (timestampNs : I64) (c : Checksum) :
    v.Trusted (sealPacket record sequence timestampNs c) := by
  have hlen := length_sealPacket h sequence timestampNs c
  have hheader := readHeader_sealPacket record sequence timestampNs c
  obtain ⟨c', hfind, hkind⟩ := v.checksums.find_kind c
  refine ⟨by rw [hlen]; exact h, by rw [hheader]; rfl, by rw [hheader]; rfl, by rw [hheader]; rfl, ?_, c', ?_, ?_⟩
  · rw [hheader, hlen]
    exact newHeader_payloadSize hsize sequence timestampNs c.kind
  · rw [hheader]
    exact hfind
  · rw [packetChecksum_congr hkind (by rw [hlen]; exact h), packetChecksum_sealPacket h]

/-- Every byte of the header of a trusted record is determined by its sequence, timestamp, kind and payload. -/
theorem PacketValidator.Trusted.sealed {v : PacketValidator} {record : List U8} (h : v.Trusted record) {c : Checksum}
    (hkind : c.kind = (readHeader record).checksumKind) {buffer : List U8} (hlen : buffer.length = record.length)
    (hpayload : buffer.drop kHeaderSize = record.drop kHeaderSize) :
    sealPacket buffer (readHeader record).sequence (readHeader record).timestampNs c = record := by
  obtain ⟨c', hfind, hsum⟩ := h.checksum
  have hfields : newHeader record.length (readHeader record).sequence (readHeader record).timestampNs c.kind =
      { readHeader record with checksum := 0 } := by
    refine PacketHeader.ext h.magic.symm h.version.symm hkind ?_ ?_ rfl rfl rfl
    · apply BitVec.eq_of_toNat_eq
      rw [h.headerSize]
      rfl
    · apply BitVec.eq_of_toNat_eq
      rw [h.payloadSize]
      exact newHeader_payloadSize (by rw [← h.payloadSize]; exact (readHeader record).payloadSize.isLt) _ _ _
  have hcompute : c.compute ({ readHeader record with checksum := 0 }.toBytes ++ record.drop kHeaderSize) =
      (readHeader record).checksum := by
    have hkinds : c.kind = c'.kind := hkind.trans (ChecksumRegistry.kind_of_find hfind).symm
    rw [← hsum, ← packetChecksum_congr hkinds h.length, packetChecksum_eq h.length]
    conv => rhs; rw [← record_eq h.length, patchChecksum_append]
  rw [sealPacket_eq, hlen, hpayload, hfields, hcompute]
  exact record_eq h.length

/-- The validator accepts exactly what the sealer produces: a sealed record keeps its payload, gives back its metadata
and is not reported corrupted by any validator; a record that is not reported corrupted is what sealing its own payload
with its own sequence, timestamp and checksum kind makes of any buffer that holds the payload. -/
theorem validate_iff_sealed :
    (∀ (v : PacketValidator) (old payload : List U8) (sequence : U64) (timestampNs : I64) (c : Checksum) (nowNs : Int),
      old.length = kHeaderSize → payload.length ≤ 2 ^ 32 - 1 - 32 →
        (sealPacket (old ++ payload) sequence timestampNs c).drop kHeaderSize = payload ∧
        (readHeader (sealPacket (old ++ payload) sequence timestampNs c)).sequence = sequence ∧
        (readHeader (sealPacket (old ++ payload) sequence timestampNs c)).timestampNs = timestampNs ∧
        (readHeader (sealPacket (old ++ payload) sequence timestampNs c)).checksumKind = c.kind ∧
        (readHeader (sealPacket (old ++ payload) sequence timestampNs c)).payloadSize.toNat = payload.length ∧
        (v.validate (sealPacket (old ++ payload) sequence timestampNs c) nowNs).1.corrupted = false) ∧
    (∀ (v : PacketValidator) (record : List U8) (nowNs : Int), (v.validate record nowNs).1.corrupted = false →
      kHeaderSize ≤ record.length ∧ (∃ c : Checksum, c.kind = (readHeader record).checksumKind) ∧
      ∀ (old : List U8) (c : Checksum), old.length = kHeaderSize → c.kind = (readHeader record).checksumKind →
        sealPacket (old ++ record.drop kHeaderSize) (readHeader record).sequence (readHeader record).timestampNs c =
          record) := by
  constructor
  · intro v old payload sequence timestampNs c nowNs hold hpayload
    have hlen : (old ++ payload).length = kHeaderSize + payload.length := by rw [List.length_append, hold]
    have hle : kHeaderSize ≤ (old ++ payload).length := by omega
    have hsize : (old ++ payload).length - kHeaderSize < 2 ^ 32 := by omega
    have hheader := readHeader_sealPacket (old ++ payload) sequence timestampNs c
    refine ⟨?_, by rw [hheader]; rfl, by rw [hheader]; rfl, by rw [hheader]; rfl, ?_, ?_⟩
    · rw [drop_sealPacket, List.drop_left' hold]
    · rw [hheader, newHeader_payloadSize hsize]
      omega
    · rw [← Bool.not_eq_true, PacketValidator.corrupted_iff, not_not]
      exact v.trusted_sealPacket hle hsize sequence timestampNs c
  · intro v record nowNs h
    rw [← Bool.not_eq_true, PacketValidator.corrupted_iff, not_not] at h
    obtain ⟨c, hfind, -⟩ := h.checksum
    refine ⟨h.length, ⟨c, ChecksumRegistry.kind_of_find hfind⟩, ?_⟩
    intro old c hold hkind
    have hlen : (old ++ record.drop kHeaderSize).length = record.length := by
      have := h.length
      rw [List.length_append, List.length_drop]
      omega
    exact h.sealed hkind hlen (List.drop_left' hold)

theorem validate_iff_sealed_crc32 :
    let record := sealPacket (List.replicate 32 0 ++ [7]) 3 4 .Crc32
    ((PacketValidator.new ⟨true⟩ 0).validate record 9).1.corrupted = false ∧
      sealPacket (List.replicate 32 1 ++ record.drop kHeaderSize) (readHeader record).sequence
        (readHeader record).timestampNs .Crc32 = record := by
  have h := validate_iff_sealed.1 (.new ⟨true⟩ 0) (List.replicate 32 0) [7] 3 4 .Crc32 9 rfl (by decide)
  exact ⟨h.2.2.2.2.2, (validate_iff_sealed.2 _ _ _ h.2.2.2.2.2).2.2 _ .Crc32 rfl h.2.2.2.1.symm⟩

/-! ### Altered records -/

/-- `offsetof(PacketHeader, checksum_kind)`. -/
def kChecksumKindOffset : Nat := 5

/-- The alterations that are always detected, for a record altered at the same length. -/
inductive Alteration (record altered : List U8) : Prop
  | burst (k : Nat) :
      (∀ i, record[i]? ≠ altered[i]? → k ≤ i ∧ i < k + 4 ∧ i ≠ kChecksumKindOffset ∧
        ¬(kChecksumOffset ≤ i ∧ i < kChecksumOffset + 4)) → Alteration record altered
  | checksumField :
      (∀ i, record[i]? ≠ altered[i]? → kChecksumOffset ≤ i ∧ i < kChecksumOffset + 4) → Alteration record altered
  | bitFlip (i : Nat) (bit : Fin 8) :
      altered = record.modify i (· ^^^ BitVec.twoPow 8 bit) → Alteration record altered

@[simp] theorem length_patchChecksum {record : List U8} (h : kHeaderSize ≤ record.length) (checksum : U32) :
    (patchChecksum record checksum).length = record.length := by
  rw [kHeaderSize] at h
  rw [patchChecksum, length_overwrite]
  rw [length_fieldBytes, kChecksumOffset]
  omega

/-- Outside the checksum field, records with the same checksum patched in differ only where they did before. -/
theorem getElem?_patchChecksum_congr {record altered : List U8} (h : kHeaderSize ≤ record.length)
    (hlen : altered.length = record.length) (checksum : U32) {i : Nat}
    (hi : ¬(kChecksumOffset ≤ i ∧ i < kChecksumOffset + 4) → altered[i]? = record[i]?) :
    (patchChecksum altered checksum)[i]? = (patchChecksum record checksum)[i]? := by
  rw [kHeaderSize] at h
  have hroom : kChecksumOffset + (fieldBytes 4 checksum).length ≤ record.length := by
    rw [length_fieldBytes, kChecksumOffset]
    omega
  rw [patchChecksum, patchChecksum, getElem?_overwrite hroom, getElem?_overwrite (by rw [hlen]; exact hroom),
    length_fieldBytes]
  split
  · rfl
  · exact hi (by assumption)

/-- Two records with the same header checksum that are equal once it is cleared are equal. -/
theorem eq_of_patchChecksum {record altered : List U8} (h : kHeaderSize ≤ record.length)
    (hlen : altered.length = record.length) (hpatch : patchChecksum altered 0 = patchChecksum record 0)
    (hsum : (readHeader altered).checksum = (readHeader record).checksum) : altered = record := by
  have hpatched (r : List U8) (hr : kHeaderSize ≤ r.length) :
      patchChecksum (patchChecksum r 0) (readHeader r).checksum = r := by
    conv => lhs; rw [← record_eq hr]
    rw [patchChecksum_append, patchChecksum_append, readHeader_append]
    exact record_eq hr
  rw [← hpatched altered (by rw [hlen]; exact h), hpatch, hsum, hpatched record h]

theorem readHeader_checksumKind_congr {record altered : List U8}
    (h : altered[kChecksumKindOffset]? = record[kChecksumKindOffset]?) :
    (readHeader altered).checksumKind = (readHeader record).checksumKind := by
  refine readField_congr fun i hi hi' => ?_
  obtain rfl : i = kChecksumKindOffset := by
    rw [kChecksumKindOffset]
    omega
  rw [List.getElem?_take_of_lt (by decide), List.getElem?_take_of_lt (by decide), h]

/-- The checksum kind of a header is the byte at its offset. -/
theorem getElem?_checksumKind {record : List U8} (h : kHeaderSize ≤ record.length) :
    record[kChecksumKindOffset]? = some (readHeader record).checksumKind := by
  have hlt : kChecksumKindOffset < record.length := Nat.lt_of_lt_of_le (by decide) h
  have hbyte : ((record.take kHeaderSize).drop kChecksumKindOffset).take 1 = [record[kChecksumKindOffset]] := by
    rw [List.drop_take, List.take_take, List.drop_eq_getElem_cons hlt]
    rfl
  have hread : (readHeader record).checksumKind =
      BitVec.ofNat 8 (LittleEndian.value (((record.take kHeaderSize).drop kChecksumKindOffset).take 1)) := rfl
  rw [List.getElem?_eq_getElem hlt, hread, hbyte]
  simp [LittleEndian.value]

theorem readHeader_checksum_congr {record altered : List U8}
    (h : ∀ i, kChecksumOffset ≤ i → i < kChecksumOffset + 4 → altered[i]? = record[i]?) :
    (readHeader altered).checksum = (readHeader record).checksum := by
  refine readField_congr fun i hi hi' => ?_
  have hlt : i < kHeaderSize := Nat.lt_of_lt_of_le hi' (by decide)
  rw [List.getElem?_take_of_lt hlt, List.getElem?_take_of_lt hlt, h i hi hi']

namespace PacketValidator

variable {v : PacketValidator} {record altered : List U8} {c : Checksum}

/-- What the altered record would have to satisfy: the checksum of the record with its checksum cleared is the one in
the header, for the record and for the altered one, and both times it is computed with the polynomial of `c`. -/
theorem Trusted.compute_eq (h : v.Trusted altered) (hc : c.kind = (readHeader altered).checksumKind) :
    c.compute (patchChecksum altered 0) = (readHeader altered).checksum := by
  obtain ⟨c', hfind, hsum⟩ := h.checksum
  have hkinds : c.kind = c'.kind := hc.trans (ChecksumRegistry.kind_of_find hfind).symm
  rw [← hsum, packetChecksum_eq h.length, Checksum.compute_congr hkinds]

theorem not_trusted_of_burst (hlen : altered.length = record.length) (hne : altered ≠ record)
    (hkind : c.kind = (readHeader record).checksumKind) (hrecord : v.Trusted record) {k : Nat}
    (h : ∀ i, record[i]? ≠ altered[i]? → k ≤ i ∧ i < k + 4 ∧ i ≠ kChecksumKindOffset ∧
      ¬(kChecksumOffset ≤ i ∧ i < kChecksumOffset + 4)) : ¬v.Trusted altered := by
  intro haltered
  have hsame (i : Nat) (hi : ¬(k ≤ i ∧ i < k + 4) ∨ i = kChecksumKindOffset ∨
      kChecksumOffset ≤ i ∧ i < kChecksumOffset + 4) : altered[i]? = record[i]? := by
    by_contra hdiff
    obtain ⟨h1, h2, h3, h4⟩ := h i (Ne.symm hdiff)
    tauto
  have hkind' := readHeader_checksumKind_congr (hsame _ (.inr (.inl rfl)))
  have hsum := readHeader_checksum_congr fun i hi hi' => hsame i (.inr (.inr ⟨hi, hi'⟩))
  -- both checksums are folds of the same polynomial, over records that differ in four bytes
  have hcompute : c.compute (patchChecksum altered 0) = c.compute (patchChecksum record 0) := by
    rw [haltered.compute_eq (hkind.trans hkind'.symm), hrecord.compute_eq hkind, hsum]
  have hfold := Checksum.fold_of_compute hcompute
  refine hne (eq_of_patchChecksum hrecord.length hlen ?_ hsum)
  refine ReflectedCrc.eq_of_fold_eq c.polynomial_msb _ (k := k) (n := 4) (by decide) ?_ ?_ hfold
  · rw [length_patchChecksum haltered.length, length_patchChecksum hrecord.length, hlen]
  · intro i hi
    exact getElem?_patchChecksum_congr hrecord.length hlen 0 fun _ => hsame i (.inl (by omega))

theorem not_trusted_of_checksumField (hlen : altered.length = record.length) (hne : altered ≠ record)
    (hkind : c.kind = (readHeader record).checksumKind) (hrecord : v.Trusted record)
    (h : ∀ i, record[i]? ≠ altered[i]? → kChecksumOffset ≤ i ∧ i < kChecksumOffset + 4) : ¬v.Trusted altered := by
  intro haltered
  have hsame (i : Nat) (hi : ¬(kChecksumOffset ≤ i ∧ i < kChecksumOffset + 4)) : altered[i]? = record[i]? := by
    by_contra hdiff
    exact hi (h i (Ne.symm hdiff))
  have hkind' := readHeader_checksumKind_congr (hsame kChecksumKindOffset (by decide))
  have hpatch : patchChecksum altered 0 = patchChecksum record 0 :=
    List.ext_getElem? fun i => getElem?_patchChecksum_congr hrecord.length hlen 0 (hsame i)
  have hsum : (readHeader altered).checksum = (readHeader record).checksum := by
    rw [← haltered.compute_eq (hkind.trans hkind'.symm), ← hrecord.compute_eq hkind, hpatch]
  exact hne (eq_of_patchChecksum hrecord.length hlen hpatch hsum)

/-- Flipping one bit of the checksum kind never names the other algorithm. -/
theorem not_trusted_of_kindFlip (hkind : c.kind = (readHeader record).checksumKind) (hrecord : v.Trusted record)
    (bit : Fin 8) (h : altered = record.modify kChecksumKindOffset (· ^^^ BitVec.twoPow 8 bit)) :
    ¬v.Trusted altered := by
  intro haltered
  obtain ⟨c', hfind, -⟩ := haltered.checksum
  have hkinds : ∀ bit : Fin 8, (1 : U8) ^^^ BitVec.twoPow 8 bit ≠ 1 ∧ (1 : U8) ^^^ BitVec.twoPow 8 bit ≠ 2 ∧
      (2 : U8) ^^^ BitVec.twoPow 8 bit ≠ 1 ∧ (2 : U8) ^^^ BitVec.twoPow 8 bit ≠ 2 := by
    decide
  have hflip : (readHeader altered).checksumKind = (readHeader record).checksumKind ^^^ BitVec.twoPow 8 bit := by
    have hget : altered[kChecksumKindOffset]? = (record[kChecksumKindOffset]?).map (· ^^^ BitVec.twoPow 8 bit) := by
      rw [h, List.getElem?_modify_eq]
      rfl
    rw [getElem?_checksumKind hrecord.length, getElem?_checksumKind haltered.length] at hget
    simpa using hget
  rw [← hkind, ← ChecksumRegistry.kind_of_find hfind] at hflip
  have := hkinds bit
  cases c <;> cases c' <;> simp only [Checksum.kind] at hflip <;> tauto

end PacketValidator

/-- Every alteration of a sealed packet that keeps its length and either changes only bytes within four consecutive
offsets outside the checksum kind and the checksum, or only the checksum, or exactly one bit anywhere, is reported as
corrupted and leaves the validator as it is. -/
theorem altered_packet_detected (v : PacketValidator) (nowNs : Int) (sequence : U64) (timestampNs : I64) (c : Checksum)
    {packet altered : List U8} (hpacket : kHeaderSize ≤ packet.length) (hlen : altered.length = packet.length)
    (hne : altered ≠ sealPacket packet sequence timestampNs c)
    (h : Alteration (sealPacket packet sequence timestampNs c) altered) :
    (v.validate altered nowNs).1.corrupted = true ∧ (v.validate altered nowNs).2 = v := by
  have hlen' := length_sealPacket hpacket sequence timestampNs c
  have hkind : c.kind = (readHeader (sealPacket packet sequence timestampNs c)).checksumKind := by
    rw [readHeader_sealPacket]
    rfl
  have hnot : ¬v.Trusted altered := by
    intro haltered
    -- a payload too long for its size field is never trusted, altered or not
    have hsize : packet.length - kHeaderSize < 2 ^ 32 := by
      rw [← hlen, ← haltered.payloadSize]
      exact (readHeader altered).payloadSize.isLt
    have htrusted := v.trusted_sealPacket hpacket hsize sequence timestampNs c
    rw [← hlen'] at hlen
    generalize sealPacket packet sequence timestampNs c = record at *
    cases h with
    | burst k h => exact PacketValidator.not_trusted_of_burst hlen hne hkind htrusted h haltered
    | checksumField h => exact PacketValidator.not_trusted_of_checksumField hlen hne hkind htrusted h haltered
    | bitFlip i bit h =>
      have hdiff (j : Nat) (hj : record[j]? ≠ altered[j]?) : j = i := by
        by_contra hji
        exact hj (by rw [h, List.getElem?_modify_ne _ _ (Ne.symm hji)])
      by_cases hi : i = kChecksumKindOffset
      · exact PacketValidator.not_trusted_of_kindFlip hkind htrusted bit (hi ▸ h) haltered
      · by_cases hfield : kChecksumOffset ≤ i ∧ i < kChecksumOffset + 4
        · exact PacketValidator.not_trusted_of_checksumField hlen hne hkind htrusted
            (fun j hj => hdiff j hj ▸ hfield) haltered
        · exact PacketValidator.not_trusted_of_burst (k := i) hlen hne hkind htrusted
            (fun j hj => by rw [hdiff j hj]; exact ⟨Nat.le_refl _, by omega, hi, hfield⟩) haltered
  exact ⟨PacketValidator.corrupted_iff.2 hnot, PacketValidator.validate_of_not_trusted hnot⟩

theorem altered_packet_detected_payload :
    let packet := sealPacket (List.replicate 33 0) 3 4 (.Crc32c false)
    ((PacketValidator.new ⟨true⟩ 0).validate (packet.modify 32 (· ^^^ 1)) 9).1.corrupted = true := by
  refine (altered_packet_detected (.new ⟨true⟩ 0) 9 3 4 (.Crc32c false)
    (show kHeaderSize ≤ (List.replicate 33 (0 : U8)).length by decide) ?_ ?_ (.bitFlip 32 0 rfl)).1
  · rw [List.length_modify, length_sealPacket (by decide)]
  · decide +kernel

end ProducerConsumer
