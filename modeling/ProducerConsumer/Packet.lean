import ProducerConsumer.Checksum

/-!
# Packets

The packet header and the functions of `packet.cpp`.  A record is a header of 32 bytes and a payload; every record of
that length is the bytes of its own header followed by its payload (`record_eq`), so the functions that copy a header
in, patch the checksum or hash a cleared copy of the header are all described on such pairs.
-/

namespace ProducerConsumer

/-- `std::int64_t`, in two's complement. -/
abbrev I64 := BitVec 64

def kPacketMagic : U32 := 0x544B4350#32
def kPacketVersion : U8 := 2#8

/-- `sizeof(PacketHeader)`. -/
def kHeaderSize : Nat := 32

/-- `offsetof(PacketHeader, checksum)`. -/
def kChecksumOffset : Nat := 12

@[ext] structure PacketHeader where
  magic : U32
  version : U8
  checksumKind : U8
  headerSize : U16
  payloadSize : U32
  checksum : U32
  sequence : U64
  timestampNs : I64
deriving DecidableEq, Repr

/-- A field of `n` bytes in the native byte order, which is little-endian. -/
def fieldBytes {w : Nat} (n : Nat) (x : BitVec w) : List U8 := LittleEndian.bytes n x.toNat

def readField (w offset n : Nat) (bs : List U8) : BitVec w :=
  BitVec.ofNat w (LittleEndian.value ((bs.drop offset).take n))

namespace PacketHeader

/-- The object representation: the fields lie next to each other without padding. -/
def toBytes (h : PacketHeader) : List U8 :=
  fieldBytes 4 h.magic ++ fieldBytes 1 h.version ++ fieldBytes 1 h.checksumKind ++ fieldBytes 2 h.headerSize ++
    fieldBytes 4 h.payloadSize ++ fieldBytes 4 h.checksum ++ fieldBytes 8 h.sequence ++ fieldBytes 8 h.timestampNs

def fromBytes (bs : List U8) : PacketHeader where
  magic := readField 32 0 4 bs
  version := readField 8 4 1 bs
  checksumKind := readField 8 5 1 bs
  headerSize := readField 16 6 2 bs
  payloadSize := readField 32 8 4 bs
  checksum := readField 32 12 4 bs
  sequence := readField 64 16 8 bs
  timestampNs := readField 64 24 8 bs

end PacketHeader

/-! ### The functions of the source -/

/-- `memcpy` to `record.data() + offset`. -/
def overwrite (record : List U8) (offset : Nat) (bs : List U8) : List U8 :=
  record.take offset ++ bs ++ record.drop (offset + bs.length)

/-- The header that `write_header` fills in for a record of `size` bytes. -/
def newHeader (size : Nat) (sequence : U64) (timestampNs : I64) (checksumKind : U8) : PacketHeader where
  magic := kPacketMagic
  version := kPacketVersion
  checksumKind := checksumKind
  headerSize := BitVec.ofNat 16 kHeaderSize
  payloadSize := BitVec.ofNat 32 (size - kHeaderSize)
  checksum := 0
  sequence := sequence
  timestampNs := timestampNs

def writeHeader (record : List U8) (sequence : U64) (timestampNs : I64) (checksumKind : U8) : List U8 :=
  overwrite record 0 (newHeader record.length sequence timestampNs checksumKind).toBytes

def patchChecksum (record : List U8) (checksum : U32) : List U8 :=
  overwrite record kChecksumOffset (fieldBytes 4 checksum)

def sealPacket (record : List U8) (sequence : U64) (timestampNs : I64) (checksum : Checksum) : List U8 :=
  let record := writeHeader record sequence timestampNs checksum.kind
  patchChecksum record (checksum.compute record)

def readHeader (record : List U8) : PacketHeader := .fromBytes (record.take kHeaderSize)

def packetChecksum (record : List U8) (checksum : Checksum) : U32 :=
  let header := { readHeader record with checksum := 0 }
  let state := checksum.update checksum.start header.toBytes
  checksum.finish (checksum.update state (record.drop kHeaderSize))

/-! ### Fields -/

@[simp] theorem length_fieldBytes {w : Nat} (n : Nat) (x : BitVec w) : (fieldBytes n x).length = n :=
  LittleEndian.length_bytes n _

theorem fieldBytes_readField {w n : Nat} (offset : Nat) {bs : List U8} (hw : 8 * n = w) (h : offset + n ≤ bs.length) :
    fieldBytes n (readField w offset n bs) = (bs.drop offset).take n := by
  have hlen : ((bs.drop offset).take n).length = n := by
    rw [List.length_take, List.length_drop]
    omega
  have hlt := LittleEndian.value_lt ((bs.drop offset).take n)
  rw [hlen, show 256 = 2 ^ 8 from rfl, ← Nat.pow_mul, hw] at hlt
  have hbytes := LittleEndian.bytes_value ((bs.drop offset).take n)
  rwa [hlen, ← Nat.mod_eq_of_lt hlt] at hbytes

theorem fieldBytes_inj {w n : Nat} (hw : 8 * n = w) {x y : BitVec w} (h : fieldBytes n x = fieldBytes n y) : x = y := by
  have hvalue (z : BitVec w) : LittleEndian.value (fieldBytes n z) = z.toNat := by
    apply LittleEndian.value_bytes_of_lt
    rw [show 256 = 2 ^ 8 from rfl, ← Nat.pow_mul, hw]
    exact z.isLt
  apply BitVec.eq_of_toNat_eq
  rw [← hvalue x, h, hvalue y]

/-- A field depends on its own bytes only. -/
theorem readField_congr {w offset n : Nat} {bs cs : List U8}
    (h : ∀ i, offset ≤ i → i < offset + n → bs[i]? = cs[i]?) : readField w offset n bs = readField w offset n cs := by
  have hsame : (bs.drop offset).take n = (cs.drop offset).take n := by
    apply List.ext_getElem?
    intro i
    rw [List.getElem?_take, List.getElem?_take, List.getElem?_drop, List.getElem?_drop]
    split
    · exact h (offset + i) (by omega) (by omega)
    · rfl
  rw [readField, hsame, readField]

/-! ### Headers -/

namespace PacketHeader

@[simp] theorem length_toBytes (h : PacketHeader) : h.toBytes.length = kHeaderSize := by
  simp [toBytes, kHeaderSize]

/-- The header read from 32 bytes has these bytes as its representation. -/
theorem toBytes_fromBytes {bs : List U8} (h : bs.length = kHeaderSize) : (fromBytes bs).toBytes = bs := by
  have hsplit (m n : Nat) : (bs.drop m).take n ++ bs.drop (m + n) = bs.drop m := by
    rw [← List.drop_drop]
    exact List.take_append_drop n _
  have hlast : (bs.drop 24).take 8 = bs.drop 24 := by
    rw [List.take_of_length_le]
    rw [List.length_drop, h]
    decide
  rw [kHeaderSize] at h
  -- the fields are consecutive slices, which join up again from the last one on
  simp only [toBytes, fromBytes]
  rw [fieldBytes_readField 0 rfl (by omega), fieldBytes_readField 4 rfl (by omega),
    fieldBytes_readField 5 rfl (by omega), fieldBytes_readField 6 rfl (by omega),
    fieldBytes_readField 8 rfl (by omega), fieldBytes_readField 12 rfl (by omega),
    fieldBytes_readField 16 rfl (by omega), fieldBytes_readField 24 rfl (by omega), hlast]
  simp only [List.append_assoc]
  rw [hsplit 16 8, hsplit 12 4, hsplit 8 4, hsplit 6 2, hsplit 5 1, hsplit 4 1, hsplit 0 4, List.drop_zero]

theorem toBytes_inj {h k : PacketHeader} (he : h.toBytes = k.toBytes) : h = k := by
  have hsplit {a b : List U8} {n w : Nat} {x y : BitVec w} (he : a ++ fieldBytes n x = b ++ fieldBytes n y) :
      a = b ∧ fieldBytes n x = fieldBytes n y := List.append_inj' he (by simp)
  obtain ⟨he, htimestamp⟩ := hsplit he
  obtain ⟨he, hsequence⟩ := hsplit he
  obtain ⟨he, hchecksum⟩ := hsplit he
  obtain ⟨he, hpayload⟩ := hsplit he
  obtain ⟨he, hsize⟩ := hsplit he
  obtain ⟨he, hkind⟩ := hsplit he
  obtain ⟨hmagic, hversion⟩ := hsplit he
  exact PacketHeader.ext (fieldBytes_inj rfl hmagic) (fieldBytes_inj rfl hversion) (fieldBytes_inj rfl hkind)
    (fieldBytes_inj rfl hsize) (fieldBytes_inj rfl hpayload) (fieldBytes_inj rfl hchecksum)
    (fieldBytes_inj rfl hsequence) (fieldBytes_inj rfl htimestamp)

end PacketHeader

/-! ### Records -/

theorem overwrite_append (pre old post new : List U8) (h : old.length = new.length) :
    overwrite (pre ++ old ++ post) pre.length new = pre ++ new ++ post := by
  rw [overwrite, ← h, ← List.length_append, List.drop_left, List.append_assoc pre old post, List.take_left]

@[simp] theorem length_overwrite {record bs : List U8} {offset : Nat} (h : offset + bs.length ≤ record.length) :
    (overwrite record offset bs).length = record.length := by
  simp only [overwrite, List.length_append, List.length_take, List.length_drop]
  omega

theorem getElem?_overwrite {record bs : List U8} {offset i : Nat} (h : offset + bs.length ≤ record.length) :
    (overwrite record offset bs)[i]? =
      if offset ≤ i ∧ i < offset + bs.length then bs[i - offset]? else record[i]? := by
  have htake : (record.take offset).length = offset := by
    rw [List.length_take]
    omega
  rw [overwrite, List.append_assoc, List.getElem?_append, htake]
  rcases Nat.lt_or_ge i offset with hlt | hge
  · rw [if_pos hlt, if_neg (by omega), List.getElem?_take_of_lt hlt]
  · rw [if_neg (by omega), List.getElem?_append]
    by_cases hin : i < offset + bs.length
    · rw [if_pos (by omega), if_pos ⟨hge, hin⟩]
    · rw [if_neg (by omega), if_neg (by omega), List.getElem?_drop]
      congr 1
      omega

/-- A record is its header and its payload. -/
theorem record_eq {record : List U8} (h : kHeaderSize ≤ record.length) :
    (readHeader record).toBytes ++ record.drop kHeaderSize = record := by
  rw [readHeader, PacketHeader.toBytes_fromBytes (by rw [List.length_take]; omega)]
  exact List.take_append_drop _ _

theorem readHeader_append (h : PacketHeader) (payload : List U8) : readHeader (h.toBytes ++ payload) = h := by
  apply PacketHeader.toBytes_inj
  rw [readHeader, List.take_left' h.length_toBytes, PacketHeader.toBytes_fromBytes h.length_toBytes]

theorem writeHeader_eq {record : List U8} (sequence : U64) (timestampNs : I64) (kind : U8) :
    writeHeader record sequence timestampNs kind =
      (newHeader record.length sequence timestampNs kind).toBytes ++ record.drop kHeaderSize := by
  rw [writeHeader, overwrite, PacketHeader.length_toBytes, Nat.zero_add, List.take_zero, List.nil_append]

theorem patchChecksum_append (h : PacketHeader) (payload : List U8) (checksum : U32) :
    patchChecksum (h.toBytes ++ payload) checksum = { h with checksum := checksum }.toBytes ++ payload := by
  have hpatch := overwrite_append
    (fieldBytes 4 h.magic ++ fieldBytes 1 h.version ++ fieldBytes 1 h.checksumKind ++ fieldBytes 2 h.headerSize ++
      fieldBytes 4 h.payloadSize)
    (fieldBytes 4 h.checksum) (fieldBytes 8 h.sequence ++ fieldBytes 8 h.timestampNs ++ payload)
    (fieldBytes 4 checksum) (by simp)
  simpa [patchChecksum, PacketHeader.toBytes, kChecksumOffset] using hpatch

/-- The checksum over a cleared copy of the header and then the payload is the one over the cleared record. -/
theorem packetChecksum_eq {record : List U8} (h : kHeaderSize ≤ record.length) (checksum : Checksum) :
    packetChecksum record checksum = checksum.compute (patchChecksum record 0) := by
  conv => rhs; rw [← record_eq h, patchChecksum_append]
  rw [Checksum.compute, Checksum.update_append]
  rfl

/-- What `seal_packet` makes of a record. -/
theorem sealPacket_eq (record : List U8) (sequence : U64) (timestampNs : I64) (checksum : Checksum) :
    sealPacket record sequence timestampNs checksum =
      { newHeader record.length sequence timestampNs checksum.kind with
        checksum := checksum.compute
          ((newHeader record.length sequence timestampNs checksum.kind).toBytes ++ record.drop kHeaderSize) }.toBytes ++
        record.drop kHeaderSize := by
  simp only [sealPacket, writeHeader_eq, patchChecksum_append]

@[simp] theorem length_sealPacket {record : List U8} (h : kHeaderSize ≤ record.length) (sequence : U64)
    (timestampNs : I64) (checksum : Checksum) :
    (sealPacket record sequence timestampNs checksum).length = record.length := by
  rw [sealPacket_eq, List.length_append, PacketHeader.length_toBytes, List.length_drop]
  omega

end ProducerConsumer
