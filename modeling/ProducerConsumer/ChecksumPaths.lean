import ProducerConsumer.PacketIntegrity

/-!
# The paths of a checksum

The table loop computes what the bit-at-a-time reference of `test_crc32.cpp` computes, for every polynomial, state and
string (`slice_by_8_is_bitwise`); the CRC-32C instructions compute what the table loop computes, so that a packet that is
sealed on one path verifies on the other (`hardware_matches_table`).  Since every path is a fold over the bytes, a string
may be cut into pieces anywhere, and each piece may take its own path.
-/

namespace ProducerConsumer

open ReflectedCrc

/-! ### The reference -/

/-- The body of the loop of `reference_crc`: adds a byte and divides eight times. -/
def referenceByte (polynomial crc : U32) (byte : U8) : U32 := (crcBit polynomial)^[8] (crc ^^^ byte.setWidth 32)

/-- The loop of `reference_crc`, from any state. -/
def referenceLoop (polynomial crc : U32) (data : List U8) : U32 := data.foldl (referenceByte polynomial) crc

def referenceCrc (polynomial : U32) (data : List U8) : U32 := referenceLoop polynomial 0xFFFFFFFF#32 data ^^^ 0xFFFFFFFF#32

theorem referenceLoop_eq_fold (p crc : U32) (data : List U8) : referenceLoop p crc data = fold p crc data := by
  have hbyte : referenceByte p = byteStep p := by
    funext s b
    rw [referenceByte, crcBit_iterate, byteStep]
  rw [referenceLoop, hbyte, fold]

theorem Checksum.compute_eq_reference (c : Checksum) (data : List U8) : c.compute data = referenceCrc c.polynomial data := by
  rw [compute, update_eq_fold, referenceCrc, referenceLoop_eq_fold, finish, start]

/-! ### Pieces -/

/-- Successive updates over the pieces of a string, each by a checksum of the same polynomial. -/
theorem Checksum.foldl_update (p state : U32) (pieces : List (Checksum × List U8))
    (h : ∀ piece ∈ pieces, piece.1.polynomial = p) :
    pieces.foldl (fun state piece => piece.1.update state piece.2) state = fold p state (pieces.map Prod.snd).flatten := by
  induction pieces generalizing state with
  | nil => rfl
  | cons piece pieces ih =>
    have hpiece := h piece (List.mem_cons_self ..)
    have hrest : ∀ piece ∈ pieces, piece.1.polynomial = p := fun q hq => h q (List.mem_cons_of_mem _ hq)
    rw [List.foldl_cons, ih _ hrest, update_eq_fold, hpiece, List.map_cons, List.flatten_cons, fold_append]

/-- Slice-by-8 with the table of a polynomial is the bit-at-a-time loop, for every state and every string; so an update
over a string is the successive updates over its pieces, wherever it is cut. -/
theorem slice_by_8_is_bitwise :
    (∀ (p crc : U32) (data : List U8), crcSliceBy8 (makeCrcTable p) crc data = referenceLoop p crc data) ∧
    (∀ (p crc : U32) (xs ys : List U8), crcSliceBy8 (makeCrcTable p) crc (xs ++ ys) =
      crcSliceBy8 (makeCrcTable p) (crcSliceBy8 (makeCrcTable p) crc xs) ys) ∧
    (∀ (c : Checksum) (state : U32) (pieces : List (List U8)),
      c.update state pieces.flatten = pieces.foldl c.update state) ∧
    (∀ (c : Checksum) (data : List U8), c.compute data = referenceCrc c.polynomial data) := by
  refine ⟨?_, ?_, ?_, Checksum.compute_eq_reference⟩
  · intro p crc data
    rw [crcSliceBy8_eq_fold, referenceLoop_eq_fold]
  · intro p crc xs ys
    rw [crcSliceBy8_eq_fold, crcSliceBy8_eq_fold, crcSliceBy8_eq_fold, fold_append]
  · intro c state pieces
    have h := Checksum.foldl_update c.polynomial state (pieces.map fun piece => (c, piece)) (by simp)
    rw [List.foldl_map, List.map_map] at h
    rw [c.update_eq_fold, h]
    simp

/-! ### Hardware and table -/

/-- The CRC-32C instructions and the table loop give the same state for every state and every string; the pieces of a
string may take either path; and a packet that one process seals on one path is verified by another process on the
other. -/
theorem hardware_matches_table :
    (∀ (crc : U32) (data : List U8),
      crc32cHardware crc data = crcSliceBy8 (makeCrcTable kCrc32cPolynomial) crc data) ∧
    (∀ (crc : U32) (pieces : List (Bool × List U8)),
      pieces.foldl (fun state piece => (Checksum.Crc32c piece.1).update state piece.2) crc =
        crcSliceBy8 (makeCrcTable kCrc32cPolynomial) crc (pieces.map Prod.snd).flatten) ∧
    (∀ (sealer verifier : Bool) (record : List U8) (sequence : U64) (timestampNs : I64), kHeaderSize ≤ record.length →
      packetChecksum (sealPacket record sequence timestampNs (.Crc32c sealer)) (.Crc32c verifier) =
        (readHeader (sealPacket record sequence timestampNs (.Crc32c sealer))).checksum) := by
  refine ⟨?_, ?_, ?_⟩
  · intro crc data
    rw [crc32cHardware_eq_fold, crcSliceBy8_eq_fold]
  · intro crc pieces
    have hpolynomial : ∀ piece ∈ pieces.map (fun piece => (Checksum.Crc32c piece.1, piece.2)),
        piece.1.polynomial = kCrc32cPolynomial := by
      intro piece hpiece
      obtain ⟨-, -, rfl⟩ := List.mem_map.1 hpiece
      rfl
    have h := Checksum.foldl_update kCrc32cPolynomial crc _ hpolynomial
    rw [List.foldl_map, List.map_map] at h
    rw [h, crcSliceBy8_eq_fold]
    rfl
  · intro sealer verifier record sequence timestampNs hlen
    have hkind : (Checksum.Crc32c verifier).kind = (Checksum.Crc32c sealer).kind := rfl
    rw [packetChecksum_congr hkind (by rw [length_sealPacket hlen]; exact hlen), packetChecksum_sealPacket hlen]

/-- A payload of 13 bytes: a word and a tail. -/
theorem hardware_matches_table_tail :
    packetChecksum (sealPacket (List.replicate 45 0xA5) 3 4 (.Crc32c true)) (.Crc32c false) =
      (readHeader (sealPacket (List.replicate 45 0xA5) 3 4 (.Crc32c true))).checksum :=
  hardware_matches_table.2.2 true false (List.replicate 45 0xA5) 3 4 (by decide)

end ProducerConsumer
