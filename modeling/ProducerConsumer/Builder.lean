import ProducerConsumer.PacketIntegrity
import ProducerConsumer.Generator

/-!
# The packet builder

`PacketBuilder::build` as a function of the record it is given (`build`), and as the sequence of the bytes it stores
(`stores`), which is what the ring sees of it.  Both agree (`applyStores_stores`), and the record is the one that one fill
of the payload and `seal_packet` make (`build_is_fill_then_seal`): a chunk is a whole number of blocks of the generator.
-/

namespace ProducerConsumer

def kChunkBytes : Nat := 8 * 1024

structure PacketBuilder where
  generator : PayloadGenerator
  checksum : Checksum
deriving DecidableEq, Repr

/-- The payload, the state of the checksum after it, and the generator it leaves. -/
structure FilledPayload where
  payload : List U8
  state : U32
  generator : PayloadGenerator

/-- The loop over the chunks of the payload; a chunk has at least one byte, so `remaining` is enough fuel. -/
def fillChunks (checksum : Checksum) : Nat → PayloadGenerator → U32 → Nat → FilledPayload
  | 0, generator, state, _ => ⟨[], state, generator⟩
  | fuel + 1, generator, state, remaining =>
    if remaining = 0 then ⟨[], state, generator⟩
    else
      let size := min remaining kChunkBytes
      let (chunk, generator) := generator.fill size
      let rest := fillChunks checksum fuel generator (checksum.update state chunk) (remaining - size)
      { rest with payload := chunk ++ rest.payload }

namespace PacketBuilder

/-- The payload of `size` bytes behind a header. -/
def fillPayload (b : PacketBuilder) (header : List U8) (size : Nat) : FilledPayload :=
  fillChunks b.checksum size b.generator (b.checksum.update b.checksum.start header) size

def build (b : PacketBuilder) (record : List U8) (sequence : U64) (nowNs : I64) : List U8 × PacketBuilder :=
  let record := writeHeader record sequence nowNs b.checksum.kind
  let filled := b.fillPayload (record.take kHeaderSize) (record.length - kHeaderSize)
  (patchChecksum (overwrite record kHeaderSize filled.payload) (b.checksum.finish filled.state),
    { b with generator := filled.generator })

end PacketBuilder

/-! ### Stores -/

/-- The bytes `bs` one after the other, from `offset` on. -/
def storesAt (offset : Nat) : List U8 → List (Nat × U8)
  | [] => []
  | b :: bs => (offset, b) :: storesAt (offset + 1) bs

def applyStores (record : List U8) (stores : List (Nat × U8)) : List U8 :=
  stores.foldl (fun record store => record.set store.1 store.2) record

/-- The bytes that `build` stores to a record of `size` bytes, in their order. -/
def PacketBuilder.stores (b : PacketBuilder) (size : Nat) (sequence : U64) (nowNs : I64) :
    List (Nat × U8) × PacketBuilder :=
  let header := (newHeader size sequence nowNs b.checksum.kind).toBytes
  let filled := b.fillPayload header (size - kHeaderSize)
  (storesAt 0 header ++ storesAt kHeaderSize filled.payload ++
      storesAt kChecksumOffset (fieldBytes 4 (b.checksum.finish filled.state)),
    { b with generator := filled.generator })

theorem applyStores_append (record : List U8) (stores stores' : List (Nat × U8)) :
    applyStores record (stores ++ stores') = applyStores (applyStores record stores) stores' :=
  List.foldl_append

theorem length_applyStores (record : List U8) (stores : List (Nat × U8)) :
    (applyStores record stores).length = record.length := by
  induction stores generalizing record with
  | nil => rfl
  | cons store stores ih => exact (ih _).trans (List.length_set ..)

/-- The stores of a string write it. -/
theorem applyStores_storesAt (bs : List U8) {record : List U8} {offset : Nat} (h : offset + bs.length ≤ record.length) :
    applyStores record (storesAt offset bs) = overwrite record offset bs := by
  induction bs generalizing record offset with
  | nil => simp [storesAt, applyStores, overwrite]
  | cons b bs ih =>
    rw [List.length_cons] at h
    have hrest : applyStores (record.set offset b) (storesAt (offset + 1) bs) =
        overwrite (record.set offset b) (offset + 1) bs := ih (by rw [List.length_set]; omega)
    have hstep : applyStores record (storesAt offset (b :: bs)) =
        applyStores (record.set offset b) (storesAt (offset + 1) bs) := rfl
    rw [hstep, hrest]
    apply List.ext_getElem?
    intro i
    rw [getElem?_overwrite (by rw [List.length_set]; omega), getElem?_overwrite (by rw [List.length_cons]; omega),
      List.getElem?_set, List.length_cons]
    -- before the first byte of the string, at it, and after it
    rcases Nat.lt_trichotomy i offset with hlt | rfl | hgt
    · rw [if_neg (by omega), if_neg (by omega), if_neg (by omega)]
    · rw [if_neg (by omega), if_pos rfl, if_pos (by omega), if_pos (by omega), Nat.sub_self]
      rfl
    · rw [if_neg (by omega : ¬offset = i)]
      by_cases hin : i < offset + 1 + bs.length
      · rw [if_pos (by omega), if_pos (by omega), show i - offset = i - (offset + 1) + 1 by omega,
          List.getElem?_cons_succ]
      · rw [if_neg (by omega), if_neg (by omega)]

theorem length_storesAt (offset : Nat) (bs : List U8) : (storesAt offset bs).length = bs.length := by
  induction bs generalizing offset with
  | nil => rfl
  | cons b bs ih => exact congrArg (· + 1) (ih _)

theorem mem_storesAt {bs : List U8} {offset : Nat} {store : Nat × U8} (h : store ∈ storesAt offset bs) :
    store.1 < offset + bs.length := by
  induction bs generalizing offset with
  | nil => cases h
  | cons b bs ih =>
    rw [List.length_cons]
    rcases List.mem_cons.1 h with rfl | h
    · simp only
      omega
    · have := ih h
      omega

/-! ### What is built -/

/-- The chunks together are one fill, and the checksum has run over all of it: a chunk that is not the last one has a
whole number of blocks. -/
theorem fillChunks_eq_fill (checksum : Checksum) {fuel remaining : Nat} (generator : PayloadGenerator) (state : U32)
    (h : remaining ≤ fuel) :
    fillChunks checksum fuel generator state remaining = ⟨(generator.fill remaining).1,
      checksum.update state (generator.fill remaining).1, (generator.fill remaining).2⟩ := by
  have hnil (state : U32) : checksum.update state [] = state := by rw [Checksum.update_eq_fold]; rfl
  induction fuel generalizing generator state remaining with
  | zero =>
    obtain rfl : remaining = 0 := by omega
    rw [fillChunks, generator.fill_zero, hnil]
  | succ fuel ih =>
    by_cases hzero : remaining = 0
    · rw [fillChunks, if_pos hzero, hzero, generator.fill_zero, hnil]
    · have hcons : fillChunks checksum (fuel + 1) generator state remaining =
          { fillChunks checksum fuel (generator.fill (min remaining kChunkBytes)).2
              (checksum.update state (generator.fill (min remaining kChunkBytes)).1)
              (remaining - min remaining kChunkBytes) with
            payload := (generator.fill (min remaining kChunkBytes)).1 ++
              (fillChunks checksum fuel (generator.fill (min remaining kChunkBytes)).2
                (checksum.update state (generator.fill (min remaining kChunkBytes)).1)
                (remaining - min remaining kChunkBytes)).payload } := by
        rw [fillChunks, if_neg hzero]
      have hless : remaining - min remaining kChunkBytes ≤ fuel := by
        rw [kChunkBytes]
        omega
      rw [hcons, ih _ _ hless]
      rcases Nat.lt_or_ge kChunkBytes remaining with hmore | hlast
      · have hsplit := generator.fill_add (n := remaining - kChunkBytes) (show kBlockBytes ∣ kChunkBytes by decide)
        rw [Nat.add_sub_cancel' (Nat.le_of_lt hmore)] at hsplit
        rw [Nat.min_eq_right (Nat.le_of_lt hmore), hsplit, Checksum.update_append]
      · rw [Nat.min_eq_left hlast, Nat.sub_self, PayloadGenerator.fill_zero, List.append_nil, hnil]

namespace PacketBuilder

theorem fillPayload_eq (b : PacketBuilder) (header : List U8) (size : Nat) :
    b.fillPayload header size = ⟨(b.generator.fill size).1,
      b.checksum.update (b.checksum.update b.checksum.start header) (b.generator.fill size).1,
      (b.generator.fill size).2⟩ :=
  fillChunks_eq_fill b.checksum b.generator _ (Nat.le_refl size)

theorem fillPayload_spec (b : PacketBuilder) (header : List U8) (size : Nat) :
    (b.fillPayload header size).payload.length = size ∧
      b.checksum.finish (b.fillPayload header size).state =
        b.checksum.compute (header ++ (b.fillPayload header size).payload) := by
  rw [fillPayload_eq]
  exact ⟨b.generator.length_fill size, by rw [Checksum.compute, Checksum.update_append]⟩

theorem overwrite_payload (header : PacketHeader) {old payload : List U8} (h : old.length = payload.length) :
    overwrite (header.toBytes ++ old) kHeaderSize payload = header.toBytes ++ payload := by
  have hover := overwrite_append header.toBytes old [] payload h
  rwa [List.append_nil, List.append_nil, PacketHeader.length_toBytes] at hover

/-- A built record is what sealing makes of the payload of one fill, and the generator is where that fill leaves it. -/
theorem build_eq_fill (b : PacketBuilder) {record : List U8} (h : kHeaderSize ≤ record.length) (sequence : U64)
    (nowNs : I64) :
    b.build record sequence nowNs =
      (sealPacket (record.take kHeaderSize ++ (b.generator.fill (record.length - kHeaderSize)).1) sequence nowNs b.checksum,
        { b with generator := (b.generator.fill (record.length - kHeaderSize)).2 }) := by
  have hlen := b.generator.length_fill (record.length - kHeaderSize)
  have htake : (record.take kHeaderSize).length = kHeaderSize := by
    rw [List.length_take]
    omega
  have hlength : (record.take kHeaderSize ++ (b.generator.fill (record.length - kHeaderSize)).1).length =
      record.length := by
    rw [List.length_append, htake, hlen]
    omega
  unfold build
  dsimp only
  rw [writeHeader_eq, List.take_left' (PacketHeader.length_toBytes _), List.length_append, PacketHeader.length_toBytes,
    List.length_drop, Nat.add_sub_cancel_left, fillPayload_eq, sealPacket_eq, hlength, List.drop_left' htake,
    Checksum.compute, Checksum.update_append]
  rw [overwrite_payload _ (by rw [List.length_drop, hlen]), patchChecksum_append]

/-- A built record is a sealed packet with the payload that the generator wrote. -/
theorem build_eq_sealPacket (b : PacketBuilder) {record : List U8} (h : kHeaderSize ≤ record.length) (sequence : U64)
    (nowNs : I64) : ∃ payload, payload.length = record.length - kHeaderSize ∧
      (b.build record sequence nowNs).1 = sealPacket (record.take kHeaderSize ++ payload) sequence nowNs b.checksum :=
  ⟨_, b.generator.length_fill _, by rw [b.build_eq_fill h]⟩

/-- The stores of `build` make of a record what `build` makes of it. -/
theorem applyStores_stores (b : PacketBuilder) {record : List U8} (h : kHeaderSize ≤ record.length) (sequence : U64)
    (nowNs : I64) :
    applyStores record (b.stores record.length sequence nowNs).1 = (b.build record sequence nowNs).1 ∧
      (b.stores record.length sequence nowNs).2 = (b.build record sequence nowNs).2 := by
  have hlen := (b.fillPayload_spec (newHeader record.length sequence nowNs b.checksum.kind).toBytes
    (record.length - kHeaderSize)).1
  have hhead := PacketHeader.length_toBytes (newHeader record.length sequence nowNs b.checksum.kind)
  have hfill : b.fillPayload ((writeHeader record sequence nowNs b.checksum.kind).take kHeaderSize)
      ((writeHeader record sequence nowNs b.checksum.kind).length - kHeaderSize) =
      b.fillPayload (newHeader record.length sequence nowNs b.checksum.kind).toBytes (record.length - kHeaderSize) := by
    rw [writeHeader_eq, List.take_left' hhead, List.length_append, hhead, List.length_drop, Nat.add_sub_cancel_left]
  constructor
  · have hwritten : (writeHeader record sequence nowNs b.checksum.kind).length = record.length :=
      length_overwrite (by rw [hhead]; omega)
    have hheader : applyStores record (storesAt 0 (newHeader record.length sequence nowNs b.checksum.kind).toBytes) =
        writeHeader record sequence nowNs b.checksum.kind :=
      applyStores_storesAt _ (by rw [hhead]; omega)
    have hpayload := applyStores_storesAt (b.fillPayload
      (newHeader record.length sequence nowNs b.checksum.kind).toBytes (record.length - kHeaderSize)).payload
      (show kHeaderSize + _ ≤ (writeHeader record sequence nowNs b.checksum.kind).length by rw [hlen, hwritten]; omega)
    unfold stores build
    dsimp only
    rw [hfill, applyStores_append, applyStores_append, hheader, hpayload]
    refine applyStores_storesAt _ ?_
    rw [length_fieldBytes, length_overwrite (by rw [hlen, hwritten]; omega), hwritten]
    simp only [kChecksumOffset, kHeaderSize] at *
    omega
  · unfold stores build
    dsimp only
    rw [hfill]

theorem length_stores (b : PacketBuilder) {size : Nat} (h : kHeaderSize ≤ size) (sequence : U64) (nowNs : I64) :
    (b.stores size sequence nowNs).1.length = size + 4 := by
  obtain ⟨hpayload, -⟩ := b.fillPayload_spec (newHeader size sequence nowNs b.checksum.kind).toBytes (size - kHeaderSize)
  unfold stores
  rw [List.length_append, List.length_append, length_storesAt, length_storesAt, length_storesAt, hpayload,
    PacketHeader.length_toBytes, length_fieldBytes]
  omega

/-- The stores stay in the record. -/
theorem mem_stores (b : PacketBuilder) {size : Nat} (h : kHeaderSize ≤ size) (sequence : U64) (nowNs : I64)
    {store : Nat × U8} (hs : store ∈ (b.stores size sequence nowNs).1) : store.1 < size := by
  have hlen := (b.fillPayload_spec (newHeader size sequence nowNs b.checksum.kind).toBytes (size - kHeaderSize)).1
  unfold stores at hs
  dsimp only at hs
  rw [List.mem_append, List.mem_append] at hs
  rcases hs with (hs | hs) | hs
  · have := mem_storesAt hs
    rw [PacketHeader.length_toBytes] at this
    omega
  · have := mem_storesAt hs
    omega
  · have := mem_storesAt hs
    rw [length_fieldBytes] at this
    simp only [kChecksumOffset, kHeaderSize] at *
    omega

end PacketBuilder

/-- Building a packet in place, chunk by chunk, is one fill of the whole payload and then `seal_packet`, for the record
and for the generator; and the random generator may be called for pieces of whole blocks, the last piece apart. -/
theorem build_is_fill_then_seal :
    (∀ (b : PacketBuilder) (record : List U8) (sequence : U64) (nowNs : I64), kHeaderSize ≤ record.length →
      b.build record sequence nowNs =
        (sealPacket (overwrite record kHeaderSize (b.generator.fill (record.length - kHeaderSize)).1) sequence nowNs
            b.checksum,
          { b with generator := (b.generator.fill (record.length - kHeaderSize)).2 })) ∧
    (∀ (state : RandomState) (avx2 : Bool) (sizes : List Nat) (last : Nat), (∀ size ∈ sizes, 64 ∣ size) →
      (PayloadGenerator.random state avx2).fillPieces (sizes ++ [last]) =
        (PayloadGenerator.random state avx2).fill (sizes.sum + last)) := by
  constructor
  · intro b record sequence nowNs h
    have hfilled : overwrite record kHeaderSize (b.generator.fill (record.length - kHeaderSize)).1 =
        record.take kHeaderSize ++ (b.generator.fill (record.length - kHeaderSize)).1 := by
      have hlen := b.generator.length_fill (record.length - kHeaderSize)
      rw [overwrite, hlen, Nat.add_sub_cancel' h, List.drop_length, List.append_nil]
    rw [b.build_eq_fill h, hfilled]
  · intro state avx2 sizes last h
    exact PayloadGenerator.fillPieces_eq_fill _ h last

theorem build_is_fill_then_seal_one_byte :
    (PacketBuilder.mk (.sequential 9) .Crc32).build (List.replicate 33 0) 3 4 =
        (sealPacket (List.replicate 32 0 ++ [9]) 3 4 .Crc32, ⟨.sequential 10, .Crc32⟩) ∧
      (PayloadGenerator.random (Vector.replicate 4 (Vector.replicate 8 1)) false).fillPieces [64, 1] =
        (PayloadGenerator.random (Vector.replicate 4 (Vector.replicate 8 1)) false).fill 65 :=
  ⟨build_is_fill_then_seal.1 ⟨.sequential 9, .Crc32⟩ (List.replicate 33 0) 3 4 (by decide),
    build_is_fill_then_seal.2 (Vector.replicate 4 (Vector.replicate 8 1)) false [64] 1 (by decide)⟩

end ProducerConsumer
