import ProducerConsumer.RingSystem

/-!
# The invariant of the shared ring

All counters are positions of record boundaries in one infinite stream of records, taken modulo `2 ^ 64`: `head` is the
end of the committed records, `tail` the end of the released ones, the cached copies are older boundaries.  The records
in between lie framed in the data area, and the reserved slot lies in the free part after them.  Each operation of the
two ends has one lemma that says what it does in these terms; the steps of the system follow from it.
-/

namespace ProducerConsumer

open Mirrored Transition

/-! ### Stream positions -/

theorem streamPos_succ {recs : List (List U8)} {i : Nat} (h : i < recs.length) :
    streamPos recs (i + 1) = streamPos recs i + recordSize recs[i] := by
  rw [streamPos, List.take_succ_eq_append_getElem h, List.map_append, List.sum_append]
  simp [streamPos]

theorem streamPos_append (recs : List (List U8)) (r : List U8) {i : Nat} (h : i ≤ recs.length) :
    streamPos (recs ++ [r]) i = streamPos recs i := by
  rw [streamPos, streamPos, List.take_append_of_le_length h]

theorem streamPos_append_length (recs : List (List U8)) (r : List U8) :
    streamPos (recs ++ [r]) (recs.length + 1) = streamPos recs recs.length + recordSize r := by
  rw [streamPos_succ (by simp), streamPos_append recs r (Nat.le_refl _)]
  simp

theorem streamPos_mono (recs : List (List U8)) {i j : Nat} (h : i ≤ j) : streamPos recs i ≤ streamPos recs j := by
  obtain ⟨k, rfl⟩ := Nat.exists_eq_add_of_le h
  rw [streamPos, streamPos, List.take_add, List.map_append, List.sum_append]
  exact Nat.le_add_right _ _

/-- A record and its prefix lie between its position and the next one. -/
theorem streamPos_record_le (recs : List (List U8)) {i j : Nat} (h : i < recs.length) (hij : i < j) :
    streamPos recs i + recordSize recs[i] ≤ streamPos recs j := by
  rw [← streamPos_succ h]
  exact streamPos_mono recs hij

theorem counter_append (recs : List (List U8)) (r : List U8) {i : Nat} (h : i ≤ recs.length) :
    counter (recs ++ [r]) i = counter recs i := by
  rw [counter, counter, streamPos_append recs r h]

/-- The counters of the first `n + 1` boundaries do not change when a record is appended. -/
theorem counters_append (recs : List (List U8)) (r : List U8) {n : Nat} (h : n ≤ recs.length) :
    (List.range (n + 1)).map (counter (recs ++ [r])) = (List.range (n + 1)).map (counter recs) := by
  apply List.map_congr_left
  intro i hi
  exact counter_append recs r (by have := List.mem_range.1 hi; omega)

theorem counters_succ (recs : List (List U8)) (n : Nat) :
    (List.range (n + 1 + 1)).map (counter recs) = (List.range (n + 1)).map (counter recs) ++ [counter recs (n + 1)] := by
  rw [List.range_succ, List.map_append]
  rfl

theorem counters_getElem? (recs : List (List U8)) {n i : Nat} {v : U64}
    (h : ((List.range (n + 1)).map (counter recs))[i]? = some v) : i ≤ n ∧ v = counter recs i := by
  rw [List.getElem?_map] at h
  obtain ⟨j, hj, rfl⟩ := Option.map_eq_some_iff.1 h
  obtain ⟨hlt, rfl⟩ := List.getElem?_eq_some_iff.1 hj
  simp only [List.length_range] at hlt
  exact ⟨by omega, by simp⟩

/-- The difference of two counters that are not more than the capacity apart. -/
theorem Capacity.counter_sub_toNat (cap : Capacity) {recs : List (List U8)} {i j : Nat} (h : i ≤ j)
    (hroom : streamPos recs j ≤ streamPos recs i + cap.bytes) :
    (counter recs j - counter recs i).toNat = streamPos recs j - streamPos recs i := by
  have := cap.bytes_le
  have := streamPos_mono recs h
  exact counter_sub this (by omega)

/-- Boundaries not more than the capacity apart have different counters. -/
theorem Capacity.counter_eq_iff (cap : Capacity) {recs : List (List U8)} {i j : Nat} (h : i ≤ j)
    (hj : j ≤ recs.length) (hroom : streamPos recs j ≤ streamPos recs i + cap.bytes) :
    counter recs j = counter recs i ↔ j = i := by
  have := cap.bytes_le
  rw [counter, counter, counter_inj (streamPos_mono recs h) (by omega)]
  constructor
  · intro he
    by_contra hne
    have := streamPos_record_le recs (show i < recs.length by omega) (show i < j by omega)
    simp only [recordSize] at this
    omega
  · rintro rfl
    rfl

theorem counter_add (recs : List (List U8)) (i n : Nat) :
    counter recs i + BitVec.ofNat 64 n = BitVec.ofNat 64 (streamPos recs i + n) := by
  rw [counter, BitVec.ofNat_add]

/-! ### Records in the data area -/

/-- A framed record at the position `a`: the prefix has its length and the bytes after it are the record. -/
theorem read_frame {data : Memory U8} {a : Nat} {r : List U8} (h : data.read a (recordSize r) = frame r) :
    data.read a 4 = LittleEndian.bytes 4 r.length ∧ data.read (a + 4) r.length = r := by
  rw [recordSize, Memory.read_add, frame] at h
  exact List.append_inj h (by simp)

/-- Addresses in the mapping and stream positions denote the same cells. -/
theorem read_offset {data : Memory U8} {cap : Capacity} (h : data.capacity = cap.bytes) (a d n : Nat) :
    data.read (a % cap.bytes + d) n = data.read (a + d) n := by
  apply data.read_congr
  rw [h, Nat.add_mod, Nat.mod_mod, ← Nat.add_mod]

/-- The committed records from number `from` on lie in the data area. -/
def Framed (data : Memory U8) (recs : List (List U8)) (start : Nat) : Prop :=
  ∀ i (h : i < recs.length), start ≤ i → data.read (streamPos recs i) (recordSize recs[i]) = frame recs[i]

/-- Writes into the free part leave the records alone. -/
theorem Framed.write {data : Memory U8} {cap : Capacity} {recs : List (List U8)} {start a : Nat} {vs : List U8}
    (h : Framed data recs start) (hcap : data.capacity = cap.bytes) (ha : streamPos recs recs.length ≤ a)
    (hroom : a + vs.length ≤ streamPos recs start + cap.bytes) : Framed (data.write a vs) recs start := by
  intro i hi hstart
  rw [← h i hi hstart]
  have h1 := streamPos_record_le recs hi hi
  have h2 := streamPos_mono recs hstart
  exact data.read_write_outside (by omega) (by rw [hcap]; omega)

theorem Framed.set {data : Memory U8} {cap : Capacity} {recs : List (List U8)} {start a : Nat} {v : U8}
    (h : Framed data recs start) (hcap : data.capacity = cap.bytes) (ha : streamPos recs recs.length ≤ a)
    (hroom : a < streamPos recs start + cap.bytes) : Framed (data.set a v) recs start := by
  have hroom' : a + [v].length ≤ streamPos recs start + cap.bytes := hroom
  exact h.write hcap ha hroom'

theorem Framed.mono {data : Memory U8} {recs : List (List U8)} {i j : Nat} (h : Framed data recs i) (hij : i ≤ j) :
    Framed data recs j := fun k hk hjk => h k hk (Nat.le_trans hij hjk)

theorem Framed.append {data : Memory U8} {recs : List (List U8)} {r : List U8} {start : Nat}
    (h : Framed data recs start) (hr : data.read (streamPos recs recs.length) (recordSize r) = frame r) :
    Framed data (recs ++ [r]) start := by
  intro i hi hstart
  rw [List.length_append, List.length_singleton] at hi
  rw [streamPos_append recs r (by omega)]
  rcases Nat.lt_or_ge i recs.length with hlt | hge
  · rw [List.getElem_append_left hlt]
    exact h i hlt hstart
  · obtain rfl : i = recs.length := by omega
    simpa using hr

/-! ### The producer -/

/-- The private state of the producer: its `head` is the end of the committed records, its cached tail the boundary
number `seen`, and the committed records fit behind that. -/
structure RingProducer.Tracks (cap : Capacity) (recs : List (List U8)) (seen : Nat) (p : RingProducer) : Prop where
  capacity : p.capacity = cap.word
  mask : p.mask = cap.word - 1
  head : p.head = counter recs recs.length
  cachedTail : p.cachedTail = counter recs seen
  seen_le : seen ≤ recs.length
  room : streamPos recs recs.length ≤ streamPos recs seen + cap.bytes

/-- A reserved slot of `n` bytes: it lies in the free part and its prefix is written. -/
structure Reserved (cap : Capacity) (recs : List (List U8)) (seen : Nat) (data : Memory U8) (pending : U64)
    (slot : Span) (n : Nat) : Prop where
  short : n < 2 ^ 32
  fits : streamPos recs recs.length + (4 + n) ≤ streamPos recs seen + cap.bytes
  pending : pending = BitVec.ofNat 64 (4 + n)
  slot : slot = ⟨streamPos recs recs.length % cap.bytes + 4, n⟩
  length : data.read (streamPos recs recs.length) 4 = LittleEndian.bytes 4 n

theorem Reserved.mono {cap : Capacity} {recs : List (List U8)} {seen seen' : Nat} {data : Memory U8} {pending : U64}
    {sp : Span} {n : Nat} (h : Reserved cap recs seen data pending sp n) (hseen : seen ≤ seen') :
    Reserved cap recs seen' data pending sp n :=
  ⟨h.short, Nat.le_trans h.fits (Nat.add_le_add_right (streamPos_mono recs hseen) _), h.pending, h.slot, h.length⟩

theorem RingProducer.Tracks.refresh {cap : Capacity} {recs : List (List U8)} {seen load : Nat} {p : RingProducer}
    (h : p.Tracks cap recs seen) (hload : seen ≤ load) (hle : load ≤ recs.length) :
    { p with cachedTail := counter recs load }.Tracks cap recs load :=
  ⟨h.capacity, h.mask, h.head, rfl, hle, Nat.le_trans h.room (Nat.add_le_add_right (streamPos_mono recs hload) _)⟩

theorem RingProducer.lt_of_le_maxRecordSize {cap : Capacity} {p : RingProducer} (h : p.capacity = cap.word) {bytes : U64}
    (hsize : bytes ≤ p.maxRecordSize) : bytes.toNat < 2 ^ 32 := by
  have hmax := RingProducer.maxRecordSize_toNat h
  rw [BitVec.le_def, hmax] at hsize
  omega

theorem needed_toNat {bytes : U64} (hshort : bytes.toNat < 2 ^ 32) :
    (kRecordPrefixSize + bytes).toNat = 4 + bytes.toNat := by
  rw [BitVec.toNat_add, kRecordPrefixSize_toNat]
  omega

/-- The test for room is exact with any tail that is a boundary the records fit behind: the used size is the distance of
two boundaries, so the subtraction of the words is exact. -/
theorem RingProducer.Tracks.room_iff {cap : Capacity} {recs : List (List U8)} {seen : Nat} {p : RingProducer}
    (h : p.Tracks cap recs seen) {bytes : U64} (hshort : bytes.toNat < 2 ^ 32) :
    p.capacity - (p.head - p.cachedTail) < kRecordPrefixSize + bytes ↔
      streamPos recs seen + cap.bytes < streamPos recs recs.length + (4 + bytes.toNat) := by
  have hbytes := cap.bytes_le
  have hused : (p.head - p.cachedTail).toNat = streamPos recs recs.length - streamPos recs seen := by
    rw [h.head, h.cachedTail]
    exact cap.counter_sub_toNat h.seen_le h.room
  have hle := streamPos_mono recs h.seen_le
  have hroom := h.room
  rw [BitVec.lt_def, needed_toNat hshort, BitVec.toNat_sub, hused, h.capacity, cap.word_toNat]
  omega

/-- What `try_reserve` does when its load of the tail returns the boundary number `load`. -/
theorem RingProducer.Tracks.tryReserve {cap : Capacity} {recs : List (List U8)} {seen load : Nat} {p : RingProducer}
    (h : p.Tracks cap recs seen) (hload : seen ≤ load) (hle : load ≤ recs.length) (bytes : U64)
    {data : Memory U8} (hcap : data.capacity = cap.bytes) :
    (p.tryReserve (counter recs load) bytes).ring.Tracks cap recs
        (if (p.tryReserve (counter recs load) bytes).tailLoaded then load else seen) ∧
      ((p.tryReserve (counter recs load) bytes).slot = none ∧
          (p.tryReserve (counter recs load) bytes).store data = data ∧
          (p.tryReserve (counter recs load) bytes).ring.pending = p.pending ∨
        ∃ sp, (p.tryReserve (counter recs load) bytes).slot = some sp ∧
          (p.tryReserve (counter recs load) bytes).store data =
            data.write (streamPos recs recs.length) (LittleEndian.bytes 4 bytes.toNat) ∧
          Reserved cap recs (if (p.tryReserve (counter recs load) bytes).tailLoaded then load else seen)
            ((p.tryReserve (counter recs load) bytes).store data)
            (p.tryReserve (counter recs load) bytes).ring.pending sp bytes.toNat) := by
  obtain ⟨p', hp', hr⟩ := p.tryReserve_cases (counter recs load) bytes
  generalize (p.tryReserve (counter recs load) bytes).tailLoaded = loaded at hp' hr ⊢
  have ht : p'.Tracks cap recs (if loaded then load else seen) := by
    rcases hp' with ⟨rfl, rfl⟩ | ⟨rfl, rfl⟩
    · exact h
    · exact h.refresh hload hle
  have hpend : p'.pending = p.pending := by
    rcases hp' with ⟨-, rfl⟩ | ⟨-, rfl⟩ <;> rfl
  generalize (if loaded then load else seen) = seen' at ht ⊢
  rcases hr with ⟨hring, hpre, hslot⟩ | ⟨hsize, hroom, hr⟩
  · rw [hring, hslot, ReserveResult.store, hpre]
    exact ⟨ht, .inl ⟨rfl, rfl, hpend⟩⟩
  · have h4 := cap.four_le
    have hshort : bytes.toNat < 2 ^ 32 := RingProducer.lt_of_le_maxRecordSize h.capacity hsize
    have hfits : streamPos recs recs.length + (4 + bytes.toNat) ≤ streamPos recs seen' + cap.bytes := by
      rw [← BitVec.not_lt, ht.room_iff hshort] at hroom
      exact Nat.not_lt.1 hroom
    have hoff : (p'.head &&& p'.mask).toNat = streamPos recs recs.length % cap.bytes := by
      rw [ht.mask, ht.head, counter, cap.counter_offset]
    have hstore : (p'.place bytes (kRecordPrefixSize + bytes) loaded).store data =
        data.write (streamPos recs recs.length) (LittleEndian.bytes 4 bytes.toNat) := by
      -- the prefix is wide enough for a length that `max_record_size` allows
      simp only [RingProducer.place, ReserveResult.store, hoff]
      rw [BitVec.toNat_setWidth, Nat.mod_eq_of_lt hshort]
      exact data.write_congr _ (by rw [hcap, Nat.mod_mod])
    rw [hr]
    refine ⟨⟨ht.capacity, ht.mask, ht.head, ht.cachedTail, ht.seen_le, ht.room⟩, .inr ⟨_, rfl, hstore, ?_⟩⟩
    refine ⟨hshort, hfits, ?_, ?_, ?_⟩
    · have hlt : 4 + bytes.toNat < 2 ^ 64 := by omega
      apply BitVec.eq_of_toNat_eq
      simp only [RingProducer.place]
      rw [needed_toNat hshort, BitVec.toNat_ofNat, Nat.mod_eq_of_lt hlt]
    · simp only [hoff, kRecordPrefixSize_toNat]
    · rw [hstore]
      have hlen : (LittleEndian.bytes 4 bytes.toNat).length ≤ data.capacity := by
        rw [LittleEndian.length_bytes, hcap]
        exact h4
      have := data.read_write (streamPos recs recs.length) hlen
      rwa [LittleEndian.length_bytes] at this

/-- The value stored by `commit` is the end of the committed records, the new one included. -/
theorem RingProducer.Tracks.commit {cap : Capacity} {recs : List (List U8)} {seen n : Nat} {p : RingProducer}
    {data : Memory U8} {sp : Span} (h : p.Tracks cap recs seen) (hcap : data.capacity = cap.bytes)
    (hres : Reserved cap recs seen data p.pending sp n) :
    p.commit.2 = some (counter (recs ++ [data.read sp.offset sp.size]) (recs.length + 1)) ∧
      p.commit.1.Tracks cap (recs ++ [data.read sp.offset sp.size]) seen ∧ p.commit.1.pending = 0 ∧
      data.read (streamPos recs recs.length) (recordSize (data.read sp.offset sp.size)) =
        frame (data.read sp.offset sp.size) ∧
      (data.read sp.offset sp.size).length < 2 ^ 32 := by
  have hshort := hres.short
  have hne : p.pending ≠ 0 := by
    rw [hres.pending]
    intro h0
    have := congrArg BitVec.toNat h0
    rw [BitVec.toNat_ofNat] at this
    simp at this
    omega
  have hread : data.read sp.offset sp.size = data.read (streamPos recs recs.length + 4) n := by
    rw [hres.slot]
    exact read_offset hcap _ _ _
  have hsize : recordSize (data.read sp.offset sp.size) = 4 + n := by
    rw [hread, recordSize, Memory.length_read]
  -- the record is what the slot holds now, and `head_` moves to its end
  have hhead : p.head + p.pending = counter (recs ++ [data.read sp.offset sp.size]) (recs.length + 1) := by
    rw [h.head, hres.pending, counter_add, counter, streamPos_append_length, hsize]
  unfold RingProducer.commit
  rw [if_neg hne]
  refine ⟨by rw [hhead], ⟨h.capacity, h.mask, ?_, ?_, ?_, ?_⟩, rfl, ?_, ?_⟩
  · simp only [List.length_append, List.length_singleton]
    exact hhead
  · exact h.cachedTail.trans (counter_append recs _ h.seen_le).symm
  · have := h.seen_le
    simp only [List.length_append]
    omega
  · rw [List.length_append, List.length_singleton, streamPos_append_length, hsize,
      streamPos_append recs _ h.seen_le]
    exact hres.fits
  · rw [hsize, Memory.read_add, hres.length, hread, frame, Memory.length_read]
  · rw [hread, Memory.length_read]
    exact hshort

theorem RingProducer.commit_of_none {p : RingProducer} (h : p.pending = 0) : p.commit = (p, none) := by
  rw [RingProducer.commit, if_pos h]

/-! ### The consumer -/

/-- The private state of a consumer: its tail is the boundary number `rel`, its cached head a boundary not before that
and not after number `seen`. -/
structure RingConsumer.Tracks (cap : Capacity) (recs : List (List U8)) (rel seen : Nat) (c : RingConsumer) : Prop where
  capacity : c.capacity = cap.word
  mask : c.mask = cap.word - 1
  corrupted : c.corrupted = false
  tail : c.tail = counter recs rel
  cachedHead : ∃ j, rel ≤ j ∧ j ≤ seen ∧ c.cachedHead = counter recs j ∧ (c.pending ≠ 0 → rel < j)

/-- The pending size of a consumer and its view: nothing, or the record number `rel`. -/
def Holds (cap : Capacity) (recs : List (List U8)) (rel : Nat) (pending : U64) (view : Option Span) : Prop :=
  pending = 0 ∧ view = none ∨
    ∃ r, recs[rel]? = some r ∧ pending = BitVec.ofNat 64 (recordSize r) ∧
      view = some ⟨streamPos recs rel % cap.bytes + 4, r.length⟩

theorem recordSize_toNat {r : List U8} (h : r.length < 2 ^ 32) :
    (BitVec.ofNat 64 (recordSize r)).toNat = recordSize r := by
  rw [BitVec.toNat_ofNat, Nat.mod_eq_of_lt (by simp only [recordSize]; omega)]

theorem recordSize_ne_zero {r : List U8} (h : r.length < 2 ^ 32) : BitVec.ofNat 64 (recordSize r) ≠ 0 := by
  intro h0
  have := recordSize_toNat h
  rw [h0] at this
  have h0' : (0 : U64).toNat = 0 := rfl
  simp only [recordSize] at this
  omega

/-- Reading a record that is framed in the data area, with the end of it shown by the cached head. -/
theorem RingConsumer.readRecord_framed {cap : Capacity} {recs : List (List U8)} {rel k : Nat} {c : RingConsumer}
    {data : Memory U8} (hcapacity : c.capacity = cap.word) (hmask : c.mask = cap.word - 1)
    (htail : c.tail = counter recs rel) (hhead : c.cachedHead = counter recs k) (hlt : rel < k)
    (hk : k ≤ recs.length) (hroom : streamPos recs k ≤ streamPos recs rel + cap.bytes)
    (hshort : ∀ r ∈ recs, r.length < 2 ^ 32) (hcap : data.capacity = cap.bytes) (hdata : Framed data recs rel)
    (loaded : Bool) :
    ∃ r, recs[rel]? = some r ∧ (c.readRecord data loaded).ring =
        { c with pending := BitVec.ofNat 64 (recordSize r) } ∧
      (c.readRecord data loaded).view = some ⟨streamPos recs rel % cap.bytes + 4, r.length⟩ := by
  have hrel : rel < recs.length := by omega
  have hlen := hshort _ (List.getElem_mem hrel)
  have hpos := streamPos_record_le recs hrel hlt
  have hoff : (c.tail &&& c.mask).toNat = streamPos recs rel % cap.bytes := by
    rw [hmask, htail, counter, cap.counter_offset]
  -- the prefix in the data area is the length of the record
  have hlength : BitVec.ofNat 32 (LittleEndian.value (data.read (c.tail &&& c.mask).toNat 4)) =
      BitVec.ofNat 32 recs[rel].length := by
    have hframe := (read_frame (hdata rel hrel (Nat.le_refl _))).1
    have hread := read_offset hcap (streamPos recs rel) 0 4
    simp only [Nat.add_zero] at hread
    rw [hoff, hread, hframe, LittleEndian.value_bytes_of_lt (by omega)]
  have hn : (BitVec.ofNat 32 recs[rel].length).toNat = recs[rel].length := by
    rw [BitVec.toNat_ofNat, Nat.mod_eq_of_lt hlen]
  have hrecord : kRecordPrefixSize + (BitVec.ofNat 32 recs[rel].length).setWidth 64 =
      BitVec.ofNat 64 (recordSize recs[rel]) := by
    apply BitVec.eq_of_toNat_eq
    rw [record_toNat, hn, recordSize_toNat hlen, recordSize]
  refine ⟨recs[rel], List.getElem?_eq_getElem hrel, ?_⟩
  unfold RingConsumer.readRecord
  dsimp only
  rw [hlength, hrecord, if_neg, hn, hoff]
  · exact ⟨rfl, rfl⟩
  · rw [not_or, BitVec.not_lt, BitVec.not_lt, BitVec.le_def, BitVec.le_def, recordSize_toNat hlen, htail, hhead,
      cap.counter_sub_toNat (Nat.le_of_lt hlt) hroom, hcapacity, cap.word_toNat]
    omega

/-- What `try_peek` does when its load of the head returns the boundary number `load`: it returns the oldest record not
yet released, and nothing only if `load` shows none. -/
theorem RingConsumer.Tracks.tryPeek {cap : Capacity} {recs : List (List U8)} {rel seen load : Nat} {c : RingConsumer}
    {view : Option Span} {data : Memory U8} (h : c.Tracks cap recs rel seen) (hold : Holds cap recs rel c.pending view)
    (hshort : ∀ r ∈ recs, r.length < 2 ^ 32) (hcap : data.capacity = cap.bytes) (hdata : Framed data recs rel)
    (hrel : rel ≤ seen) (hload : seen ≤ load) (hle : load ≤ recs.length)
    (hroom : streamPos recs recs.length ≤ streamPos recs rel + cap.bytes) :
    (c.tryPeek (counter recs load) data).ring.Tracks cap recs rel
        (if (c.tryPeek (counter recs load) data).headLoaded then load else seen) ∧
      Holds cap recs rel (c.tryPeek (counter recs load) data).ring.pending
        (c.tryPeek (counter recs load) data).view ∧
      (view.isSome → (c.tryPeek (counter recs load) data).view = view) ∧
      ((c.tryPeek (counter recs load) data).view = none →
        (c.tryPeek (counter recs load) data).headLoaded = true ∧ load = rel) := by
  have hoff : (c.tail &&& c.mask).toNat = streamPos recs rel % cap.bytes := by
    rw [h.mask, h.tail, counter, cap.counter_offset]
  rcases hold with ⟨hp, rfl⟩ | ⟨r, hr, hp, rfl⟩
  · obtain ⟨c', hc', hres⟩ := RingConsumer.tryPeek_cases h.corrupted hp (counter recs load) data
    generalize hl : (c.tryPeek (counter recs load) data).headLoaded = loaded at hc' hres ⊢
    obtain ⟨j, hrelj, hj, hcached, -⟩ := h.cachedHead
    -- the boundary shown by the cached head after the call, if it was refreshed
    obtain ⟨k, hrelk, hk, hcached', hload'⟩ : ∃ k, rel ≤ k ∧ k ≤ (if loaded then load else seen) ∧
        c'.cachedHead = counter recs k ∧ (loaded = true → k = load) := by
      rcases hc' with ⟨rfl, rfl, -⟩ | ⟨rfl, rfl, -⟩
      · exact ⟨j, hrelj, hj, hcached, by simp⟩
      · exact ⟨load, by omega, Nat.le_refl _, rfl, fun _ => rfl⟩
    have hkle : k ≤ recs.length := by
      split at hk <;> omega
    have hroomk : streamPos recs k ≤ streamPos recs rel + cap.bytes :=
      Nat.le_trans (streamPos_mono recs hkle) hroom
    have hsame : c'.tail = c.tail ∧ c'.mask = c.mask ∧ c'.capacity = c.capacity ∧ c'.pending = 0 ∧
        c'.corrupted = false := by
      rcases hc' with ⟨-, rfl, -⟩ | ⟨-, rfl, -⟩
      · exact ⟨rfl, rfl, rfl, hp, h.corrupted⟩
      · exact ⟨rfl, rfl, rfl, hp, h.corrupted⟩
    obtain ⟨htail', hmask', hcap', hp', hcor'⟩ := hsame
    have hiff : c'.cachedHead = c'.tail ↔ k = rel := by
      rw [hcached', htail', h.tail]
      exact cap.counter_eq_iff hrelk hkle hroomk
    rcases hres with ⟨hempty, hres⟩ | ⟨hsome, hres⟩
    · rw [hres] at hl ⊢
      subst hl
      exact ⟨⟨hcap'.trans h.capacity, hmask'.trans h.mask, hcor', htail'.trans h.tail, k, hrelk, hk, hcached',
        fun hne => absurd hp' hne⟩, .inl ⟨hp', rfl⟩, by simp, fun _ => ⟨rfl, (hload' rfl).symm.trans (hiff.1 hempty)⟩⟩
    · have hne : k ≠ rel := fun hk => hsome (hiff.2 hk)
      obtain ⟨r, hr, hring, hview⟩ := RingConsumer.readRecord_framed (hcap'.trans h.capacity) (hmask'.trans h.mask)
        (htail'.trans h.tail) hcached' (by omega) hkle hroomk hshort hcap hdata loaded
      rw [hres, hring, hview]
      exact ⟨⟨hcap'.trans h.capacity, hmask'.trans h.mask, hcor', htail'.trans h.tail, k, hrelk, hk, hcached',
        fun _ => by omega⟩, .inr ⟨r, hr, rfl, rfl⟩, by simp, by simp⟩
  · have hlt := hshort r (List.mem_of_getElem? hr)
    have hne := recordSize_ne_zero hlt
    -- a record that is held is returned again, whatever `head` is by now
    have hsize : (c.pending - kRecordPrefixSize).toNat = r.length := by
      have := recordSize_toNat hlt
      rw [hp, BitVec.toNat_sub, this, kRecordPrefixSize_toNat]
      simp only [recordSize]
      omega
    rw [RingConsumer.tryPeek_of_pending h.corrupted (by rw [hp]; exact hne), hoff, hsize]
    exact ⟨h, .inr ⟨r, hr, hp, rfl⟩, fun _ => rfl, by simp⟩

/-- `release` of a consumer that holds nothing does nothing. -/
theorem RingConsumer.release_of_none {c : RingConsumer} (h : c.pending = 0) : c.release = (c, none) := by
  rw [RingConsumer.release, if_pos h]

/-- The value stored by `release` is the end of the record that was held. -/
theorem RingConsumer.Tracks.release {cap : Capacity} {recs : List (List U8)} {rel seen : Nat} {c : RingConsumer}
    {r : List U8} (h : c.Tracks cap recs rel seen) (hr : recs[rel]? = some r) (hlen : r.length < 2 ^ 32)
    (hp : c.pending = BitVec.ofNat 64 (recordSize r)) :
    c.release.2 = some (counter recs (rel + 1)) ∧ c.release.1.Tracks cap recs (rel + 1) seen ∧
      c.release.1.pending = 0 := by
  obtain ⟨hrel, rfl⟩ := List.getElem?_eq_some_iff.1 hr
  have hne : c.pending ≠ 0 := by
    rw [hp]
    exact recordSize_ne_zero hlen
  obtain ⟨j, -, hj, hcached, hlt⟩ := h.cachedHead
  have htail : c.tail + c.pending = counter recs (rel + 1) := by
    rw [h.tail, hp, counter_add, counter, streamPos_succ hrel]
  rw [RingConsumer.release, if_neg hne]
  exact ⟨by rw [htail], ⟨h.capacity, h.mask, h.corrupted, htail, j, hlt hne, hj, hcached, fun h0 => absurd rfl h0⟩, rfl⟩

/-- A consumer built on a ring starts at the boundary number `rel`. -/
theorem RingConsumer.Tracks.new {cap : Capacity} {recs : List (List U8)} {rel load : Nat} (h : rel ≤ load) :
    (RingConsumer.new cap.word (counter recs rel) (counter recs load)).Tracks cap recs rel load :=
  ⟨rfl, rfl, rfl, rfl, load, h, Nat.le_refl _, rfl, fun h0 => absurd rfl h0⟩

theorem RingConsumer.Tracks.append {cap : Capacity} {recs : List (List U8)} {rel seen : Nat} {c : RingConsumer}
    (h : c.Tracks cap recs rel seen) (hseen : seen ≤ recs.length) (r : List U8) :
    c.Tracks cap (recs ++ [r]) rel seen := by
  obtain ⟨j, hrel, hj, hcached, hlt⟩ := h.cachedHead
  refine ⟨h.capacity, h.mask, h.corrupted, ?_, j, hrel, hj, ?_, hlt⟩
  · rw [h.tail, counter_append recs r (by omega)]
  · rw [hcached, counter_append recs r (by omega)]

theorem RingConsumer.Tracks.mono {cap : Capacity} {recs : List (List U8)} {rel seen load : Nat} {c : RingConsumer}
    (h : c.Tracks cap recs rel seen) (hload : seen ≤ load) : c.Tracks cap recs rel load := by
  obtain ⟨j, hrel, hj, hrest⟩ := h.cachedHead
  exact ⟨h.capacity, h.mask, h.corrupted, h.tail, j, hrel, Nat.le_trans hj hload, hrest⟩

theorem Holds.append {cap : Capacity} {recs : List (List U8)} {rel : Nat} {pending : U64} {view : Option Span}
    (h : Holds cap recs rel pending view) (r : List U8) (hrel : rel ≤ recs.length) :
    Holds cap (recs ++ [r]) rel pending view := by
  rcases h with h | ⟨x, hx, hp, hv⟩
  · exact .inl h
  · obtain ⟨hlt, -⟩ := List.getElem?_eq_some_iff.1 hx
    refine .inr ⟨x, ?_, hp, ?_⟩
    · rw [List.getElem?_append_left hlt, hx]
    · rw [hv, streamPos_append recs r hrel]

/-! ### The invariant -/

/-- What holds in each phase of a consumer. -/
def ConsumerPhase.Ok (cap : Capacity) (recs : List (List U8)) (rel seen : Nat) (view : Option Span) :
    ConsumerPhase → Prop
  | .attached c => c.Tracks cap recs rel seen ∧ Holds cap recs rel c.pending view
  | .tailLoaded tail => tail = counter recs rel ∧ view = none
  | .absent | .claimed | .detaching => view = none

/-- The reserved slot, if there is one. -/
def SlotOk (cap : Capacity) (recs : List (List U8)) (seen : Nat) (data : Memory U8) (pending : U64) (slot : Option Span) :
    Prop :=
  pending = 0 ∧ slot = none ∨ ∃ sp n, slot = some sp ∧ Reserved cap recs seen data pending sp n

/-- The bookkeeping of deliveries: a record is delivered to one consumer after another only if the first one crashed
while it held the record. -/
structure DeliveriesOk (consumer rel : Nat) (holding : Bool) (delivered abandoned : List (Nat × Nat)) : Prop where
  consumer_le : ∀ i n, (i, n) ∈ delivered → i ≤ consumer
  record_le : ∀ i n, (i, n) ∈ delivered → n ≤ rel
  current : ∀ i, (i, rel) ∈ delivered → (i, rel) ∈ abandoned ∨ i = consumer ∧ holding = true
  again : ∀ i j n, (i, n) ∈ delivered → (j, n) ∈ delivered → i < j → (i, n) ∈ abandoned

theorem DeliveriesOk.deliver {consumer rel : Nat} {holding : Bool} {delivered abandoned : List (Nat × Nat)}
    (h : DeliveriesOk consumer rel holding delivered abandoned) :
    DeliveriesOk consumer rel true (delivered ++ [(consumer, rel)]) abandoned := by
  constructor
  · intro i n hin
    rcases List.mem_append.1 hin with hin | hin
    · exact h.consumer_le i n hin
    · cases List.mem_singleton.1 hin
      exact Nat.le_refl _
  · intro i n hin
    rcases List.mem_append.1 hin with hin | hin
    · exact h.record_le i n hin
    · cases List.mem_singleton.1 hin
      exact Nat.le_refl _
  · intro i hin
    rcases List.mem_append.1 hin with hin | hin
    · exact (h.current i hin).imp id fun hi => ⟨hi.1, rfl⟩
    · cases List.mem_singleton.1 hin
      exact .inr ⟨rfl, rfl⟩
  · intro i j n hi hj hij
    rcases List.mem_append.1 hi with hi | hi
    · rcases List.mem_append.1 hj with hj | hj
      · exact h.again i j n hi hj hij
      · cases List.mem_singleton.1 hj
        exact (h.current i hi).resolve_right fun he => by omega
    · cases List.mem_singleton.1 hi
      have hle : j ≤ consumer := by
        rcases List.mem_append.1 hj with hj | hj
        · exact h.consumer_le j _ hj
        · cases List.mem_singleton.1 hj
          exact Nat.le_refl _
      omega

/-- The record that was held is released, so it is not delivered again. -/
theorem DeliveriesOk.release {consumer rel : Nat} {holding : Bool} {delivered abandoned : List (Nat × Nat)}
    (h : DeliveriesOk consumer rel holding delivered abandoned) :
    DeliveriesOk consumer (rel + 1) false delivered abandoned := by
  refine ⟨h.consumer_le, fun i n hin => Nat.le_succ_of_le (h.record_le i n hin), ?_, h.again⟩
  intro i hin
  have := h.record_le i _ hin
  omega

theorem DeliveriesOk.claim {consumer rel : Nat} {delivered abandoned : List (Nat × Nat)}
    (h : DeliveriesOk consumer rel false delivered abandoned) :
    DeliveriesOk (consumer + 1) rel false delivered abandoned :=
  ⟨fun i n hin => Nat.le_succ_of_le (h.consumer_le i n hin), h.record_le,
    fun i hin => (h.current i hin).imp id fun hi => by simp at hi, h.again⟩

/-- A consumer crashes while it holds a record. -/
theorem DeliveriesOk.abandon {consumer rel : Nat} {holding : Bool} {delivered abandoned : List (Nat × Nat)}
    (h : DeliveriesOk consumer rel holding delivered abandoned) :
    DeliveriesOk consumer rel false delivered (abandoned ++ [(consumer, rel)]) := by
  refine ⟨h.consumer_le, h.record_le, ?_, fun i j n hi hj hij => List.mem_append_left _ (h.again i j n hi hj hij)⟩
  intro i hin
  left
  rcases h.current i hin with hin | ⟨rfl, -⟩
  · exact List.mem_append_left _ hin
  · exact List.mem_append_right _ (List.mem_singleton.2 rfl)

structure SharedRing.Inv (cap : Capacity) (s : SharedRing) : Prop where
  capacity : s.data.capacity = cap.bytes
  short : ∀ r ∈ s.committed, r.length < 2 ^ 32
  heads : s.headStores = (List.range (s.committed.length + 1)).map (counter s.committed)
  tails : s.tailStores = (List.range (s.released.length + 1)).map (counter s.committed)
  tailSeen_le : s.tailSeen ≤ s.released.length
  released_le : s.released.length ≤ s.headSeen
  headSeen_le : s.headSeen ≤ s.committed.length
  producer : s.producer.Tracks cap s.committed s.tailSeen
  slot : SlotOk cap s.committed s.tailSeen s.data s.producer.pending s.slot
  framed : Framed s.data s.committed s.released.length
  consumer : s.consumer.Ok cap s.committed s.released.length s.headSeen s.view
  deliveries : DeliveriesOk s.consumerId s.released.length s.view.isSome s.delivered s.abandoned

namespace SharedRing

variable {cap : Capacity} {s : SharedRing}

theorem Inv.room (h : s.Inv cap) :
    streamPos s.committed s.committed.length ≤ streamPos s.committed s.released.length + cap.bytes :=
  Nat.le_trans h.producer.room (Nat.add_le_add_right (streamPos_mono _ h.tailSeen_le) _)

theorem Inv.headLoad (h : s.Inv cap) {load : Nat} {head : U64} (hl : s.headLoad load = some head) :
    s.headSeen ≤ load ∧ load ≤ s.committed.length ∧ head = counter s.committed load := by
  unfold SharedRing.headLoad at hl
  split at hl
  · rw [h.heads] at hl
    exact ⟨by assumption, counters_getElem? _ hl⟩
  · simp at hl

theorem Inv.tailLoad (h : s.Inv cap) {load : Nat} {tail : U64} (hl : s.tailLoad load = some tail) :
    s.tailSeen ≤ load ∧ load ≤ s.released.length ∧ tail = counter s.committed load := by
  unfold SharedRing.tailLoad at hl
  split at hl
  · rw [h.tails] at hl
    exact ⟨by assumption, counters_getElem? _ hl⟩
  · simp at hl

theorem Inv.init (h : s.Initial cap) : s.Inv cap := by
  obtain ⟨hcap, hs⟩ := h
  rw [hs]
  refine ⟨hcap, by simp, rfl, rfl, Nat.le_refl _, Nat.le_refl _, Nat.le_refl _, ?_, .inl ⟨rfl, rfl⟩, ?_, rfl, ?_⟩
  · exact ⟨rfl, rfl, rfl, rfl, Nat.le_refl _, Nat.le_add_right _ _⟩
  · intro i hi
    simp at hi
  · constructor <;> simp

/-! ### Steps of the producer -/

theorem Inv.doReserve (h : s.Inv cap) {bytes tail : U64} {load : Nat} (hl : s.tailLoad load = some tail) :
    (s.doReserve bytes tail load).Inv cap := by
  obtain ⟨hseen, hload, rfl⟩ := h.tailLoad hl
  have hle := Nat.le_trans hload (Nat.le_trans h.released_le h.headSeen_le)
  obtain ⟨htracks, hres⟩ := h.producer.tryReserve hseen hle bytes h.capacity
  unfold SharedRing.doReserve
  dsimp only
  generalize s.producer.tryReserve (counter s.committed load) bytes = r at htracks hres ⊢
  have hseen' : s.tailSeen ≤ (if r.tailLoaded then load else s.tailSeen) ∧
      (if r.tailLoaded then load else s.tailSeen) ≤ s.released.length := by
    have := h.tailSeen_le
    split <;> omega
  generalize (if r.tailLoaded then load else s.tailSeen) = seen' at htracks hres hseen' ⊢
  rcases hres with ⟨hslot, hstore, hpend⟩ | ⟨sp, hslot, hstore, hres⟩
  -- a call that fails keeps an earlier reservation
  · have hslot' : SlotOk cap s.committed seen' s.data r.ring.pending s.slot := by
      rw [hpend]
      rcases h.slot with h0 | ⟨sp, n, hsp, hn⟩
      · exact .inl h0
      · exact .inr ⟨sp, n, hsp, hn.mono hseen'.1⟩
    rw [hslot, hstore]
    exact ⟨h.capacity, h.short, h.heads, h.tails, hseen'.2, h.released_le, h.headSeen_le, htracks, hslot', h.framed,
      h.consumer, h.deliveries⟩
  · have hframed : Framed (r.store s.data) s.committed s.released.length := by
      have hfits := hres.fits
      have hmono := streamPos_mono s.committed hseen'.2
      rw [hstore]
      exact h.framed.write h.capacity (Nat.le_refl _) (by rw [LittleEndian.length_bytes]; omega)
    have hcap : (r.store s.data).capacity = cap.bytes := by
      rw [hstore, Memory.write_capacity, h.capacity]
    rw [hslot]
    exact ⟨hcap, h.short, h.heads, h.tails, hseen'.2, h.released_le, h.headSeen_le, htracks,
      .inr ⟨sp, _, rfl, hres⟩, hframed, h.consumer, h.deliveries⟩

/-- The cells of the reserved slot, as stream positions. -/
theorem Inv.slot_room (h : s.Inv cap) {sp : Span} (hsp : s.slot = some sp) :
    ∃ n, Reserved cap s.committed s.tailSeen s.data s.producer.pending sp n ∧ sp.size = n ∧
      streamPos s.committed s.committed.length + (4 + n) ≤ streamPos s.committed s.released.length + cap.bytes := by
  rcases h.slot with ⟨-, h0⟩ | ⟨sp', n, hsp', hn⟩
  · rw [h0] at hsp
    cases hsp
  · rw [hsp'] at hsp
    cases hsp
    have hmono := streamPos_mono s.committed h.tailSeen_le
    have hfits := hn.fits
    exact ⟨n, hn, by rw [hn.slot], by omega⟩

theorem Inv.writeSlot (h : s.Inv cap) {sp : Span} (hsp : s.slot = some sp) {i : Nat} (hi : i < sp.size) (byte : U8) :
    (s.doWrite sp i byte).Inv cap := by
  obtain ⟨n, hn, hsize, hroom⟩ := h.slot_room hsp
  have haddr : s.data.set (sp.offset + i) byte =
      s.data.set (streamPos s.committed s.committed.length + 4 + i) byte := by
    apply Memory.set_congr
    rw [hn.slot, h.capacity]
    simp only [Nat.add_assoc, Nat.mod_add_mod]
  rw [SharedRing.doWrite, haddr]
  have hframed : Framed (s.data.set (streamPos s.committed s.committed.length + 4 + i) byte) s.committed
      s.released.length :=
    h.framed.set h.capacity (by omega) (by omega)
  have hslot : SlotOk cap s.committed s.tailSeen
      (s.data.set (streamPos s.committed s.committed.length + 4 + i) byte) s.producer.pending s.slot := by
    refine .inr ⟨sp, n, hsp, hn.short, hn.fits, hn.pending, hn.slot, ?_⟩
    rw [← hn.length]
    have := cap.bytes_pos
    have := streamPos_mono s.committed (show s.released.length ≤ s.committed.length from
      Nat.le_trans h.released_le h.headSeen_le)
    exact Memory.read_set_outside _ (by omega) (by rw [h.capacity]; omega)
  exact ⟨h.capacity, h.short, h.heads, h.tails, h.tailSeen_le, h.released_le, h.headSeen_le, h.producer, hslot, hframed,
    h.consumer, h.deliveries⟩

theorem Inv.doCommit (h : s.Inv cap) : s.doCommit.Inv cap := by
  have hrel := Nat.le_trans h.released_le h.headSeen_le
  rcases h.slot with ⟨hp, hslot⟩ | ⟨sp, n, hslot, hres⟩
  · have hsame : s.doCommit = s := by
      unfold SharedRing.doCommit
      rw [RingProducer.commit_of_none hp, hslot]
      simp only [Option.toList_none, Option.map_none, List.append_nil]
      rw [← hslot]
    rw [hsame]
    exact h
  · obtain ⟨hstore, htracks, hpend, hframe, hlen⟩ := h.producer.commit h.capacity hres
    unfold SharedRing.doCommit
    rw [hslot]
    dsimp only
    rw [hstore, Option.map_some, Option.toList_some, Option.toList_some, SharedRing.readSpan]
    generalize s.data.read sp.offset sp.size = r at htracks hframe hlen ⊢
    refine ⟨h.capacity, ?_, ?_, ?_, h.tailSeen_le, h.released_le, ?_, htracks, .inl ⟨hpend, rfl⟩, ?_, ?_, h.deliveries⟩
    · intro x hx
      rcases List.mem_append.1 hx with hx | hx
      · exact h.short x hx
      · rw [List.mem_singleton.1 hx]
        exact hlen
    · simp only [List.length_append, List.length_singleton]
      rw [counters_succ, counters_append s.committed r (Nat.le_refl _), h.heads]
    · simp only
      rw [counters_append s.committed r hrel, h.tails]
    · simp only [List.length_append, List.length_singleton]
      exact Nat.le_succ_of_le h.headSeen_le
    · exact h.framed.append hframe
    · have hc := h.consumer
      simp only
      cases hcons : s.consumer with
      | attached c =>
        rw [hcons] at hc
        exact ⟨hc.1.append h.headSeen_le r, hc.2.append r hrel⟩
      | tailLoaded tail =>
        rw [hcons] at hc
        exact ⟨hc.1.trans (counter_append s.committed r hrel).symm, hc.2⟩
      | _ =>
        rw [hcons] at hc
        exact hc

/-! ### Steps of the consumer -/

theorem Inv.doPeek (h : s.Inv cap) {c : RingConsumer} (hc : s.consumer = .attached c) {head : U64} {load : Nat}
    (hl : s.headLoad load = some head) : (s.doPeek c head load).Inv cap := by
  obtain ⟨hseen, hload, rfl⟩ := h.headLoad hl
  have hcons := h.consumer
  rw [hc] at hcons
  obtain ⟨htracks, hholds, hagain, -⟩ := hcons.1.tryPeek hcons.2 h.short h.capacity h.framed h.released_le hseen hload h.room
  unfold SharedRing.doPeek
  dsimp only
  generalize c.tryPeek (counter s.committed load) s.data = r at htracks hholds hagain ⊢
  have hseen' : s.released.length ≤ (if r.headLoaded then load else s.headSeen) ∧
      (if r.headLoaded then load else s.headSeen) ≤ s.committed.length := by
    have h1 := h.released_le
    have h2 := h.headSeen_le
    split <;> omega
  generalize (if r.headLoaded then load else s.headSeen) = seen' at htracks hseen' ⊢
  refine ⟨h.capacity, h.short, h.heads, h.tails, h.tailSeen_le, hseen'.1, hseen'.2, h.producer, h.slot, h.framed,
    ⟨htracks, hholds⟩, ?_⟩
  have hd := h.deliveries
  cases hview : r.view with
  | none =>
    have hnone : s.view.isSome = false := by
      cases hs : s.view with
      | none => rfl
      | some sp =>
        have := hagain (by rw [hs]; rfl)
        rw [hview, hs] at this
        cases this
    rw [hnone] at hd
    exact hd
  | some sp =>
    simp only [Option.isSome_some, if_true]
    exact hd.deliver

theorem Inv.doRelease (h : s.Inv cap) {c : RingConsumer} (hc : s.consumer = .attached c)
    {next : RingConsumer → ConsumerPhase}
    (hnext : ∀ c rel, c.Tracks cap s.committed rel s.headSeen → c.pending = 0 →
      (next c).Ok cap s.committed rel s.headSeen none) : (s.doRelease c next).Inv cap := by
  have hcons := h.consumer
  rw [hc] at hcons
  obtain ⟨htracks, ⟨hp, hview⟩ | ⟨r, hr, hp, hview⟩⟩ := hcons
  · have hd := h.deliveries
    rw [hview] at hd
    unfold SharedRing.doRelease
    rw [RingConsumer.release_of_none hp, hview]
    simp only [Option.toList_none, Option.map_none, List.append_nil]
    exact ⟨h.capacity, h.short, h.heads, h.tails, h.tailSeen_le, h.released_le, h.headSeen_le, h.producer, h.slot,
      h.framed, hnext c _ htracks hp, hd⟩
  · have hlen := h.short r (List.mem_of_getElem? hr)
    obtain ⟨hstore, htracks', hpend⟩ := htracks.release hr hlen hp
    obtain ⟨j, -, hj, -, hlt⟩ := htracks.cachedHead
    have hrel : s.released.length < s.headSeen :=
      Nat.lt_of_lt_of_le (hlt (by rw [hp]; exact recordSize_ne_zero hlen)) hj
    have hd := h.deliveries.release
    unfold SharedRing.doRelease
    dsimp only
    rw [hstore, hview, Option.map_some, Option.toList_some, Option.toList_some]
    generalize s.readSpan ⟨streamPos s.committed s.released.length % cap.bytes + 4, r.length⟩ = x
    refine ⟨h.capacity, h.short, h.heads, ?_, ?_, ?_, h.headSeen_le, h.producer, h.slot, ?_, ?_, ?_⟩
    · simp only [List.length_append, List.length_singleton]
      rw [counters_succ, h.tails]
    · simp only [List.length_append]
      exact Nat.le_add_right_of_le h.tailSeen_le
    · simp only [List.length_append, List.length_singleton]
      exact hrel
    · simp only [List.length_append, List.length_singleton]
      exact h.framed.mono (Nat.le_succ _)
    · simp only [List.length_append, List.length_singleton]
      exact hnext _ _ htracks' hpend
    · simp only [List.length_append, List.length_singleton]
      exact hd

theorem Inv.doCrash (h : s.Inv cap) : s.doCrash.Inv cap := by
  refine ⟨h.capacity, h.short, h.heads, h.tails, h.tailSeen_le, h.released_le, h.headSeen_le, h.producer, h.slot,
    h.framed, rfl, ?_⟩
  have hd := h.deliveries
  unfold SharedRing.doCrash
  cases hview : s.view with
  | none =>
    rw [hview] at hd
    exact hd
  | some sp =>
    simp only [Option.isSome_some, if_true]
    exact hd.abandon

theorem Inv.view_of_phase (h : s.Inv cap) (hc : ∀ c, s.consumer ≠ .attached c) : s.view = none := by
  have hcons := h.consumer
  cases hphase : s.consumer with
  | attached c => exact absurd hphase (hc c)
  | tailLoaded tail =>
    rw [hphase] at hcons
    exact hcons.2
  | _ =>
    rw [hphase] at hcons
    exact hcons

/-- Every step keeps the invariant. -/
theorem Inv.step (h : s.Inv cap) {a : RingAction} {t : SharedRing} (hs : s.step cap a = some t) : t.Inv cap := by
  cases StepSpec.of_step hs with
  | tryReserve hl => exact h.doReserve hl
  | writeSlot hsp hi => exact h.writeSlot hsp hi _
  | commit => exact h.doCommit
  | claim hc =>
    have hview := h.view_of_phase (by simp [hc])
    have hd := h.deliveries
    rw [hview] at hd
    refine ⟨h.capacity, h.short, h.heads, h.tails, h.tailSeen_le, h.released_le, h.headSeen_le, h.producer, h.slot,
      h.framed, hview, ?_⟩
    simp only [hview]
    exact hd.claim
  | loadTail hc hl =>
    have hview := h.view_of_phase (by simp [hc])
    rw [h.tails, List.range_succ, List.map_append, List.map_singleton, List.getLast?_concat] at hl
    cases hl
    exact ⟨h.capacity, h.short, h.heads, h.tails, h.tailSeen_le, h.released_le, h.headSeen_le, h.producer, h.slot,
      h.framed, ⟨rfl, hview⟩, h.deliveries⟩
  | loadHead hc hl =>
    obtain ⟨hseen, hload, rfl⟩ := h.headLoad hl
    have hcons := h.consumer
    rw [hc] at hcons
    obtain ⟨rfl, hview⟩ := hcons
    have hrel := Nat.le_trans h.released_le hseen
    exact ⟨h.capacity, h.short, h.heads, h.tails, h.tailSeen_le, hrel, hload, h.producer, h.slot, h.framed,
      ⟨RingConsumer.Tracks.new hrel, .inl ⟨rfl, hview⟩⟩, h.deliveries⟩
  | tryPeek hc hl => exact h.doPeek hc hl
  | release hc => exact h.doRelease hc fun c rel ht hp => ⟨ht, .inl ⟨hp, rfl⟩⟩
  | observeHead hc hl =>
    obtain ⟨hseen, hload, -⟩ := h.headLoad hl
    have hcons := h.consumer
    rw [hc] at hcons
    refine ⟨h.capacity, h.short, h.heads, h.tails, h.tailSeen_le, Nat.le_trans h.released_le hseen, hload, h.producer,
      h.slot, h.framed, ?_, h.deliveries⟩
    simp only [SharedRing.doObserve, hc]
    exact ⟨hcons.1.mono hseen, hcons.2⟩
  | disconnect hc => exact h.doRelease hc fun c rel ht hp => rfl
  | clearSlot hc =>
    have hview := h.view_of_phase (by simp [hc])
    exact ⟨h.capacity, h.short, h.heads, h.tails, h.tailSeen_le, h.released_le, h.headSeen_le, h.producer, h.slot,
      h.framed, hview, h.deliveries⟩
  | crash => exact h.doCrash

theorem Inv.of_reachable (h : (ringMachine cap).Reachable s) : s.Inv cap := by
  refine Machine.Reachable.invariant (I := SharedRing.Inv cap) (fun _ hs => Inv.init hs) ?_ h
  intro s a t hi hs
  exact hi.step hs

end SharedRing

end ProducerConsumer
