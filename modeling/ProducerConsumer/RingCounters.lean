import ProducerConsumer.RingFifo

/-!
# Full, empty and used

What the two ends decide from their cached counters is exact when each operation is one atomic step, that is, when its
load of the other counter returns the value stored last.  The conditions are stated for every state of the shared ring,
also for those that only late loads lead to, so the cached counters may be arbitrarily old before the operation.
-/

namespace ProducerConsumer

open Mirrored Transition

/-! ### The ends without a cache -/

/-- `try_reserve` with the tail loaded on every call. -/
def RingProducer.tryReserveReload (p : RingProducer) (tail bytes : U64) : ReserveResult :=
  if p.maxRecordSize < bytes then ⟨p, false, none, none⟩
  else
    let needed := kRecordPrefixSize + bytes
    let p := { p with cachedTail := tail }
    if p.capacity - (p.head - p.cachedTail) < needed then ⟨p, true, none, none⟩
    else p.place bytes needed true

/-- `try_peek` with the head loaded on every call that has no record pending. -/
def RingConsumer.tryPeekReload (c : RingConsumer) (head : U64) (data : Memory U8) : PeekResult :=
  if c.corrupted then ⟨c, false, none, none⟩
  else
    let offset := (c.tail &&& c.mask).toNat
    if c.pending ≠ 0 then
      ⟨c, false, none, some ⟨offset + kRecordPrefixSize.toNat, (c.pending - kRecordPrefixSize).toNat⟩⟩
    else
      let c := { c with cachedHead := head }
      if c.cachedHead = c.tail then ⟨c, true, none, none⟩ else c.readRecord data true

/-- The same answer, the same stores and, but for the cached tail, the same ring. -/
structure ReserveResult.Agrees (r r' : ReserveResult) : Prop where
  slot : r.slot = r'.slot
  prefixWrite : r.prefixWrite = r'.prefixWrite
  ring : ∀ tail, { r.ring with cachedTail := tail } = { r'.ring with cachedTail := tail }

/-- The same answer and, but for the cached head, the same ring. -/
structure PeekResult.Agrees (r r' : PeekResult) : Prop where
  view : r.view = r'.view
  ring : ∀ head, { r.ring with cachedHead := head } = { r'.ring with cachedHead := head }

/-! ### The producer -/

/-- The producer that has just loaded the boundary number `load` decides from that boundary alone. -/
theorem RingProducer.Tracks.tryReserveReload_none {cap : Capacity} {recs : List (List U8)} {seen load : Nat}
    {p : RingProducer} (h : p.Tracks cap recs seen) (hload : seen ≤ load) (hle : load ≤ recs.length) (bytes : U64) :
    (p.tryReserveReload (counter recs load) bytes).slot = none ↔
      p.maxRecordSize < bytes ∨ streamPos recs load + cap.bytes < streamPos recs recs.length + (4 + bytes.toNat) := by
  unfold RingProducer.tryReserveReload
  by_cases hsize : p.maxRecordSize < bytes
  · rw [if_pos hsize]
    exact ⟨fun _ => .inl hsize, fun _ => rfl⟩
  · have hshort := RingProducer.lt_of_le_maxRecordSize h.capacity (BitVec.not_lt.1 hsize)
    have hroom := (h.refresh hload hle).room_iff hshort
    rw [if_neg hsize]
    dsimp only at hroom ⊢
    by_cases hfull : p.capacity - (p.head - counter recs load) < kRecordPrefixSize + bytes
    · rw [if_pos hfull]
      exact ⟨fun _ => .inr (hroom.1 hfull), fun _ => rfl⟩
    · rw [if_neg hfull]
      constructor
      · intro hnone
        cases hnone
      · rintro (hbig | hbig)
        · exact absurd hbig hsize
        · exact absurd (hroom.2 hbig) hfull

/-- A stale tail only ever shows less room, so the call that trusts it when it shows enough decides as the reload. -/
theorem RingProducer.Tracks.tryReserve_agrees {cap : Capacity} {recs : List (List U8)} {seen load : Nat}
    {p : RingProducer} (h : p.Tracks cap recs seen) (hload : seen ≤ load) (hle : load ≤ recs.length) (bytes : U64) :
    (p.tryReserve (counter recs load) bytes).Agrees (p.tryReserveReload (counter recs load) bytes) := by
  unfold RingProducer.tryReserve RingProducer.tryReserveReload
  by_cases hsize : p.maxRecordSize < bytes
  · rw [if_pos hsize, if_pos hsize]
    exact ⟨rfl, rfl, fun _ => rfl⟩
  · have hshort := RingProducer.lt_of_le_maxRecordSize h.capacity (BitVec.not_lt.1 hsize)
    have hcached := h.room_iff hshort
    have hroom := (h.refresh hload hle).room_iff hshort
    have hmono := streamPos_mono recs hload
    rw [if_neg hsize, if_neg hsize]
    dsimp only at hroom ⊢
    by_cases hstale : p.capacity - (p.head - p.cachedTail) < kRecordPrefixSize + bytes
    · rw [if_pos hstale]
      exact ⟨rfl, rfl, fun _ => rfl⟩
    · have hfresh : ¬p.capacity - (p.head - counter recs load) < kRecordPrefixSize + bytes := by
        rw [hroom]
        rw [hcached] at hstale
        omega
      rw [if_neg hstale, if_neg hfresh]
      exact ⟨rfl, rfl, fun _ => rfl⟩

/-! ### The consumer -/

theorem RingConsumer.Tracks.tryPeek_agrees {cap : Capacity} {recs : List (List U8)} {rel seen load : Nat}
    {c : RingConsumer} {data : Memory U8} (h : c.Tracks cap recs rel seen)
    (hshort : ∀ r ∈ recs, r.length < 2 ^ 32) (hcap : data.capacity = cap.bytes) (hdata : Framed data recs rel)
    (hload : seen ≤ load) (hle : load ≤ recs.length)
    (hroom : streamPos recs recs.length ≤ streamPos recs rel + cap.bytes) :
    (c.tryPeek (counter recs load) data).Agrees (c.tryPeekReload (counter recs load) data) := by
  unfold RingConsumer.tryPeek RingConsumer.tryPeekReload
  have hcor : ¬c.corrupted = true := by simp [h.corrupted]
  rw [if_neg hcor, if_neg hcor]
  dsimp only
  by_cases hp : c.pending ≠ 0
  · rw [if_pos hp, if_pos hp]
    exact ⟨rfl, fun _ => rfl⟩
  · rw [if_neg hp, if_neg hp]
    by_cases hempty : c.cachedHead = c.tail
    · rw [if_pos hempty]
      exact ⟨rfl, fun _ => rfl⟩
    · -- the cached head shows a record, so does any later one, and both calls read the same record
      obtain ⟨j, hrelj, hj, hcached, -⟩ := h.cachedHead
      have hroomAt (k : Nat) (hk : k ≤ recs.length) : streamPos recs k ≤ streamPos recs rel + cap.bytes :=
        Nat.le_trans (streamPos_mono recs hk) hroom
      have hne : j ≠ rel := by
        rintro rfl
        exact hempty (hcached.trans h.tail.symm)
      have hsome : ¬counter recs load = c.tail := by
        rw [h.tail, cap.counter_eq_iff (by omega) hle (hroomAt _ hle)]
        omega
      rw [if_neg hempty, if_neg hsome]
      obtain ⟨r, hr, hring, hview⟩ := RingConsumer.readRecord_framed h.capacity h.mask h.tail hcached
        (show rel < j by omega) (by omega) (hroomAt _ (by omega)) hshort hcap hdata false
      obtain ⟨r', hr', hring', hview'⟩ := RingConsumer.readRecord_framed (c := { c with cachedHead := counter recs load })
        h.capacity h.mask h.tail rfl (show rel < load by omega) hle (hroomAt _ hle) hshort hcap hdata true
      obtain rfl : r = r' := Option.some.inj (hr.symm.trans hr')
      refine ⟨hview.trans hview'.symm, fun head => ?_⟩
      rw [hring, hring']

namespace SharedRing

/-! ### The counters of the control block -/

/-- The value of `control_.head`. -/
def controlHead (s : SharedRing) : U64 := s.headStores.getLastD 0

/-- The value of `control_.tail`. -/
def controlTail (s : SharedRing) : U64 := s.tailStores.getLastD 0

/-- The records committed and not released. -/
def unreleased (s : SharedRing) : List (List U8) := s.committed.drop s.released.length

def unreleasedBytes (s : SharedRing) : Nat := (s.unreleased.map recordSize).sum

variable {cap : Capacity} {s : SharedRing}

theorem Inv.released_le_committed (h : s.Inv cap) : s.released.length ≤ s.committed.length :=
  Nat.le_trans h.released_le h.headSeen_le

theorem Inv.controlHead (h : s.Inv cap) : s.controlHead = counter s.committed s.committed.length := by
  rw [SharedRing.controlHead, h.heads, List.range_succ, List.map_append, List.map_singleton, List.getLastD_concat]

theorem Inv.controlTail (h : s.Inv cap) : s.controlTail = counter s.committed s.released.length := by
  rw [SharedRing.controlTail, h.tails, List.range_succ, List.map_append, List.map_singleton, List.getLastD_concat]

theorem streamPos_unreleased (s : SharedRing) :
    streamPos s.committed s.committed.length = streamPos s.committed s.released.length + s.unreleasedBytes := by
  rw [unreleasedBytes, unreleased, streamPos, streamPos, ← List.sum_append, ← List.map_append, List.take_append_drop,
    List.take_length]

theorem Inv.unreleasedBytes_le (h : s.Inv cap) : s.unreleasedBytes ≤ cap.bytes := by
  have := h.room
  have := streamPos_unreleased s
  omega

/-- The difference of the two counters of the control block. -/
theorem Inv.counters_sub (h : s.Inv cap) :
    (counter s.committed s.committed.length - counter s.committed s.released.length).toNat = s.unreleasedBytes := by
  rw [cap.counter_sub_toNat h.released_le_committed h.room, streamPos_unreleased]
  exact Nat.add_sub_cancel_left ..

/-- With a tail that is read late `used` shows too much, but not more than there is. -/
theorem Inv.used_bounds (h : s.Inv cap) {load : Nat} {tail : U64} (hl : s.tailLoad load = some tail) :
    s.unreleasedBytes ≤ (s.producer.used tail).toNat ∧ (s.producer.used tail).toNat ≤ cap.bytes := by
  obtain ⟨hseen, hle, rfl⟩ := h.tailLoad hl
  have hroom : streamPos s.committed s.committed.length ≤ streamPos s.committed load + cap.bytes :=
    Nat.le_trans h.producer.room (Nat.add_le_add_right (streamPos_mono _ hseen) _)
  have hlate := streamPos_mono s.committed hle
  have hsplit := streamPos_unreleased s
  rw [RingProducer.used, h.producer.head, cap.counter_sub_toNat (Nat.le_trans hle h.released_le_committed) hroom]
  omega

theorem Inv.tryReserve_agrees (h : s.Inv cap) (n : U64) :
    (s.producer.tryReserve s.controlTail n).Agrees (s.producer.tryReserveReload s.controlTail n) := by
  rw [h.controlTail]
  exact h.producer.tryReserve_agrees h.tailSeen_le h.released_le_committed n

theorem Inv.tryReserve_none (h : s.Inv cap) (n : U64) :
    (s.producer.tryReserve s.controlTail n).slot = none ↔
      s.producer.maxRecordSize < n ∨ cap.bytes - s.unreleasedBytes < 4 + n.toNat := by
  rw [(h.tryReserve_agrees n).slot, h.controlTail,
    h.producer.tryReserveReload_none h.tailSeen_le h.released_le_committed, streamPos_unreleased]
  have := h.unreleasedBytes_le
  apply or_congr Iff.rfl
  omega

theorem Inv.tryPeek_agrees (h : s.Inv cap) {c : RingConsumer} (hc : s.consumer = .attached c) :
    (c.tryPeek s.controlHead s.data).Agrees (c.tryPeekReload s.controlHead s.data) := by
  have hcons := h.consumer
  rw [hc] at hcons
  rw [h.controlHead]
  exact hcons.1.tryPeek_agrees h.short h.capacity h.framed h.headSeen_le (Nat.le_refl _) h.room

theorem Inv.tryPeek_none (h : s.Inv cap) {c : RingConsumer} (hc : s.consumer = .attached c) :
    (c.tryPeek s.controlHead s.data).view = none ↔ s.unreleased = [] := by
  have hcons := h.consumer
  rw [hc] at hcons
  obtain ⟨-, hholds, -, hempty⟩ :=
    hcons.1.tryPeek hcons.2 h.short h.capacity h.framed h.released_le h.headSeen_le (Nat.le_refl _) h.room
  rw [← h.controlHead] at hholds hempty
  rw [unreleased, List.drop_eq_nil_iff]
  constructor
  · intro hnone
    exact Nat.le_of_eq (hempty hnone).2
  · intro hle
    rcases hholds with ⟨-, hview⟩ | ⟨r, hr, -⟩
    · exact hview
    · rw [List.getElem?_eq_none hle] at hr
      cases hr

end SharedRing

/-- Cached counters never cause a false full, a false empty or a stuck ring.  In every state of the shared ring, with
the operation taken as one atomic step: `try_reserve(n)` fails exactly if `n` exceeds `max_record_size()` or the record
does not fit beside the unreleased ones; `try_peek` fails exactly if there is no unreleased record; `used()` of both
sides is the size of the unreleased records, at most the capacity; both operations do what they would do with the
counter of the other side reloaded; and one of them succeeds. -/
theorem cached_counters_exact (cap : Capacity) {s : SharedRing} (h : (ringMachine cap).Reachable s) :
    (∀ n : U64, (s.producer.tryReserve s.controlTail n).slot = none ↔
      s.producer.maxRecordSize < n ∨ cap.bytes - s.unreleasedBytes < 4 + n.toNat) ∧
    (∀ n : U64, (s.producer.tryReserve s.controlTail n).Agrees (s.producer.tryReserveReload s.controlTail n)) ∧
    (s.producer.used s.controlTail).toNat = s.unreleasedBytes ∧ s.unreleasedBytes ≤ cap.bytes ∧
    ∀ c, s.consumer = .attached c →
      ((c.tryPeek s.controlHead s.data).view = none ↔ s.unreleased = []) ∧
      (c.tryPeek s.controlHead s.data).Agrees (c.tryPeekReload s.controlHead s.data) ∧
      (c.used s.controlHead).toNat = s.unreleasedBytes ∧
      ∀ n : U64, n ≤ s.producer.maxRecordSize →
        (s.producer.tryReserve s.controlTail n).slot ≠ none ∨ (c.tryPeek s.controlHead s.data).view ≠ none := by
  have hi := SharedRing.Inv.of_reachable h
  refine ⟨hi.tryReserve_none, hi.tryReserve_agrees, ?_, hi.unreleasedBytes_le, fun c hc => ?_⟩
  · rw [RingProducer.used, hi.producer.head, hi.controlTail, hi.counters_sub]
  · refine ⟨hi.tryPeek_none hc, hi.tryPeek_agrees hc, ?_, fun n hn => ?_⟩
    · have hcons := hi.consumer
      rw [hc] at hcons
      rw [RingConsumer.used, hcons.1.tail, hi.controlHead, hi.counters_sub]
    · by_contra hstuck
      rw [not_or, not_not, not_not, hi.tryPeek_none hc, hi.tryReserve_none] at hstuck
      -- an empty ring has room for every record that is not too long
      obtain ⟨hfull, hempty⟩ := hstuck
      have hzero : s.unreleasedBytes = 0 := by rw [SharedRing.unreleasedBytes, hempty]; rfl
      have hmax := RingProducer.maxRecordSize_toNat hi.producer.capacity
      have h4 := cap.four_le
      rw [BitVec.le_def, hmax] at hn
      rcases hfull with hbig | hbig
      · rw [BitVec.lt_def, hmax] at hbig
        omega
      · omega

/-- A ring of 16 bytes that two records of 2 and 6 bytes fill exactly: no room, a record to peek. -/
theorem cached_counters_exact_full : ∃ s,
    (ringMachine capacity16).run (.fresh capacity16) [.claim, .loadTail, .loadHead 0, .tryReserve 2 0, .commit,
        .tryReserve 6 0, .commit] = some s ∧
      s.unreleasedBytes = 16 ∧ (s.producer.tryReserve s.controlTail 0).slot = none ∧
      ∀ c, s.consumer = .attached c → (c.tryPeek s.controlHead s.data).view ≠ none := by
  have h (s : SharedRing) (hr : (ringMachine capacity16).run (.fresh capacity16) [.claim, .loadTail, .loadHead 0,
      .tryReserve 2 0, .commit, .tryReserve 6 0, .commit] = some s) :=
    cached_counters_exact capacity16 ((Machine.Reachable.init (SharedRing.fresh_initial _)).run hr)
  refine ⟨_, rfl, by decide, ((h _ rfl).1 0).2 (.inr (by decide)), fun c hc => ?_⟩
  rw [Ne, ((h _ rfl).2.2.2.2 c hc).1]
  decide

end ProducerConsumer
