import ProducerConsumer.Ring
import ProducerConsumer.Lib.Machine

/-!
# The ring on hostile shared memory

The two ends of the ring run on a region that another party rewrites: between any two operations `head`, `tail` and
the data bytes may take any values.  The private state of the ends keeps every access inside the double mapping
(`hostile_ends_in_bounds`), whatever the loaded counters and length prefixes are.
-/

namespace ProducerConsumer

open Mirrored Transition

/-- The two ends and the memory they share.  `touched` are the prefixes read or written and the views and slots
returned so far, `tailStores` the values the consumer has stored to `tail`. -/
structure HostileRing where
  head : U64
  tail : U64
  data : Memory U8
  producer : RingProducer
  consumer : RingConsumer
  touched : List Span
  tailStores : List U64

inductive HostileAction
  | tryReserve (bytes : U64)
  | commit
  | tryPeek
  | release
  | interfere (head tail : U64) (cells : Nat → U8)

namespace HostileRing

/-- What `try_peek` returns now. -/
def peek (s : HostileRing) : PeekResult := s.consumer.tryPeek s.head s.data

def reserve (s : HostileRing) (bytes : U64) : ReserveResult := s.producer.tryReserve s.tail bytes

/-- The range of the copy of a length prefix. -/
def prefixSpan (w : Nat × U32) : Span := ⟨w.1, 4⟩

def step (s : HostileRing) : HostileAction → HostileRing
  | .tryReserve bytes =>
    let r := s.reserve bytes
    { s with
      producer := r.ring
      data := r.store s.data
      touched := s.touched ++ (r.prefixWrite.map prefixSpan).toList ++ r.slot.toList }
  | .commit =>
    let (ring, store) := s.producer.commit
    { s with producer := ring, head := store.getD s.head }
  | .tryPeek =>
    let r := s.peek
    { s with consumer := r.ring, touched := s.touched ++ r.prefixRead.toList ++ r.view.toList }
  | .release =>
    let (ring, store) := s.consumer.release
    { s with consumer := ring, tail := store.getD s.tail, tailStores := s.tailStores ++ store.toList }
  | .interfere head tail cells => { s with head := head, tail := tail, data := { s.data with cells := cells } }

/-- Both ends are built on a region with this capacity, from whatever the counters are at that moment. -/
def Initial (cap : Capacity) (s : HostileRing) : Prop :=
  s.data.capacity = cap.bytes ∧ s.touched = [] ∧ s.tailStores = [] ∧
    (∃ head tail, s.producer = RingProducer.new cap.word head tail) ∧
    ∃ tail head, s.consumer = RingConsumer.new cap.word tail head

/-- Both ends on a zeroed region. -/
def fresh (cap : Capacity) : HostileRing :=
  ⟨0, 0, ⟨cap.bytes, cap.bytes_pos, fun _ => 0⟩, RingProducer.new cap.word 0 0, RingConsumer.new cap.word 0 0, [], []⟩

theorem fresh_initial (cap : Capacity) : (fresh cap).Initial cap := ⟨rfl, rfl, rfl, ⟨0, 0, rfl⟩, ⟨0, 0, rfl⟩⟩

end HostileRing

def hostileMachine (cap : Capacity) : Machine HostileRing HostileAction where
  init := HostileRing.Initial cap
  step s a := some (s.step a)

/-- Inside the two copies of the data area. -/
def Span.InMirror (cap : Capacity) (sp : Span) : Prop := sp.offset + sp.size ≤ 2 * cap.bytes

/-! ### The private state of the ends -/

/-- What holds of a consumer whatever it loads. -/
structure RingConsumer.Sane (cap : Capacity) (c : RingConsumer) : Prop where
  capacity : c.capacity = cap.word
  mask : c.mask = cap.word - 1
  pending_le : c.pending.toNat ≤ cap.bytes
  pending_ge : c.pending = 0 ∨ 4 ≤ c.pending.toNat
  corrupted : c.corrupted = true → c.pending = 0

structure RingProducer.Sane (cap : Capacity) (p : RingProducer) : Prop where
  capacity : p.capacity = cap.word
  mask : p.mask = cap.word - 1

/-- A record that is placed lies inside the mirror, and so does its prefix. -/
theorem RingProducer.Sane.tryReserve {cap : Capacity} {p : RingProducer} (h : p.Sane cap) (tail bytes : U64) :
    (p.tryReserve tail bytes).ring.Sane cap ∧
      (∀ w, (p.tryReserve tail bytes).prefixWrite = some w → (HostileRing.prefixSpan w).InMirror cap) ∧
      ∀ sp, (p.tryReserve tail bytes).slot = some sp → sp.InMirror cap := by
  obtain ⟨p', hp', hr⟩ := p.tryReserve_cases tail bytes
  have hs : p'.Sane cap := by
    rcases hp' with ⟨-, rfl⟩ | ⟨-, rfl⟩
    · exact h
    · exact ⟨h.capacity, h.mask⟩
  rcases hr with ⟨hring, hpre, hslot⟩ | ⟨hsize, -, hr⟩
  · rw [hring, hpre, hslot]
    exact ⟨hs, by simp, by simp⟩
  · have hoff := cap.and_mask_lt p'.head
    have hmax := RingProducer.maxRecordSize_toNat h.capacity
    have h4 := cap.four_le
    rw [BitVec.le_def] at hsize
    rw [hr, RingProducer.place]
    refine ⟨⟨hs.capacity, hs.mask⟩, ?_, ?_⟩
    · rintro w hw
      cases hw
      simp only [HostileRing.prefixSpan, Span.InMirror, hs.mask]
      omega
    · rintro sp hsp
      cases hsp
      simp only [Span.InMirror, hs.mask, kRecordPrefixSize_toNat]
      omega

/-- Reading a record either flags the ring or returns a view inside the mirror, whatever the prefix says. -/
theorem RingConsumer.Sane.readRecord {cap : Capacity} {c : RingConsumer} (h : c.Sane cap)
    (hc : c.corrupted = false) (hp : c.pending = 0) (data : Memory U8) (b : Bool) :
    (c.readRecord data b).ring.Sane cap ∧
      (∀ sp, (c.readRecord data b).prefixRead = some sp → sp.InMirror cap) ∧
      ∀ sp, (c.readRecord data b).view = some sp → sp.InMirror cap ∧
        (c.readRecord data b).ring.corrupted = false ∧
        (c.readRecord data b).ring.pending ≠ 0 ∧
        sp.offset = ((c.readRecord data b).ring.tail &&& (c.readRecord data b).ring.mask).toNat + 4 ∧
        sp.size = ((c.readRecord data b).ring.pending - kRecordPrefixSize).toNat := by
  have hoff := cap.and_mask_lt c.tail
  have h4 := cap.four_le
  have hbytes := cap.bytes_le
  have hprefix : (⟨(c.tail &&& c.mask).toNat, 4⟩ : Span).InMirror cap := by
    simp only [Span.InMirror, h.mask]
    omega
  unfold RingConsumer.readRecord
  dsimp only
  generalize hlen : BitVec.ofNat 32 (LittleEndian.value (data.read (c.tail &&& c.mask).toNat 4)) = length
  have hrec := record_toNat length
  split
  · exact ⟨⟨h.capacity, h.mask, h.pending_le, h.pending_ge, fun _ => hp⟩, by simpa using hprefix, by simp⟩
  · rename_i hfit
    simp only [not_or, BitVec.not_lt, BitVec.le_def, h.capacity, hrec, cap.word_toNat] at hfit
    -- a length that passes both tests keeps the record within one capacity
    have hsize : ((kRecordPrefixSize + length.setWidth 64) - kRecordPrefixSize).toNat = length.toNat := by
      have := length.isLt
      rw [BitVec.toNat_sub, hrec, kRecordPrefixSize_toNat]
      omega
    have hne : kRecordPrefixSize + length.setWidth 64 ≠ 0 := by
      intro h0
      rw [h0] at hrec
      have : (0 : U64).toNat = 0 := rfl
      omega
    refine ⟨⟨h.capacity, h.mask, by rw [hrec]; exact hfit.2, .inr (by rw [hrec]; omega), ?_⟩, by simpa using hprefix, ?_⟩
    · intro hcor
      rw [hc] at hcor
      exact absurd hcor (by decide)
    · rintro sp hsp
      cases hsp
      refine ⟨?_, hc, hne, rfl, hsize.symm⟩
      simp only [Span.InMirror, h.mask, kRecordPrefixSize_toNat]
      omega

theorem RingConsumer.Sane.tryPeek {cap : Capacity} {c : RingConsumer} (h : c.Sane cap) (head : U64)
    (data : Memory U8) :
    (c.tryPeek head data).ring.Sane cap ∧
      (∀ sp, (c.tryPeek head data).prefixRead = some sp → sp.InMirror cap) ∧
      ∀ sp, (c.tryPeek head data).view = some sp → sp.InMirror cap ∧
        (c.tryPeek head data).ring.corrupted = false ∧
        (c.tryPeek head data).ring.pending ≠ 0 ∧
        sp.offset = ((c.tryPeek head data).ring.tail &&& (c.tryPeek head data).ring.mask).toNat + 4 ∧
        sp.size = ((c.tryPeek head data).ring.pending - kRecordPrefixSize).toNat := by
  cases hc : c.corrupted with
  | true =>
    rw [RingConsumer.tryPeek_of_corrupted hc]
    exact ⟨h, by simp, by simp⟩
  | false =>
    by_cases hp : c.pending = 0
    · obtain ⟨c', hc', hr⟩ := tryPeek_cases hc hp head data
      have hs : c'.Sane cap ∧ c'.corrupted = false ∧ c'.pending = 0 := by
        rcases hc' with ⟨-, rfl, -⟩ | ⟨-, rfl, -⟩
        · exact ⟨h, hc, hp⟩
        · exact ⟨⟨h.capacity, h.mask, h.pending_le, h.pending_ge, h.corrupted⟩, hc, hp⟩
      rcases hr with ⟨-, hr⟩ | ⟨-, hr⟩
      · rw [hr]
        exact ⟨hs.1, by simp, by simp⟩
      · rw [hr]
        exact hs.1.readRecord hs.2.1 hs.2.2 data _
    · have hoff := cap.and_mask_lt c.tail
      have hge := h.pending_ge.resolve_left hp
      have hle := h.pending_le
      -- the range comes from the private state; the prefix is not read again
      have hpend : (c.pending - kRecordPrefixSize).toNat = c.pending.toNat - 4 := by
        have := c.pending.isLt
        rw [BitVec.toNat_sub, kRecordPrefixSize_toNat]
        omega
      rw [RingConsumer.tryPeek_of_pending hc hp]
      refine ⟨h, by simp, ?_⟩
      rintro sp hsp
      cases hsp
      refine ⟨?_, hc, hp, rfl, rfl⟩
      simp only [Span.InMirror, h.mask, hpend, kRecordPrefixSize_toNat]
      omega

theorem RingConsumer.Sane.release {cap : Capacity} {c : RingConsumer} (h : c.Sane cap) :
    c.release.1.Sane cap ∧ (c.release.1.tail - c.tail).toNat ≤ cap.bytes := by
  unfold RingConsumer.release
  split
  · refine ⟨h, ?_⟩
    rw [BitVec.sub_self]
    exact Nat.zero_le _
  · refine ⟨⟨h.capacity, h.mask, Nat.zero_le _, .inl rfl, fun _ => rfl⟩, ?_⟩
    have : c.tail + c.pending - c.tail = c.pending := by
      rw [BitVec.add_comm, BitVec.add_sub_cancel]
    rw [this]
    exact h.pending_le

/-! ### Runs -/

/-- The invariant of a hostile run. -/
structure HostileRing.Inv (cap : Capacity) (s : HostileRing) : Prop where
  producer : s.producer.Sane cap
  consumer : s.consumer.Sane cap
  touched : ∀ sp ∈ s.touched, sp.InMirror cap

theorem HostileRing.Inv.init {cap : Capacity} {s : HostileRing} (h : s.Initial cap) : s.Inv cap := by
  obtain ⟨-, htouched, -, ⟨head, tail, hp⟩, ⟨tail', head', hc⟩⟩ := h
  refine ⟨?_, ?_, by simp [htouched]⟩
  · rw [hp]
    exact ⟨rfl, rfl⟩
  · rw [hc]
    exact ⟨rfl, rfl, Nat.zero_le _, .inl rfl, by simp [RingConsumer.new]⟩

theorem HostileRing.Inv.step {cap : Capacity} {s : HostileRing} (h : s.Inv cap) (a : HostileAction) :
    (s.step a).Inv cap := by
  cases a with
  | tryReserve bytes =>
    obtain ⟨hs, hpre, hslot⟩ := h.producer.tryReserve s.tail bytes
    refine ⟨hs, h.consumer, ?_⟩
    intro sp hsp
    simp only [HostileRing.step, HostileRing.reserve, List.mem_append, Option.mem_toList,
      Option.map_eq_some_iff] at hsp
    rcases hsp with (hsp | ⟨w, hw, rfl⟩) | hsp
    · exact h.touched sp hsp
    · exact hpre w hw
    · exact hslot sp hsp
  | commit =>
    refine ⟨?_, h.consumer, h.touched⟩
    simp only [HostileRing.step, RingProducer.commit]
    split
    · exact h.producer
    · exact ⟨h.producer.capacity, h.producer.mask⟩
  | tryPeek =>
    obtain ⟨hs, hpre, hview⟩ := h.consumer.tryPeek s.head s.data
    refine ⟨h.producer, hs, ?_⟩
    intro sp hsp
    simp only [HostileRing.step, HostileRing.peek, List.mem_append, Option.mem_toList] at hsp
    rcases hsp with (hsp | hsp) | hsp
    · exact h.touched sp hsp
    · exact hpre sp hsp
    · exact (hview sp hsp).1
  | release => exact ⟨h.producer, h.consumer.release.1, h.touched⟩
  | interfere head tail cells => exact ⟨h.producer, h.consumer, h.touched⟩

theorem HostileRing.Inv.of_reachable {cap : Capacity} {s : HostileRing} (h : (hostileMachine cap).Reachable s) :
    s.Inv cap := by
  refine Machine.Reachable.invariant (I := HostileRing.Inv cap) (fun _ hs => HostileRing.Inv.init hs) ?_ h
  rintro s a t hi hs
  cases hs
  exact hi.step a

/-- A consumer that holds a record keeps it, whatever else happens, until it releases it. -/
theorem HostileRing.step_of_pending {s : HostileRing} (hc : s.consumer.corrupted = false)
    (hp : s.consumer.pending ≠ 0) {a : HostileAction} (ha : a ≠ .release) : (s.step a).consumer = s.consumer := by
  cases a with
  | tryPeek =>
    rw [HostileRing.step, HostileRing.peek, RingConsumer.tryPeek_of_pending hc hp]
  | release => exact absurd rfl ha
  | _ => rfl

/-- A flagged ring is not touched again. -/
theorem HostileRing.step_of_corrupted {s : HostileRing} (hc : s.consumer.corrupted = true)
    (hp : s.consumer.pending = 0) (a : HostileAction) :
    (s.step a).consumer = s.consumer ∧ (s.step a).tailStores = s.tailStores := by
  cases a with
  | tryPeek =>
    rw [HostileRing.step, HostileRing.peek, RingConsumer.tryPeek_of_corrupted hc]
    exact ⟨rfl, rfl⟩
  | release => simp [HostileRing.step, RingConsumer.release, hp]
  | _ => exact ⟨rfl, rfl⟩

/-- On hostile memory every access of the two ends lies inside the mirrored range, a release advances `tail` by at most
the capacity, a record peeked twice has one range, and a corrupted ring is left alone for good. -/
theorem hostile_ends_in_bounds (cap : Capacity) {s : HostileRing} (h : (hostileMachine cap).Reachable s) :
    (∀ sp ∈ s.touched, sp.InMirror cap) ∧
    (s.consumer.release.1.tail - s.consumer.tail).toNat ≤ cap.bytes ∧
    (∀ sp, s.peek.view = some sp → ∀ as t, (∀ a ∈ as, a ≠ HostileAction.release) →
      (hostileMachine cap).run (s.step .tryPeek) as = some t → t.peek.view = some sp) ∧
    (s.consumer.corrupted = true → ∀ as t, (hostileMachine cap).run s as = some t →
      t.consumer.corrupted = true ∧ t.peek.view = none ∧ t.tailStores = s.tailStores) := by
  have hi := HostileRing.Inv.of_reachable h
  refine ⟨hi.touched, hi.consumer.release.2, ?_, ?_⟩
  · intro sp hsp as t has hrun
    obtain ⟨-, hc, hp, hoff, hsize⟩ := (hi.consumer.tryPeek s.head s.data).2.2 sp hsp
    have hkeep : t.consumer = s.peek.ring := by
      refine Machine.run_invariant (I := fun t => t.consumer = s.peek.ring) ?_ has rfl hrun
      rintro u a v ha hu hv
      cases hv
      rw [HostileRing.step_of_pending (by rw [hu]; exact hc) (by rw [hu]; exact hp) ha, hu]
    unfold HostileRing.peek at hkeep
    rw [HostileRing.peek, hkeep, RingConsumer.tryPeek_of_pending hc hp]
    simp only [Option.some.injEq]
    obtain ⟨o, n⟩ := sp
    simp only at hoff hsize
    rw [hoff, hsize]
    rfl
  · intro hc as t hrun
    have hp := hi.consumer.corrupted hc
    have hkeep : t.consumer = s.consumer ∧ t.tailStores = s.tailStores := by
      refine Machine.run_invariant (A := fun _ => True)
        (I := fun t => t.consumer = s.consumer ∧ t.tailStores = s.tailStores) ?_ (fun _ _ => trivial) ⟨rfl, rfl⟩ hrun
      rintro u a v - ⟨hu, hu'⟩ hv
      cases hv
      have := HostileRing.step_of_corrupted (by rw [hu]; exact hc) (by rw [hu]; exact hp) a
      exact ⟨this.1.trans hu, this.2.trans hu'⟩
    refine ⟨by rw [hkeep.1]; exact hc, ?_, hkeep.2⟩
    rw [HostileRing.peek, hkeep.1, RingConsumer.tryPeek_of_corrupted hc]

/-- A peeked record keeps its range when its prefix is rewritten. -/
theorem hostile_ends_in_bounds_rewritten : ∃ s,
    (hostileMachine capacity16).run (.fresh capacity16)
        [.interfere 12 5 fun _ => 0, .tryPeek, .interfere 12 5 fun _ => 255] = some s ∧
      s.touched = [⟨0, 4⟩, ⟨4, 0⟩] ∧ (∀ sp ∈ s.touched, sp.InMirror capacity16) ∧ s.peek.view = some ⟨4, 0⟩ := by
  have h (s : HostileRing) (hr : (hostileMachine capacity16).run (.fresh capacity16)
      [.interfere 12 5 fun _ => 0, .tryPeek, .interfere 12 5 fun _ => 255] = some s) :=
    hostile_ends_in_bounds capacity16 ((Machine.Reachable.init (HostileRing.fresh_initial _)).run hr)
  exact ⟨_, rfl, rfl, (h _ rfl).1, rfl⟩

end ProducerConsumer
