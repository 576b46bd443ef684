import ProducerConsumer.RingInvariant
import ProducerConsumer.Lib.Channel

/-!
# The ring is a channel

The shared ring refines the abstract channel: a commit sends the record in the slot, a release receives the record in
the view (`ring_refines_channel`).  What follows is the byte-exact delivery in order (`ring_is_fifo`) and the hand-over
from one consumer to the next (`ring_handover`).
-/

namespace ProducerConsumer

open Mirrored Transition

namespace SharedRing

variable {cap : Capacity} {s : SharedRing}

/-- The view of the consumer shows the oldest record not yet released. -/
theorem Inv.view_read (h : s.Inv cap) {sp : Span} (hsp : s.view = some sp) :
    s.committed[s.released.length]? = some (s.readSpan sp) ∧
      sp.offset = streamPos s.committed s.released.length % cap.bytes + 4 ∧
      streamPos s.committed s.released.length + (4 + sp.size) ≤ streamPos s.committed s.committed.length := by
  cases hc : s.consumer with
  | attached c =>
    have hcons := h.consumer
    rw [hc] at hcons
    rcases hcons.2 with ⟨-, hview⟩ | ⟨r, hr, -, hview⟩
    · rw [hview] at hsp
      cases hsp
    · rw [hview] at hsp
      cases hsp
      obtain ⟨hlt, rfl⟩ := List.getElem?_eq_some_iff.1 hr
      have hread := (read_frame (h.framed _ hlt (Nat.le_refl _))).2
      refine ⟨?_, rfl, streamPos_record_le _ hlt hlt⟩
      rw [hr, SharedRing.readSpan, read_offset h.capacity, hread]
  | _ =>
    rw [h.view_of_phase (by simp [hc])] at hsp
    cases hsp

/-- A release receives the record in the view, if there is one. -/
theorem Inv.doRelease_sim (h : s.Inv cap) (c : RingConsumer) (next : RingConsumer → ConsumerPhase) :
    ∃ bs, (Channel.machine (List U8)).run ⟨s.committed, s.released⟩ bs =
      some ⟨(s.doRelease c next).committed, (s.doRelease c next).released⟩ := by
  cases hsp : s.view with
  | none => exact ⟨[], by simp [SharedRing.doRelease, hsp, Machine.run]⟩
  | some sp =>
    refine ⟨[.receive], ?_⟩
    rw [Channel.run_receive (s := ⟨s.committed, s.released⟩) (h.view_read hsp).1]
    simp [SharedRing.doRelease, hsp]

theorem Inv.doCommit_sim (s : SharedRing) :
    ∃ bs, (Channel.machine (List U8)).run ⟨s.committed, s.released⟩ bs =
      some ⟨s.doCommit.committed, s.doCommit.released⟩ := by
  cases hsp : s.slot with
  | none => exact ⟨[], by simp [SharedRing.doCommit, hsp, Machine.run]⟩
  | some sp =>
    refine ⟨[.send (s.readSpan sp)], ?_⟩
    rw [Channel.run_send]
    simp [SharedRing.doCommit, hsp]

end SharedRing

/-- Every step of the shared ring is a run of the channel: a commit sends, a release receives, the rest is invisible. -/
theorem ring_refines_channel (cap : Capacity) :
    Machine.Simulation (ringMachine cap) (Channel.machine (List U8)) (fun s => ⟨s.committed, s.released⟩)
      (SharedRing.Inv cap) where
  init s hs := by
    obtain ⟨-, hs⟩ := hs
    rw [hs]
    exact ⟨rfl, rfl⟩
  step s a t hi hs := by
    cases SharedRing.StepSpec.of_step hs with
    | commit => exact SharedRing.Inv.doCommit_sim s
    | release _ => exact hi.doRelease_sim _ _
    | disconnect _ => exact hi.doRelease_sim _ _
    | _ => exact ⟨[], rfl⟩

namespace SharedRing

variable {cap : Capacity} {s : SharedRing}

/-- The steps of the producer leave the side of the consumer as it is, and only append to the committed records. -/
theorem producer_step {a : RingAction} {t : SharedRing} (ha : a.ofProducer = true) (hs : s.step cap a = some t) :
    t.consumer = s.consumer ∧ t.view = s.view ∧ t.released = s.released ∧ s.committed <+: t.committed := by
  cases StepSpec.of_step hs with
  | tryReserve _ => exact ⟨rfl, rfl, rfl, List.prefix_refl _⟩
  | writeSlot _ _ => exact ⟨rfl, rfl, rfl, List.prefix_refl _⟩
  | commit => exact ⟨rfl, rfl, rfl, List.prefix_append _ _⟩
  | _ => simp [RingAction.ofProducer] at ha

/-- No step takes a committed record back. -/
theorem committed_grows {a : RingAction} {t : SharedRing} (hs : s.step cap a = some t) :
    s.committed <+: t.committed := by
  cases StepSpec.of_step hs with
  | commit => exact List.prefix_append _ _
  | _ => exact List.prefix_refl _

theorem Inv.peek_again (h : s.Inv cap) {sp : Span} (hsp : s.view = some sp) {load : Nat} {t : SharedRing}
    (hs : s.step cap (.tryPeek load) = some t) : t.view = some sp := by
  cases StepSpec.of_step hs with
  | tryPeek hc hl =>
    obtain ⟨hseen, hload, rfl⟩ := h.headLoad hl
    have hcons := h.consumer
    rw [hc] at hcons
    obtain ⟨-, -, hagain, -⟩ :=
      hcons.1.tryPeek hcons.2 h.short h.capacity h.framed h.released_le hseen hload h.room
    exact (hagain (by rw [hsp]; rfl)).trans hsp

/-- A record that is in the view stays there until it is released. -/
theorem Inv.view_step (h : s.Inv cap) {sp : Span} (hsp : s.view = some sp) {a : RingAction} (ha : a.endsView = false)
    {t : SharedRing} (hs : s.step cap a = some t) : t.view = some sp ∧ t.released = s.released := by
  cases StepSpec.of_step hs with
  | tryPeek _ _ => exact ⟨h.peek_again hsp hs, rfl⟩
  | release _ => cases ha
  | disconnect _ => cases ha
  | crash _ => cases ha
  | _ => exact ⟨hsp, rfl⟩

/-- The bytes of a view do not change until it is released. -/
theorem Inv.view_stable (h : s.Inv cap) {sp : Span} (hsp : s.view = some sp) {as : List RingAction} {t : SharedRing}
    (has : ∀ a ∈ as, a.endsView = false) (hr : (ringMachine cap).run s as = some t) :
    t.view = some sp ∧ t.readSpan sp = s.readSpan sp := by
  have hkeep : t.Inv cap ∧ t.view = some sp ∧ t.released = s.released ∧ s.committed <+: t.committed := by
    refine Machine.run_invariant
      (I := fun t => t.Inv cap ∧ t.view = some sp ∧ t.released = s.released ∧ s.committed <+: t.committed)
      ?_ has ⟨h, hsp, rfl, List.prefix_refl _⟩ hr
    rintro u a v ha ⟨hi, hview, hrel, hcom⟩ hs
    obtain ⟨hview', hrel'⟩ := hi.view_step hview ha hs
    exact ⟨hi.step hs, hview', hrel'.trans hrel, hcom.trans (committed_grows hs)⟩
  obtain ⟨hi, hview, hrel, ⟨rest, hcom⟩⟩ := hkeep
  refine ⟨hview, ?_⟩
  -- the view shows the same record of the stream before and after
  have hs := (h.view_read hsp).1
  have ht := (hi.view_read hview).1
  obtain ⟨hlt, -⟩ := List.getElem?_eq_some_iff.1 hs
  rw [hrel, ← hcom, List.getElem?_append_left hlt, hs] at ht
  exact (Option.some.inj ht).symm

/-- The steps of attaching leave the records as they are. -/
theorem attach_effect {a : RingAction} (ha : a = .claim ∨ a = .loadTail ∨ ∃ load, a = .loadHead load) {t : SharedRing}
    (hs : s.step cap a = some t) : t.committed = s.committed ∧ t.released = s.released ∧ t.view = s.view := by
  rcases ha with rfl | rfl | ⟨load, rfl⟩ <;> cases StepSpec.of_step hs <;> exact ⟨rfl, rfl, rfl⟩

/-- The reserved slot and the committed records, which only the producer changes. -/
structure SameSlot (s t : SharedRing) : Prop where
  data : t.data = s.data
  slot : t.slot = s.slot
  committed : t.committed = s.committed

theorem SameSlot.refl (s : SharedRing) : s.SameSlot s := ⟨rfl, rfl, rfl⟩

/-- The steps of the consumer leave the side of the producer as it is. -/
theorem consumer_step {a : RingAction} {t : SharedRing} (ha : a.ofProducer = false) (hs : s.step cap a = some t) :
    s.SameSlot t := by
  cases StepSpec.of_step hs with
  | tryReserve _ => cases ha
  | writeSlot _ _ => cases ha
  | commit => cases ha
  | _ => exact ⟨rfl, rfl, rfl⟩

/-- What a reservation does: if it succeeds the slot has the size that was asked for. -/
theorem Inv.tryReserve_effect (h : s.Inv cap) {bytes : U64} {load : Nat} {t : SharedRing}
    (hs : s.step cap (.tryReserve bytes load) = some t) (hslot : s.slot = none) :
    t.committed = s.committed ∧ ∀ sp, t.slot = some sp → sp.size = bytes.toNat := by
  cases StepSpec.of_step hs with
  | tryReserve hl =>
    obtain ⟨hseen, hload, rfl⟩ := h.tailLoad hl
    have hle := Nat.le_trans hload (Nat.le_trans h.released_le h.headSeen_le)
    obtain ⟨-, ⟨hnone, -, -⟩ | ⟨sp, hsome, -, hres⟩⟩ := h.producer.tryReserve hseen hle bytes h.capacity
    · refine ⟨rfl, fun sp hsp => ?_⟩
      simp [SharedRing.doReserve, hnone, hslot] at hsp
    · refine ⟨rfl, fun sp' hsp => ?_⟩
      have hsize : sp' = sp := by
        simp only [SharedRing.doReserve, hsome] at hsp
        exact (Option.some.inj hsp).symm
      rw [hsize, hres.slot]

/-- What a store to the slot does to its bytes. -/
theorem Inv.writeSlot_effect (h : s.Inv cap) {i : Nat} {byte : U8} {t : SharedRing}
    (hs : s.step cap (.writeSlot i byte) = some t) {sp : Span} (hsp : s.slot = some sp) :
    t.committed = s.committed ∧ t.slot = some sp ∧ t.readSpan sp = (s.readSpan sp).set i byte := by
  cases StepSpec.of_step hs with
  | writeSlot hsp' hi =>
    rw [hsp] at hsp'
    cases hsp'
    obtain ⟨n, hn, hsize, -⟩ := h.slot_room hsp
    have hfits := hn.fits
    have hmono := streamPos_mono s.committed (Nat.le_trans h.tailSeen_le (Nat.le_trans h.released_le h.headSeen_le))
    refine ⟨rfl, hsp, s.data.read_set_inside hi ?_⟩
    rw [h.capacity]
    omega

/-- What a commit does: the bytes in the slot are the last committed record. -/
theorem commit_effect {t : SharedRing} (hs : s.step cap .commit = some t) {sp : Span} (hsp : s.slot = some sp) :
    t.committed = s.committed ++ [s.readSpan sp] ∧ t.slot = none := by
  cases StepSpec.of_step hs with
  | commit => exact ⟨by simp [SharedRing.doCommit, hsp], rfl⟩

/-- What a release does: the record in the view is released. -/
theorem release_effect {t : SharedRing} (hs : s.step cap .release = some t) :
    t.committed = s.committed ∧ t.headSeen = s.headSeen ∧ t.view = none ∧
      t.released = s.released ++ (s.view.map s.readSpan).toList := by
  cases StepSpec.of_step hs with
  | release _ => exact ⟨rfl, rfl, rfl, rfl⟩

/-- What a peek does: it leaves the view empty only if the head it has seen is that of the released records. -/
theorem Inv.tryPeek_effect (h : s.Inv cap) {load : Nat} {t : SharedRing}
    (hs : s.step cap (.tryPeek load) = some t) :
    t.committed = s.committed ∧ t.released = s.released ∧ s.headSeen ≤ t.headSeen ∧
      (t.view = none → t.headSeen = s.released.length) := by
  cases StepSpec.of_step hs with
  | tryPeek hc hl =>
    obtain ⟨hseen, hload, rfl⟩ := h.headLoad hl
    have hcons := h.consumer
    rw [hc] at hcons
    obtain ⟨-, -, -, hempty⟩ :=
      hcons.1.tryPeek hcons.2 h.short h.capacity h.framed h.released_le hseen hload h.room
    refine ⟨rfl, rfl, ?_, fun hnone => ?_⟩
    · unfold SharedRing.doPeek
      dsimp only
      split
      · exact hseen
      · exact Nat.le_refl _
    · obtain ⟨hloaded, hrel⟩ := hempty hnone
      unfold SharedRing.doPeek
      dsimp only
      rw [if_pos hloaded, hrel]

/-- A load of `head` changes what has been observed and nothing else. -/
theorem Inv.observe_effect (h : s.Inv cap) {load : Nat} {t : SharedRing}
    (hs : s.step cap (.observeHead load) = some t) :
    t = s.doObserve load ∧ s.headSeen ≤ load ∧ load ≤ s.committed.length := by
  cases StepSpec.of_step hs with
  | observeHead _ hl =>
    obtain ⟨hseen, hload, -⟩ := h.headLoad hl
    exact ⟨rfl, hseen, hload⟩

theorem Inv.not_corrupted (h : s.Inv cap) {c : RingConsumer} (hc : s.consumer = .attached c) : c.corrupted = false := by
  have hcons := h.consumer
  rw [hc] at hcons
  exact hcons.1.corrupted

/-- A view and the reserved slot have no cell in common. -/
theorem Inv.view_slot_disjoint (h : s.Inv cap) {sp sl : Span} (hsp : s.view = some sp) (hsl : s.slot = some sl) {i j : Nat}
    (hi : i < sp.size) (hj : j < sl.size) : (sp.offset + i) % cap.bytes ≠ (sl.offset + j) % cap.bytes := by
  obtain ⟨-, hoff, hle⟩ := h.view_read hsp
  obtain ⟨n, hn, hsize, hroom⟩ := h.slot_room hsl
  rw [hoff, hn.slot]
  simp only [Nat.add_assoc, Nat.mod_add_mod]
  exact Memory.mod_ne (by omega) (by omega)

end SharedRing

/-- The released records are an initial part of the committed ones. -/
theorem SharedRing.released_prefix {cap : Capacity} {s : SharedRing} (h : (ringMachine cap).Reachable s) :
    s.released <+: s.committed :=
  Channel.received_prefix ((ring_refines_channel cap).reachable (fun _ => SharedRing.Inv.of_reachable) h)

/-- With the record in the view, too. -/
theorem SharedRing.peeked_prefix {cap : Capacity} {s : SharedRing} (h : (ringMachine cap).Reachable s) :
    s.released ++ (s.view.map s.readSpan).toList <+: s.committed := by
  obtain ⟨rest, hrest⟩ := SharedRing.released_prefix h
  cases hsp : s.view with
  | none =>
    rw [Option.map_none, Option.toList_none, List.append_nil]
    exact ⟨rest, hrest⟩
  | some sp =>
    have hread := ((SharedRing.Inv.of_reachable h).view_read hsp).1
    rw [← hrest, List.getElem?_append_right (Nat.le_refl _), Nat.sub_self] at hread
    cases rest with
    | nil => cases hread
    | cons r rest =>
      cases hread
      exact ⟨rest, by rw [← hrest, List.append_assoc]; rfl⟩

/-- The ring is a byte-exact queue under every interleaving of its two sides and arbitrarily late loads of the counters:
(a) the released records are an initial part of the committed ones; (b) a view shows the oldest committed record that
is not yet released, and keeps its place and its bytes until it is released, whatever else either side does, repeated
calls of `try_peek` included; (c) nothing of the reserved slot is in a view. -/
theorem ring_is_fifo (cap : Capacity) {s : SharedRing} (h : (ringMachine cap).Reachable s) :
    s.released <+: s.committed ∧
    (∀ sp, s.view = some sp → s.committed[s.released.length]? = some (s.readSpan sp) ∧
      ∀ as t, (∀ a ∈ as, a.endsView = false) → (ringMachine cap).run s as = some t →
        t.view = some sp ∧ t.readSpan sp = s.readSpan sp) ∧
    (∀ sp sl i j, s.view = some sp → s.slot = some sl → i < sp.size → j < sl.size →
      (sp.offset + i) % cap.bytes ≠ (sl.offset + j) % cap.bytes) := by
  have hi := SharedRing.Inv.of_reachable h
  refine ⟨SharedRing.released_prefix h, ?_, ?_⟩
  · intro sp hsp
    exact ⟨(hi.view_read hsp).1, fun as t has hr => hi.view_stable hsp has hr⟩
  · intro sp sl i j hsp hsl hi' hj'
    exact hi.view_slot_disjoint hsp hsl hi' hj'

theorem ring_is_fifo_two_bytes : ∃ s,
    (ringMachine capacity16).run (.fresh capacity16) [.claim, .loadTail, .loadHead 0, .tryReserve 2 0, .writeSlot 0 7,
        .writeSlot 1 8, .commit, .tryPeek 1] = some s ∧
      s.view = some ⟨4, 2⟩ ∧ s.committed[s.released.length]? = some (s.readSpan ⟨4, 2⟩) := by
  have h (s : SharedRing) (hr : (ringMachine capacity16).run (.fresh capacity16) [.claim, .loadTail, .loadHead 0,
      .tryReserve 2 0, .writeSlot 0 7, .writeSlot 1 8, .commit, .tryPeek 1] = some s) :=
    ring_is_fifo capacity16 ((Machine.Reachable.init (SharedRing.fresh_initial _)).run hr)
  exact ⟨_, rfl, rfl, ((h _ rfl).2.1 _ rfl).1⟩

/-- Between successive consumers nothing is lost, duplicated or misaligned: every value ever stored to a counter is a
record boundary; an attached consumer stands at the oldest record not yet released and never finds the ring corrupted;
the records released by all consumers together are an initial part of the committed ones; a record is delivered to a
second consumer only if the first one crashed holding it. -/
theorem ring_handover (cap : Capacity) {s : SharedRing} (h : (ringMachine cap).Reachable s) :
    (∀ v ∈ s.headStores ++ s.tailStores, ∃ i ≤ s.committed.length, v = counter s.committed i) ∧
    (∀ c, s.consumer = .attached c → c.corrupted = false ∧ c.tail = counter s.committed s.released.length) ∧
    s.released <+: s.committed ∧
    (∀ i j n, (i, n) ∈ s.delivered → (j, n) ∈ s.delivered → i < j → (i, n) ∈ s.abandoned) := by
  have hi := SharedRing.Inv.of_reachable h
  refine ⟨?_, ?_, SharedRing.released_prefix h, hi.deliveries.again⟩
  · intro v hv
    have hle := Nat.le_trans hi.released_le hi.headSeen_le
    rw [hi.heads, hi.tails, List.mem_append, List.mem_map, List.mem_map] at hv
    rcases hv with ⟨i, hmem, rfl⟩ | ⟨i, hmem, rfl⟩
    · exact ⟨i, by have := List.mem_range.1 hmem; omega, rfl⟩
    · exact ⟨i, by have := List.mem_range.1 hmem; omega, rfl⟩
  · intro c hc
    have hcons := hi.consumer
    rw [hc] at hcons
    exact ⟨hcons.1.corrupted, hcons.1.tail⟩

/-- The first consumer crashes with the record in its hands, the second one gets it again. -/
theorem ring_handover_crash : ∃ s,
    (ringMachine capacity16).run (.fresh capacity16) [.claim, .loadTail, .loadHead 0, .tryReserve 2 0, .commit,
        .tryPeek 1, .crash, .claim, .loadTail, .loadHead 1, .tryPeek 1] = some s ∧
      s.delivered = [(1, 0), (2, 0)] ∧ (1, 0) ∈ s.abandoned := by
  have h (s : SharedRing) (hr : (ringMachine capacity16).run (.fresh capacity16) [.claim, .loadTail, .loadHead 0,
      .tryReserve 2 0, .commit, .tryPeek 1, .crash, .claim, .loadTail, .loadHead 1, .tryPeek 1] = some s) :=
    ring_handover capacity16 ((Machine.Reachable.init (SharedRing.fresh_initial _)).run hr)
  exact ⟨_, rfl, rfl, (h _ rfl).2.2.2 1 2 0 (List.mem_cons_self ..) (by decide) (by decide)⟩

end ProducerConsumer
