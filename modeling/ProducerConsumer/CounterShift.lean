import Mathlib.Data.BitVec
import Mathlib.Data.Nat.ModEq
import ProducerConsumer.RingSystem

/-!
# The ring does not see absolute counters

Adding a multiple of the capacity to every counter of a state commutes with every step: counters are only compared for
equality and subtracted, and offsets are masked.  A ring whose counters start anywhere, short of `2 ^ 64` too, therefore
behaves like one that starts at any other value with the same offset.
-/

namespace ProducerConsumer

/-! ### Shifted counters -/

def RingProducer.shift (p : RingProducer) (δ : U64) : RingProducer :=
  { p with head := p.head + δ, cachedTail := p.cachedTail + δ }

def RingConsumer.shift (c : RingConsumer) (δ : U64) : RingConsumer :=
  { c with tail := c.tail + δ, cachedHead := c.cachedHead + δ }

def ConsumerPhase.shift (δ : U64) : ConsumerPhase → ConsumerPhase
  | .tailLoaded tail => .tailLoaded (tail + δ)
  | .attached c => .attached (c.shift δ)
  | phase => phase

namespace SharedRing

def shift (s : SharedRing) (δ : U64) : SharedRing :=
  { s with
    headStores := s.headStores.map (· + δ)
    tailStores := s.tailStores.map (· + δ)
    producer := s.producer.shift δ
    consumer := s.consumer.shift δ }

/-- Both sides mask with the capacity. -/
structure Masked (cap : Capacity) (s : SharedRing) : Prop where
  producer : s.producer.mask = cap.word - 1
  consumer : ∀ c, s.consumer = .attached c → c.mask = cap.word - 1

end SharedRing

/-- A multiple of the capacity does not move an offset. -/
theorem Capacity.offset_add {cap : Capacity} {δ : U64} (hδ : cap.bytes ∣ δ.toNat) (x : U64) :
    (x + δ) &&& (cap.word - 1) = x &&& (cap.word - 1) := by
  apply BitVec.eq_of_toNat_eq
  rw [cap.and_mask, cap.and_mask, BitVec.toNat_add, Nat.mod_mod_of_dvd _ cap.bytes_dvd, Nat.add_mod,
    Nat.mod_eq_zero_of_dvd hδ, Nat.add_zero, Nat.mod_mod]

section

variable {cap : Capacity} {δ : U64}

theorem RingProducer.place_shift (hδ : cap.bytes ∣ δ.toNat) {p : RingProducer} (hp : p.mask = cap.word - 1)
    (bytes needed : U64) (loaded : Bool) :
    (p.shift δ).place bytes needed loaded
      = { p.place bytes needed loaded with ring := (p.place bytes needed loaded).ring.shift δ } := by
  simp only [place, shift, hp, cap.offset_add hδ]

theorem RingProducer.tryReserve_shift (hδ : cap.bytes ∣ δ.toNat) {p : RingProducer} (hp : p.mask = cap.word - 1)
    (tail bytes : U64) :
    (p.shift δ).tryReserve (tail + δ) bytes
      = { p.tryReserve tail bytes with ring := (p.tryReserve tail bytes).ring.shift δ } := by
  have hmax : (p.shift δ).maxRecordSize = p.maxRecordSize := rfl
  have hcached : (p.shift δ).capacity - ((p.shift δ).head - (p.shift δ).cachedTail)
      = p.capacity - (p.head - p.cachedTail) := by simp only [shift, add_sub_add_right_eq_sub]
  have hloaded : (p.shift δ).capacity - ((p.shift δ).head - (tail + δ)) = p.capacity - (p.head - tail) := by
    simp only [shift, add_sub_add_right_eq_sub]
  unfold tryReserve
  simp only [hmax, hcached, hloaded]
  split
  · rfl
  · split
    · split
      · rfl
      · exact place_shift hδ (p := { p with cachedTail := tail }) hp bytes _ true
    · exact place_shift hδ hp bytes _ false

theorem RingProducer.commit_shift (p : RingProducer) (δ : U64) :
    (p.shift δ).commit = (p.commit.1.shift δ, p.commit.2.map (· + δ)) := by
  have hpending : (p.shift δ).pending = p.pending := rfl
  simp only [commit, hpending]
  split
  · rfl
  · simp only [shift, Option.map_some, add_right_comm]

theorem RingConsumer.readRecord_shift (hδ : cap.bytes ∣ δ.toNat) {c : RingConsumer} (hc : c.mask = cap.word - 1)
    (data : Mirrored.Memory U8) (loaded : Bool) :
    (c.shift δ).readRecord data loaded
      = { c.readRecord data loaded with ring := (c.readRecord data loaded).ring.shift δ } := by
  simp only [readRecord, shift, hc, cap.offset_add hδ, add_sub_add_right_eq_sub]
  split <;> rfl

theorem RingConsumer.tryPeek_shift (hδ : cap.bytes ∣ δ.toNat) {c : RingConsumer} (hc : c.mask = cap.word - 1)
    (head : U64) (data : Mirrored.Memory U8) :
    (c.shift δ).tryPeek (head + δ) data
      = { c.tryPeek head data with ring := (c.tryPeek head data).ring.shift δ } := by
  have hoffset : (c.shift δ).tail &&& (c.shift δ).mask = c.tail &&& c.mask := by
    simp only [shift, hc, cap.offset_add hδ]
  have hcached : (c.shift δ).cachedHead = (c.shift δ).tail ↔ c.cachedHead = c.tail := add_left_inj δ
  have hloaded : head + δ = (c.shift δ).tail ↔ head = c.tail := add_left_inj δ
  have hsame : (c.shift δ).corrupted = c.corrupted ∧ (c.shift δ).pending = c.pending := ⟨rfl, rfl⟩
  unfold tryPeek
  simp only [hoffset, hcached, hloaded, hsame]
  split
  · rfl
  · split
    · rfl
    · split
      · split
        · rfl
        · exact readRecord_shift hδ (c := { c with cachedHead := head }) hc data true
      · exact readRecord_shift hδ hc data false

theorem RingProducer.used_shift (p : RingProducer) (δ tail : U64) : (p.shift δ).used (tail + δ) = p.used tail :=
  add_sub_add_right_eq_sub p.head tail δ

theorem RingConsumer.used_shift (c : RingConsumer) (δ head : U64) : (c.shift δ).used (head + δ) = c.used head :=
  add_sub_add_right_eq_sub head c.tail δ

theorem RingConsumer.release_shift (c : RingConsumer) (δ : U64) :
    (c.shift δ).release = (c.release.1.shift δ, c.release.2.map (· + δ)) := by
  have hpending : (c.shift δ).pending = c.pending := rfl
  simp only [release, hpending]
  split
  · rfl
  · simp only [shift, Option.map_some, add_right_comm]

end

/-! ### Masks -/

theorem RingProducer.tryReserve_mask (p : RingProducer) (tail bytes : U64) :
    (p.tryReserve tail bytes).ring.mask = p.mask := by
  unfold tryReserve
  dsimp only
  repeat' split
  all_goals rfl

theorem RingProducer.commit_mask (p : RingProducer) : p.commit.1.mask = p.mask := by
  unfold commit
  split <;> rfl

theorem RingConsumer.tryPeek_mask (c : RingConsumer) (head : U64) (data : Mirrored.Memory U8) :
    (c.tryPeek head data).ring.mask = c.mask := by
  unfold tryPeek readRecord
  dsimp only
  repeat' split
  all_goals rfl

theorem RingConsumer.release_mask (c : RingConsumer) : c.release.1.mask = c.mask := by
  unfold release
  split <;> rfl

namespace SharedRing

variable {cap : Capacity} {δ : U64} {s t : SharedRing} {a : RingAction}

theorem Masked.step (h : s.Masked cap) (hs : s.step cap a = some t) : t.Masked cap := by
  cases StepSpec.of_step hs with
  | tryReserve hload => exact ⟨(s.producer.tryReserve_mask _ _).trans h.producer, h.consumer⟩
  | writeSlot hslot hi => exact ⟨h.producer, h.consumer⟩
  | commit => exact ⟨s.producer.commit_mask.trans h.producer, h.consumer⟩
  | claim hc => exact ⟨h.producer, fun c hc => by cases hc⟩
  | loadTail hc htail => exact ⟨h.producer, fun c hc => by cases hc⟩
  | loadHead hc hhead => exact ⟨h.producer, fun c hc => by cases hc; rfl⟩
  | tryPeek hc hhead =>
    refine ⟨h.producer, fun c' hc' => ?_⟩
    cases hc'
    exact (RingConsumer.tryPeek_mask _ _ _).trans (h.consumer _ hc)
  | release hc =>
    refine ⟨h.producer, fun c' hc' => ?_⟩
    cases hc'
    exact (RingConsumer.release_mask _).trans (h.consumer _ hc)
  | observeHead hc hhead => exact ⟨h.producer, h.consumer⟩
  | disconnect hc => exact ⟨h.producer, fun c hc => by cases hc⟩
  | clearSlot hc => exact ⟨h.producer, fun c hc => by cases hc⟩
  | crash hc => exact ⟨h.producer, fun c hc => by cases hc⟩

/-! ### Steps of shifted states -/

theorem headLoad_shift (s : SharedRing) (δ : U64) (load : Nat) :
    (s.shift δ).headLoad load = (s.headLoad load).map (· + δ) := by
  simp only [headLoad, shift, List.getElem?_map]
  split <;> rfl

theorem tailLoad_shift (s : SharedRing) (δ : U64) (load : Nat) :
    (s.shift δ).tailLoad load = (s.tailLoad load).map (· + δ) := by
  simp only [tailLoad, shift, List.getElem?_map]
  split <;> rfl

theorem doReserve_shift (hδ : cap.bytes ∣ δ.toNat) (hs : s.Masked cap) (bytes tail : U64) (load : Nat) :
    (s.shift δ).doReserve bytes (tail + δ) load = (s.doReserve bytes tail load).shift δ := by
  have hreserve : (s.shift δ).producer.tryReserve (tail + δ) bytes = _ :=
    RingProducer.tryReserve_shift hδ hs.producer tail bytes
  simp only [doReserve, hreserve]
  rfl

theorem doCommit_shift (s : SharedRing) (δ : U64) : (s.shift δ).doCommit = s.doCommit.shift δ := by
  have hcommit : (s.shift δ).producer.commit = _ := s.producer.commit_shift δ
  have hstores : s.headStores.map (· + δ) ++ (s.producer.commit.2.map (· + δ)).toList
      = (s.headStores ++ s.producer.commit.2.toList).map (· + δ) := by
    cases s.producer.commit.2 <;> simp
  simp only [doCommit, hcommit]
  simp only [shift, hstores]
  rfl

theorem doPeek_shift (hδ : cap.bytes ∣ δ.toNat) {c : RingConsumer} (hc : c.mask = cap.word - 1) (head : U64)
    (load : Nat) : (s.shift δ).doPeek (c.shift δ) (head + δ) load = (s.doPeek c head load).shift δ := by
  have hpeek : (c.shift δ).tryPeek (head + δ) (s.shift δ).data = _ := RingConsumer.tryPeek_shift hδ hc head s.data
  simp only [doPeek, hpeek]
  rfl

theorem doRelease_shift {c : RingConsumer} {next : RingConsumer → ConsumerPhase}
    (hnext : ∀ c, next (c.shift δ) = (next c).shift δ) :
    (s.shift δ).doRelease (c.shift δ) next = (s.doRelease c next).shift δ := by
  have hstores : s.tailStores.map (· + δ) ++ (c.release.2.map (· + δ)).toList
      = (s.tailStores ++ c.release.2.toList).map (· + δ) := by
    cases c.release.2 <;> simp
  simp only [doRelease, c.release_shift δ, hnext]
  simp only [shift, hstores]
  rfl

theorem consumerStep_shift (hδ : cap.bytes ∣ δ.toNat) {c : RingConsumer} (hc : c.mask = cap.word - 1)
    (a : RingAction) : (s.shift δ).consumerStep (c.shift δ) a = (s.consumerStep c a).map (·.shift δ) := by
  cases a with
  | tryPeek load =>
    simp only [consumerStep, headLoad_shift, Option.map_map]
    cases s.headLoad load with
    | none => rfl
    | some head => exact congrArg some (doPeek_shift hδ hc head load)
  | release => exact congrArg some (doRelease_shift fun _ => rfl)
  | observeHead load =>
    simp only [consumerStep, headLoad_shift, Option.map_map]
    cases s.headLoad load <;> rfl
  | disconnect => exact congrArg some (doRelease_shift fun _ => rfl)
  | _ => rfl

/-- The steps of the consumer side depend on its phase. -/
theorem step_shift_consumer (hδ : cap.bytes ∣ δ.toNat) (hs : s.Masked cap) (ha : a.ofProducer = false) :
    (s.shift δ).step cap a = (s.step cap a).map (·.shift δ) := by
  have hconsumer : (s.shift δ).consumer = s.consumer.shift δ := rfl
  cases hphase : s.consumer with
  | absent =>
    cases a <;> cases ha <;> simp only [step, hconsumer, hphase, ConsumerPhase.shift]
    all_goals rfl
  | claimed =>
    cases a <;> cases ha <;> simp only [step, hconsumer, hphase, ConsumerPhase.shift]
    case claimed.loadTail.refl =>
      have hlast : (s.shift δ).tailStores.getLast? = s.tailStores.getLast?.map (· + δ) := List.getLast?_map
      rw [hlast]
      cases s.tailStores.getLast? <;> rfl
    all_goals rfl
  | tailLoaded tail =>
    cases a <;> cases ha <;> simp only [step, hconsumer, hphase, ConsumerPhase.shift]
    case tailLoaded.loadHead.refl load =>
      rw [headLoad_shift]
      cases s.headLoad load <;> rfl
    all_goals rfl
  | attached c =>
    have hstep := consumerStep_shift (s := s) hδ (hs.consumer c hphase) a
    cases a <;> cases ha <;> simp only [step, hconsumer, hphase, ConsumerPhase.shift, hstep]
  | detaching =>
    cases a <;> cases ha <;> simp only [step, hconsumer, hphase, ConsumerPhase.shift]
    all_goals rfl

/-- Shifting all counters by a multiple of the capacity commutes with every step. -/
theorem step_shift (hδ : cap.bytes ∣ δ.toNat) (hs : s.Masked cap) (a : RingAction) :
    (s.shift δ).step cap a = (s.step cap a).map (·.shift δ) := by
  cases a with
  | tryReserve bytes load =>
    simp only [step, tailLoad_shift, Option.map_map]
    cases s.tailLoad load with
    | none => rfl
    | some tail => exact congrArg some (doReserve_shift hδ hs bytes tail load)
  | writeSlot i byte =>
    have hslot : (s.shift δ).slot = s.slot := rfl
    simp only [step, hslot]
    cases s.slot with
    | none => rfl
    | some sp => dsimp only; split <;> rfl
  | commit => exact congrArg some (s.doCommit_shift δ)
  | _ => exact step_shift_consumer hδ hs rfl

end SharedRing

/-! ### What the two sides see -/

/-- What an operation returns to its caller. -/
inductive RingResult
  | reserved (slot : Option Span)
  | peeked (view : Option Span) (bytes : Option (List U8))
  | used (bytes : U64)
  | done

/-- What there is to see of a state: the slot and the view with their bytes, the whole data area, what `used()` may
return on either side, and `corrupted()`. -/
structure RingView where
  slot : Option Span
  slotBytes : Option (List U8)
  view : Option Span
  viewBytes : Option (List U8)
  data : Mirrored.Memory U8
  producerUsed : List U64
  consumerUsed : List U64
  corrupted : Bool

namespace SharedRing

/-- The result of an operation. -/
def result (s : SharedRing) : RingAction → RingResult
  | .tryReserve bytes load =>
    match s.tailLoad load with
    | some tail => .reserved (s.producer.tryReserve tail bytes).slot
    | none => .done
  | .tryPeek load =>
    match s.consumer, s.headLoad load with
    | .attached c, some head =>
      .peeked (c.tryPeek head s.data).view ((c.tryPeek head s.data).view.map s.readSpan)
    | _, _ => .done
  | .observeHead load =>
    match s.consumer, s.headLoad load with
    | .attached c, some head => .used (c.used head)
    | _, _ => .done
  | _ => .done

def observe (s : SharedRing) : RingView where
  slot := s.slot
  slotBytes := s.slot.map s.readSpan
  view := s.view
  viewBytes := s.view.map s.readSpan
  data := s.data
  producerUsed := s.tailStores.map s.producer.used
  consumerUsed :=
    match s.consumer with
    | .attached c => s.headStores.map c.used
    | _ => []
  corrupted :=
    match s.consumer with
    | .attached c => c.corrupted
    | _ => false

/-- The results of a schedule and what is seen after each of its steps, up to the first one that is not enabled. -/
def trace (cap : Capacity) (s : SharedRing) : List RingAction → List (RingResult × RingView)
  | [] => []
  | a :: as =>
    match s.step cap a with
    | some t => (s.result a, t.observe) :: trace cap t as
    | none => []

/-- A ring both counters of which start at `h`. -/
def startAt (cap : Capacity) (h : U64) (data : Mirrored.Memory U8) : SharedRing :=
  ⟨data, [h], [h], RingProducer.new cap.word h h, none, 0, .absent, none, 0, [], [], 0, [], []⟩

variable {cap : Capacity} {δ : U64} {s : SharedRing}

theorem result_shift (hδ : cap.bytes ∣ δ.toNat) (hs : s.Masked cap) (a : RingAction) :
    (s.shift δ).result a = s.result a := by
  have hconsumer : (s.shift δ).consumer = s.consumer.shift δ := rfl
  cases a with
  | tryReserve bytes load =>
    simp only [result, tailLoad_shift]
    cases s.tailLoad load with
    | none => rfl
    | some tail =>
      have hreserve : (s.shift δ).producer.tryReserve (tail + δ) bytes = _ :=
        RingProducer.tryReserve_shift hδ hs.producer tail bytes
      simp only [Option.map_some, hreserve]
  | tryPeek load =>
    simp only [result, headLoad_shift, hconsumer]
    cases hphase : s.consumer with
    | attached c =>
      cases s.headLoad load with
      | none => rfl
      | some head =>
        have hpeek : (c.shift δ).tryPeek (head + δ) (s.shift δ).data = _ :=
          RingConsumer.tryPeek_shift hδ (hs.consumer c hphase) head s.data
        simp only [ConsumerPhase.shift, Option.map_some, hpeek]
        rfl
    | _ => rfl
  | observeHead load =>
    simp only [result, headLoad_shift, hconsumer]
    cases s.consumer with
    | attached c =>
      cases s.headLoad load with
      | none => rfl
      | some head => simp only [ConsumerPhase.shift, Option.map_some, RingConsumer.used_shift]
    | _ => rfl
  | _ => rfl

theorem observe_shift (s : SharedRing) (δ : U64) : (s.shift δ).observe = s.observe := by
  have hproducer : (s.tailStores.map (· + δ)).map (s.producer.shift δ).used = s.tailStores.map s.producer.used := by
    rw [List.map_map]
    exact List.map_congr_left fun tail _ => s.producer.used_shift δ tail
  have hconsumer : ∀ c : RingConsumer, (s.headStores.map (· + δ)).map (c.shift δ).used = s.headStores.map c.used := by
    intro c
    rw [List.map_map]
    exact List.map_congr_left fun head _ => c.used_shift δ head
  simp only [observe, shift, hproducer]
  cases s.consumer with
  | attached c => simp only [ConsumerPhase.shift, hconsumer]; rfl
  | _ => rfl

/-- The two runs go through states that differ by the shift. -/
theorem trace_shift (hδ : cap.bytes ∣ δ.toNat) (hs : s.Masked cap) (as : List RingAction) :
    (s.shift δ).trace cap as = s.trace cap as := by
  induction as generalizing s with
  | nil => rfl
  | cons a as ih =>
    simp only [trace, step_shift hδ hs]
    cases hstep : s.step cap a with
    | none => rfl
    | some t => simp only [Option.map_some, result_shift hδ hs, observe_shift, ih (hs.step hstep)]

theorem startAt_masked (cap : Capacity) (h : U64) (data : Mirrored.Memory U8) : (startAt cap h data).Masked cap :=
  ⟨rfl, fun _ hc => by cases hc⟩

theorem startAt_shift (cap : Capacity) (h h' : U64) (data : Mirrored.Memory U8) :
    (startAt cap h data).shift (h' - h) = startAt cap h' data := by
  simp [startAt, shift, RingProducer.shift, RingProducer.new, ConsumerPhase.shift]

end SharedRing

/-- Two rings that start at counters with the same offset give the same results under every schedule. -/
theorem counters_start_anywhere {cap : Capacity} {h h' : U64} (hmod : h.toNat % cap.bytes = h'.toNat % cap.bytes)
    (data : Mirrored.Memory U8) (schedule : List RingAction) :
    (SharedRing.startAt cap h data).trace cap schedule = (SharedRing.startAt cap h' data).trace cap schedule := by
  have hδ : cap.bytes ∣ (h' - h).toNat := by
    have hmod' : 2 ^ 64 - h.toNat + h'.toNat ≡ 2 ^ 64 - h.toNat + h.toNat [MOD cap.bytes] :=
      Nat.ModEq.add_left _ hmod.symm
    rw [BitVec.toNat_sub, Nat.dvd_mod_iff cap.bytes_dvd, ← Nat.modEq_zero_iff_dvd]
    rw [Nat.sub_add_cancel (Nat.le_of_lt h.isLt)] at hmod'
    exact hmod'.trans (Nat.modEq_zero_iff_dvd.2 cap.bytes_dvd)
  rw [← SharedRing.startAt_shift cap h h' data, SharedRing.trace_shift hδ (SharedRing.startAt_masked cap h data)]

/-- A record of 4 bytes that passes through the ring, and the reservation of the next one. -/
def oneRecord : List RingAction :=
  [.tryReserve 4 0, .writeSlot 0 7, .commit, .claim, .loadTail, .loadHead 1, .tryPeek 1, .release, .tryReserve 8 1]

/-- With 8 bytes before `2 ^ 64` the head wraps at the end of the record. -/
theorem counters_start_anywhere_wrap :
    ((SharedRing.startAt capacity16 0xFFFFFFFFFFFFFFF8 ⟨16, by decide, fun _ => 0⟩).trace capacity16
      oneRecord).length = 9 ∧
    (SharedRing.startAt capacity16 8 ⟨16, by decide, fun _ => 0⟩).trace capacity16 oneRecord
      = (SharedRing.startAt capacity16 0xFFFFFFFFFFFFFFF8 ⟨16, by decide, fun _ => 0⟩).trace capacity16 oneRecord :=
  ⟨by decide +kernel, counters_start_anywhere (by decide) _ _⟩

end ProducerConsumer
