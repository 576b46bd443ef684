import Mathlib.Data.Nat.Bitwise
import Mathlib.Tactic.Common
import ProducerConsumer.Lib.LittleEndian
import ProducerConsumer.Lib.Mirror

/-!
# The two ends of the ring

`RingControl`, `RingProducer` and `RingConsumer` as in `ring_buffer.hpp` and `ring_buffer.cpp`.  Counters are 64-bit
words, so `head_ + pending_` and the differences of counters wrap.  An operation that loads the counter of the other
side takes the loaded value as an argument and says whether the load happened, which leaves open what the memory (or a
hostile peer) returns.  Accesses to the data area are spans relative to `data_`.
-/

namespace ProducerConsumer

open Mirrored

abbrev U8 := BitVec 8
abbrev U16 := BitVec 16
abbrev U32 := BitVec 32
abbrev U64 := BitVec 64

/-- `std::int32_t` process ids; `0` and negative values name no process. -/
abbrev Pid := Int

def kRingMagic : U32 := 0x42524350#32
def kRingVersion : U32 := 1#32

inductive RingState
  | Initializing
  | Ready
  | ProducerFinished
deriving DecidableEq, Repr

/-- The control block at the start of the shared region. -/
structure RingControl where
  magic : U32
  version : U32
  capacity : U64
  state : RingState
  producerPid : Pid
  consumerPid : Pid
  head : U64
  tail : U64
deriving DecidableEq, Repr

/-- `RingControl{}`: the zeroed block. -/
def RingControl.zero : RingControl := ⟨0, 0, 0, .Initializing, 0, 0, 0, 0⟩

/-- The fields after `initialize_ring_control`; the store of `Ready` is its last step. -/
def initializeRingControl (capacity : U64) (producerPid : Pid) : RingControl :=
  ⟨kRingMagic, kRingVersion, capacity, .Ready, producerPid, 0, 0, 0⟩

def ringControlReady (control : RingControl) : Bool :=
  if control.state ≠ .Ready then false
  else control.magic = kRingMagic ∧ control.version = kRingVersion ∧ control.capacity ≠ 0 ∧
    control.capacity &&& (control.capacity - 1) = 0

/-- `sizeof(RecordLength)`. -/
def kRecordPrefixSize : U64 := 4#64

@[simp] theorem kRecordPrefixSize_toNat : kRecordPrefixSize.toNat = 4 := rfl

/-- A range of bytes of the mirrored mapping, relative to `data_`. -/
structure Span where
  offset : Nat
  size : Nat
deriving DecidableEq, Repr

/-! ### Producer -/

structure RingProducer where
  capacity : U64
  mask : U64
  head : U64
  cachedTail : U64
  pending : U64
deriving DecidableEq, Repr

/-- The constructor; `head` and `tail` are the values it loads. -/
def RingProducer.new (capacity head tail : U64) : RingProducer := ⟨capacity, capacity - 1, head, tail, 0⟩

def RingProducer.maxRecordSize (p : RingProducer) : U64 :=
  let byCapacity := p.capacity - kRecordPrefixSize
  let byPrefix := 0xFFFFFFFF#64
  if byCapacity < byPrefix then byCapacity else byPrefix

/-- What a call of `try_reserve` did: `tailLoaded` says whether it loaded `control_.tail`, `prefixWrite` is the copy of
the length to `data_ + offset`, `slot` the returned view. -/
structure ReserveResult where
  ring : RingProducer
  tailLoaded : Bool
  prefixWrite : Option (Nat × U32)
  slot : Option Span

/-- The successful end of `try_reserve`, from `offset` on. -/
def RingProducer.place (p : RingProducer) (bytes needed : U64) (tailLoaded : Bool) : ReserveResult :=
  let offset := (p.head &&& p.mask).toNat
  ⟨{ p with pending := needed }, tailLoaded, some (offset, bytes.setWidth 32),
    some ⟨offset + kRecordPrefixSize.toNat, bytes.toNat⟩⟩

/-- `tail` is the value of the acquire load of `control_.tail`, if there is one. -/
def RingProducer.tryReserve (p : RingProducer) (tail bytes : U64) : ReserveResult :=
  if p.maxRecordSize < bytes then ⟨p, false, none, none⟩
  else
    let needed := kRecordPrefixSize + bytes
    if p.capacity - (p.head - p.cachedTail) < needed then
      let p := { p with cachedTail := tail }
      if p.capacity - (p.head - p.cachedTail) < needed then ⟨p, true, none, none⟩
      else p.place bytes needed true
    else p.place bytes needed false

/-- The effect of `try_reserve` on the data area. -/
def ReserveResult.store (r : ReserveResult) (data : Memory U8) : Memory U8 :=
  match r.prefixWrite with
  | some (offset, length) => data.write offset (LittleEndian.bytes 4 length.toNat)
  | none => data

/-- The value stored to `control_.head`, if any. -/
def RingProducer.commit (p : RingProducer) : RingProducer × Option U64 :=
  if p.pending = 0 then (p, none)
  else ({ p with head := p.head + p.pending, pending := 0 }, some (p.head + p.pending))

def RingProducer.used (p : RingProducer) (tail : U64) : U64 := p.head - tail

/-! ### Consumer -/

structure RingConsumer where
  capacity : U64
  mask : U64
  tail : U64
  cachedHead : U64
  pending : U64
  corrupted : Bool
deriving DecidableEq, Repr

/-- The constructor; `tail` and `head` are the values it loads. -/
def RingConsumer.new (capacity tail head : U64) : RingConsumer := ⟨capacity, capacity - 1, tail, head, 0, false⟩

/-- What a call of `try_peek` did: `headLoaded` says whether it loaded `control_.head`, `prefixRead` is the range of
the length prefix if that was read, `view` the returned record. -/
structure PeekResult where
  ring : RingConsumer
  headLoaded : Bool
  prefixRead : Option Span
  view : Option Span

/-- The end of `try_peek`, from the read of the length prefix on. -/
def RingConsumer.readRecord (c : RingConsumer) (data : Memory U8) (headLoaded : Bool) : PeekResult :=
  let offset := (c.tail &&& c.mask).toNat
  let length : U32 := BitVec.ofNat 32 (LittleEndian.value (data.read offset 4))
  let record := kRecordPrefixSize + length.setWidth 64
  if c.cachedHead - c.tail < record ∨ c.capacity < record then
    ⟨{ c with corrupted := true }, headLoaded, some ⟨offset, 4⟩, none⟩
  else
    ⟨{ c with pending := record }, headLoaded, some ⟨offset, 4⟩,
      some ⟨offset + kRecordPrefixSize.toNat, length.toNat⟩⟩

/-- `head` is the value of the acquire load of `control_.head`, if there is one. -/
def RingConsumer.tryPeek (c : RingConsumer) (head : U64) (data : Memory U8) : PeekResult :=
  if c.corrupted then ⟨c, false, none, none⟩
  else
    let offset := (c.tail &&& c.mask).toNat
    if c.pending ≠ 0 then
      ⟨c, false, none, some ⟨offset + kRecordPrefixSize.toNat, (c.pending - kRecordPrefixSize).toNat⟩⟩
    else if c.cachedHead = c.tail then
      let c := { c with cachedHead := head }
      if c.cachedHead = c.tail then ⟨c, true, none, none⟩ else c.readRecord data true
    else c.readRecord data false

/-- The value stored to `control_.tail`, if any. -/
def RingConsumer.release (c : RingConsumer) : RingConsumer × Option U64 :=
  if c.pending = 0 then (c, none)
  else ({ c with tail := c.tail + c.pending, pending := 0 }, some (c.tail + c.pending))

def RingConsumer.used (c : RingConsumer) (head : U64) : U64 := head - c.tail

/-! ### Capacities and counters -/

/-- A power of two of at least 4 bytes that fits into 64 bits. -/
structure Capacity where
  log : Nat
  two_le : 2 ≤ log
  lt : log < 64

/-- The smallest capacity used in runs on fixed inputs, and one with room for three packets. -/
def capacity16 : Capacity := ⟨4, by decide, by decide⟩

def capacity128 : Capacity := ⟨7, by decide, by decide⟩

namespace Capacity

variable (cap : Capacity)

def bytes : Nat := 2 ^ cap.log

def word : U64 := BitVec.ofNat 64 cap.bytes

theorem four_le : 4 ≤ cap.bytes := Nat.pow_le_pow_right (n := 2) (by decide) cap.two_le

theorem bytes_le : cap.bytes ≤ 2 ^ 63 := Nat.pow_le_pow_right (by decide) (Nat.le_of_lt_succ cap.lt)

theorem bytes_pos : 0 < cap.bytes := Nat.lt_of_lt_of_le (by decide) cap.four_le

theorem bytes_dvd : cap.bytes ∣ 2 ^ 64 := Nat.pow_dvd_pow 2 (Nat.le_of_lt cap.lt)

@[simp] theorem word_toNat : cap.word.toNat = cap.bytes := by
  have := cap.bytes_le
  rw [word, BitVec.toNat_ofNat, Nat.mod_eq_of_lt (by omega)]

theorem mask_toNat : (cap.word - 1).toNat = cap.bytes - 1 := by
  have h1 := cap.four_le
  have h2 := cap.bytes_le
  rw [BitVec.toNat_sub, word_toNat]
  simp only [BitVec.ofNat_eq_ofNat, BitVec.toNat_ofNat]
  omega

/-- Masking is the remainder by the capacity. -/
theorem and_mask (x : U64) : (x &&& (cap.word - 1)).toNat = x.toNat % cap.bytes := by
  rw [BitVec.toNat_and, mask_toNat, bytes, Nat.and_two_pow_sub_one_eq_mod]

theorem and_mask_lt (x : U64) : (x &&& (cap.word - 1)).toNat < cap.bytes := by
  rw [and_mask]
  exact Nat.mod_lt _ cap.bytes_pos

/-- The offset of the position `a` of the infinite stream, whose counter has wrapped modulo `2 ^ 64`. -/
theorem counter_offset (a : Nat) : (BitVec.ofNat 64 a &&& (cap.word - 1)).toNat = a % cap.bytes := by
  rw [and_mask, BitVec.toNat_ofNat, Nat.mod_mod_of_dvd a cap.bytes_dvd]

end Capacity

theorem RingProducer.maxRecordSize_toNat {cap : Capacity} {p : RingProducer} (h : p.capacity = cap.word) :
    p.maxRecordSize.toNat = min (cap.bytes - 4) (2 ^ 32 - 1) := by
  have h4 := cap.four_le
  have hsub : (cap.word - kRecordPrefixSize).toNat = cap.bytes - 4 := by
    have := cap.bytes_le
    rw [BitVec.toNat_sub, cap.word_toNat, kRecordPrefixSize_toNat]
    omega
  unfold RingProducer.maxRecordSize
  dsimp only
  rw [h]
  split
  · rename_i hlt
    rw [BitVec.lt_def, hsub] at hlt
    rw [hsub]
    exact (Nat.min_eq_left (Nat.le_of_lt hlt)).symm
  · rename_i hlt
    rw [BitVec.lt_def, hsub, Nat.not_lt] at hlt
    exact (Nat.min_eq_right hlt).symm

/-- The record size of a length prefix, without overflow. -/
theorem record_toNat (length : U32) : (kRecordPrefixSize + length.setWidth 64).toNat = 4 + length.toNat := by
  have := length.isLt
  rw [BitVec.toNat_add, BitVec.toNat_setWidth, kRecordPrefixSize_toNat]
  omega

/-- Counters of stream positions less than `2 ^ 64` apart differ by the distance. -/
theorem counter_sub {a b : Nat} (hab : b ≤ a) (h : a - b < 2 ^ 64) :
    (BitVec.ofNat 64 a - BitVec.ofNat 64 b).toNat = a - b := by
  rw [BitVec.toNat_sub, BitVec.toNat_ofNat, BitVec.toNat_ofNat]
  omega

theorem counter_inj {a b : Nat} (hab : b ≤ a) (h : a - b < 2 ^ 64) :
    BitVec.ofNat 64 a = BitVec.ofNat 64 b ↔ a = b := by
  constructor
  · intro he
    have := counter_sub hab h
    rw [he, BitVec.sub_self] at this
    simp at this
    omega
  · rintro rfl
    rfl

/-! ### What a call can do -/

/-- A call of `try_reserve` may refresh the cached tail; then it fails, or the record fits and is placed. -/
theorem RingProducer.tryReserve_cases (p : RingProducer) (tail bytes : U64) :
    ∃ p', ((p.tryReserve tail bytes).tailLoaded = false ∧ p' = p ∨
        (p.tryReserve tail bytes).tailLoaded = true ∧ p' = { p with cachedTail := tail }) ∧
      ((p.tryReserve tail bytes).ring = p' ∧ (p.tryReserve tail bytes).prefixWrite = none ∧
          (p.tryReserve tail bytes).slot = none ∨
        bytes ≤ p.maxRecordSize ∧ kRecordPrefixSize + bytes ≤ p'.capacity - (p'.head - p'.cachedTail) ∧
          p.tryReserve tail bytes =
            p'.place bytes (kRecordPrefixSize + bytes) (p.tryReserve tail bytes).tailLoaded) := by
  unfold RingProducer.tryReserve
  split
  · exact ⟨p, .inl ⟨rfl, rfl⟩, .inl ⟨rfl, rfl, rfl⟩⟩
  · rename_i hsize
    dsimp only
    split
    · split
      · exact ⟨_, .inr ⟨rfl, rfl⟩, .inl ⟨rfl, rfl, rfl⟩⟩
      · rename_i hroom
        exact ⟨_, .inr ⟨rfl, rfl⟩, .inr ⟨BitVec.not_lt.1 hsize, BitVec.not_lt.1 hroom, rfl⟩⟩
    · rename_i hroom
      exact ⟨_, .inl ⟨rfl, rfl⟩, .inr ⟨BitVec.not_lt.1 hsize, BitVec.not_lt.1 hroom, rfl⟩⟩

theorem RingConsumer.tryPeek_of_corrupted {c : RingConsumer} (hc : c.corrupted = true) (head : U64)
    (data : Memory U8) : c.tryPeek head data = ⟨c, false, none, none⟩ := by
  rw [RingConsumer.tryPeek, if_pos hc]

/-- A pending record is returned again. -/
theorem RingConsumer.tryPeek_of_pending {c : RingConsumer} (hc : c.corrupted = false) (hp : c.pending ≠ 0) (head : U64)
    (data : Memory U8) :
    c.tryPeek head data = ⟨c, false, none,
      some ⟨(c.tail &&& c.mask).toNat + kRecordPrefixSize.toNat, (c.pending - kRecordPrefixSize).toNat⟩⟩ := by
  simp only [RingConsumer.tryPeek, hc, Bool.false_eq_true, if_false, ne_eq, hp, not_false_eq_true, if_true]

/-- A call of `try_peek` on a ring that is not corrupted and has no record pending: the cached head is refreshed when it
shows no record; then the ring is empty, or a record is read. -/
theorem RingConsumer.tryPeek_cases {c : RingConsumer} (hc : c.corrupted = false) (hp : c.pending = 0) (head : U64)
    (data : Memory U8) :
    ∃ c', ((c.tryPeek head data).headLoaded = false ∧ c' = c ∧ c.cachedHead ≠ c.tail ∨
        (c.tryPeek head data).headLoaded = true ∧ c' = { c with cachedHead := head } ∧ c.cachedHead = c.tail) ∧
      (c'.cachedHead = c'.tail ∧ c.tryPeek head data = ⟨c', true, none, none⟩ ∨
        c'.cachedHead ≠ c'.tail ∧ c.tryPeek head data = c'.readRecord data (c.tryPeek head data).headLoaded) := by
  have hread (c : RingConsumer) (b : Bool) : (c.readRecord data b).headLoaded = b := by
    unfold RingConsumer.readRecord
    dsimp only
    split <;> rfl
  unfold RingConsumer.tryPeek
  simp only [hc, Bool.false_eq_true, if_false, hp, ne_eq, not_true_eq_false]
  by_cases hempty : c.cachedHead = c.tail
  · rw [if_pos hempty]
    by_cases hstill : head = c.tail
    · rw [if_pos hstill]
      exact ⟨_, .inr ⟨rfl, rfl, hempty⟩, .inl ⟨hstill, rfl⟩⟩
    · rw [if_neg hstill, hread]
      exact ⟨_, .inr ⟨rfl, rfl, hempty⟩, .inr ⟨hstill, rfl⟩⟩
  · rw [if_neg hempty, hread]
    exact ⟨_, .inl ⟨rfl, rfl, hempty⟩, .inr ⟨hempty, rfl⟩⟩

/-- The attempt that sets the flag returns nothing, and leaves nothing to release. -/
theorem RingConsumer.tryPeek_flags {c : RingConsumer} (hc : c.corrupted = false) (hp : c.pending = 0) {head : U64}
    {data : Memory U8} (h : (c.tryPeek head data).ring.corrupted = true) :
    (c.tryPeek head data).ring.pending = 0 ∧ (c.tryPeek head data).view = none := by
  have hread (c : RingConsumer) (loaded : Bool) (hc : c.corrupted = false) (hp : c.pending = 0)
      (h : (c.readRecord data loaded).ring.corrupted = true) :
      (c.readRecord data loaded).ring.pending = 0 ∧ (c.readRecord data loaded).view = none := by
    unfold RingConsumer.readRecord at h ⊢
    dsimp only at h ⊢
    split at h
    · rw [if_pos (by assumption)]
      exact ⟨hp, rfl⟩
    · rw [hc] at h
      cases h
  obtain ⟨c', hc', ⟨-, hres⟩ | ⟨-, hres⟩⟩ := RingConsumer.tryPeek_cases hc hp head data
  · have hsame : c'.corrupted = false := by
      rcases hc' with ⟨-, rfl, -⟩ | ⟨-, rfl, -⟩ <;> exact hc
    rw [hres] at h
    exact absurd (h.symm.trans hsame) Bool.noConfusion
  · rw [hres] at h ⊢
    rcases hc' with ⟨-, rfl, -⟩ | ⟨-, rfl, -⟩
    · exact hread _ _ hc hp h
    · exact hread _ _ hc hp h

end ProducerConsumer
