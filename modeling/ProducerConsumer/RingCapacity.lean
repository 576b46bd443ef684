import Mathlib.Order.Bounds.Basic
import ProducerConsumer.Attach

/-!
# The capacity of a ring

`ShmPacketSink` rounds the requested size up to a power of two.  The creator and the opener of the object, the ready
check and the two ends of the ring each look at the result in their own way; all of them agree on it.
-/

namespace ProducerConsumer

/-! ### `normalize_capacity` -/

/-- The `std::invalid_argument` of `normalize_capacity` and of `create`. -/
inductive CapacityError
  | tooLarge
  | notPageMultiple
deriving DecidableEq

/-- The loop of `normalize_capacity`, `fuel` rounds of it at most. -/
def normalizeLoop (requested : U64) : Nat → U64 → Option (Except CapacityError U64)
  | 0, _ => none
  | fuel + 1, capacity =>
    if capacity < requested then
      if capacity > (1 : U64) <<< 62 then some (.error .tooLarge) else normalizeLoop requested fuel (capacity <<< 1)
    else some (.ok capacity)

def normalizeCapacity (page requested : U64) (fuel : Nat) : Option (Except CapacityError U64) :=
  normalizeLoop requested fuel page

/-! ### The checks of the capacity -/

/-- What `create` computes before it creates the object: its size. -/
def createTotal (page dataCapacity : U64) : Except CapacityError U64 :=
  if dataCapacity = 0 ∨ dataCapacity % page ≠ 0 then .error .notPageMultiple else .ok (page + dataCapacity)

/-- What `try_open` makes of the size of an object: nothing yet, an error, or the size of the data area. -/
def tryOpenSize (page size : U64) : Option (Option U64) :=
  if size = 0 then some none
  else if size < 2 * page ∨ (size - page) % page ≠ 0 then none
  else some (some (size - page))

/-- The capacity passes all that is ever checked of it. -/
structure CapacityAgrees (page cap : Capacity) : Prop where
  create : createTotal page.word cap.word = .ok (page.word + cap.word)
  ready : ∀ pid, ringControlReady (initializeRingControl cap.word pid) = true
  opened : tryOpenSize page.word (page.word + cap.word) = some (some cap.word)
  attached : ∀ r : RingSetup, r.page = page.bytes → r.cap = cap → ∀ s, (attachMachine r).Reachable s → ∀ p,
    (s.source p).phase = .ready → s.control.capacity.toNat = (s.source p).mapped
  record : ∀ head tail, (RingProducer.new cap.word head tail).maxRecordSize.toNat = min (cap.bytes - 4) (2 ^ 32 - 1)
  noUnderflow : kRecordPrefixSize.toNat ≤ cap.bytes

/-! ### The loop -/

section

variable {requested capacity : U64} {k : Nat}

theorem double_toNat (hk : k < 63) (hc : capacity.toNat = 2 ^ k) : (capacity <<< 1).toNat = 2 ^ (k + 1) := by
  have hlt : 2 ^ (k + 1) < 2 ^ 64 := Nat.pow_lt_pow_right (by decide) (by omega)
  rw [BitVec.toNat_shiftLeft, hc, Nat.shiftLeft_eq, pow_one, ← pow_succ, Nat.mod_eq_of_lt hlt]

theorem above_limit_iff (hk : k ≤ 63) (hc : capacity.toNat = 2 ^ k) : capacity > (1 : U64) <<< 62 ↔ k = 63 := by
  have hlimit : ((1 : U64) <<< 62).toNat = 2 ^ 62 := by decide
  rw [gt_iff_lt, BitVec.lt_def, hlimit, hc, Nat.pow_lt_pow_iff_right (by decide)]
  omega

/-- One round with the capacity `2 ^ k`. -/
theorem normalizeLoop_succ (hk : k ≤ 63) (hc : capacity.toNat = 2 ^ k) (fuel : Nat) :
    normalizeLoop requested (fuel + 1) capacity =
      if 2 ^ k < requested.toNat then
        if k = 63 then some (.error .tooLarge) else normalizeLoop requested fuel (capacity <<< 1)
      else some (.ok capacity) := by
  have hless : capacity < requested ↔ 2 ^ k < requested.toNat := by rw [BitVec.lt_def, hc]
  simp only [normalizeLoop, hless, above_limit_iff hk hc]

/-- From `2 ^ k` on the loop ends with the first power of two that is large enough, or with the error. -/
theorem normalizeLoop_spec {d fuel : Nat} (hd : k + d = 63) (hfuel : d < fuel) (hc : capacity.toNat = 2 ^ k) :
    (2 ^ 63 < requested.toNat → normalizeLoop requested fuel capacity = some (.error .tooLarge)) ∧
    (requested.toNat ≤ 2 ^ 63 → ∃ m result, k ≤ m ∧ m ≤ 63 ∧ normalizeLoop requested fuel capacity = some (.ok result) ∧
      result.toNat = 2 ^ m ∧ requested.toNat ≤ 2 ^ m ∧ (m = k ∨ 2 ^ (m - 1) < requested.toNat)) := by
  induction d generalizing k capacity fuel with
  | zero =>
    obtain ⟨fuel, rfl⟩ : ∃ f, fuel = f + 1 := ⟨fuel - 1, by omega⟩
    obtain rfl : k = 63 := by omega
    rw [normalizeLoop_succ le_rfl hc]
    constructor
    · intro hlarge
      rw [if_pos hlarge, if_pos rfl]
    · intro hfits
      rw [if_neg (Nat.not_lt.2 hfits)]
      exact ⟨63, capacity, le_rfl, le_rfl, rfl, hc, hfits, .inl rfl⟩
  | succ d ih =>
    obtain ⟨fuel, rfl⟩ : ∃ f, fuel = f + 1 := ⟨fuel - 1, by omega⟩
    have hk : k < 63 := by omega
    rw [normalizeLoop_succ (Nat.le_of_lt hk) hc]
    obtain ⟨herror, hresult⟩ := ih (show k + 1 + d = 63 by omega) (show d < fuel by omega) (double_toNat hk hc)
    by_cases hless : 2 ^ k < requested.toNat
    · rw [if_pos hless, if_neg (Nat.ne_of_lt hk)]
      refine ⟨herror, fun hfits => ?_⟩
      obtain ⟨m, result, hkm, hm, hloop, hvalue, hle, hfirst⟩ := hresult hfits
      refine ⟨m, result, by omega, hm, hloop, hvalue, hle, .inr ?_⟩
      obtain rfl | hlower := hfirst
      · exact hless
      · exact hlower
    · rw [if_neg hless]
      have hpow : 2 ^ k ≤ 2 ^ 63 := Nat.pow_le_pow_right (by decide) (Nat.le_of_lt hk)
      exact ⟨fun hlarge => by omega,
        fun _ => ⟨k, capacity, le_rfl, Nat.le_of_lt hk, rfl, hc, Nat.not_lt.1 hless, .inl rfl⟩⟩

end

/-! ### The checks -/

/-- The capacity is a multiple of every smaller power of two. -/
theorem Capacity.dvd_of_le {page cap : Capacity} (h : page.bytes ≤ cap.bytes) : page.bytes ∣ cap.bytes :=
  Nat.pow_dvd_pow 2 ((Nat.pow_le_pow_iff_right (by decide)).1 h)

theorem Capacity.word_and_pred (cap : Capacity) : cap.word &&& (cap.word - 1) = 0 := by
  apply BitVec.eq_of_toNat_eq
  rw [cap.and_mask, cap.word_toNat, Nat.mod_self]
  rfl

theorem Capacity.word_ne_zero (cap : Capacity) : cap.word ≠ 0 := by
  intro h
  have hzero : cap.bytes = 0 := by rw [← cap.word_toNat, h]; rfl
  exact absurd hzero cap.bytes_pos.ne'

theorem umod_word {page cap : Capacity} (h : page.bytes ≤ cap.bytes) : cap.word % page.word = 0 := by
  apply BitVec.eq_of_toNat_eq
  rw [BitVec.toNat_umod, cap.word_toNat, page.word_toNat, Nat.mod_eq_zero_of_dvd (Capacity.dvd_of_le h)]
  rfl

theorem createTotal_eq {page cap : Capacity} (h : page.bytes ≤ cap.bytes) :
    createTotal page.word cap.word = .ok (page.word + cap.word) := by
  rw [createTotal, if_neg (not_or.2 ⟨cap.word_ne_zero, not_not.2 (umod_word h)⟩)]

theorem ringControlReady_initialized (cap : Capacity) (pid : Pid) :
    ringControlReady (initializeRingControl cap.word pid) = true := by
  have hne := cap.word_ne_zero
  have hpow := cap.word_and_pred
  simp only [ringControlReady, initializeRingControl, ne_eq, not_true_eq_false, if_false]
  simp only [hpow, decide_eq_true_eq]
  exact ⟨trivial, trivial, hne, trivial⟩

theorem two_mul_word {page : Capacity} (hpage : page.bytes ≤ 2 ^ 62) : (2 * page.word).toNat = 2 * page.bytes := by
  have hval : (2 : U64).toNat = 2 := rfl
  rw [BitVec.toNat_mul, hval, page.word_toNat]
  omega

theorem tryOpenSize_eq {page cap : Capacity} (hpage : page.bytes ≤ 2 ^ 62) (h : page.bytes ≤ cap.bytes) :
    tryOpenSize page.word (page.word + cap.word) = some (some cap.word) := by
  have hcap := cap.bytes_le
  have hpos := cap.bytes_pos
  have htotal : (page.word + cap.word).toNat = page.bytes + cap.bytes := by
    rw [BitVec.toNat_add, page.word_toNat, cap.word_toNat]
    omega
  have hsub : page.word + cap.word - page.word = cap.word := by rw [BitVec.add_comm, BitVec.add_sub_cancel]
  have hsized : page.word + cap.word ≠ 0 := by
    intro hzero
    rw [hzero] at htotal
    have hval : (0 : U64).toNat = 0 := rfl
    omega
  have hlarge : ¬page.word + cap.word < 2 * page.word := by
    rw [BitVec.lt_def, htotal, two_mul_word hpage]
    omega
  rw [tryOpenSize, if_neg hsized, hsub, if_neg (not_or.2 ⟨hlarge, not_not.2 (umod_word h)⟩)]

/-- The opening step of a source is `try_open` on 64-bit sizes. -/
theorem doOpen_eq_tryOpenSize {page : Capacity} (hpage : page.bytes ≤ 2 ^ 62) {s : AttachState}
    (hsize : s.size < 2 ^ 64) (p : Pid) :
    s.doOpen page.bytes p =
      match tryOpenSize page.word (BitVec.ofNat 64 s.size) with
      | some (some mapped) => s.setSource p ⟨mapped.toNat, .opened⟩
      | _ => s := by
  have hword : (BitVec.ofNat 64 s.size).toNat = s.size := by rw [BitVec.toNat_ofNat, Nat.mod_eq_of_lt hsize]
  have hzero : BitVec.ofNat 64 s.size = 0 ↔ s.size = 0 := by
    rw [← BitVec.toNat_inj, hword]
    rfl
  have hless : BitVec.ofNat 64 s.size < 2 * page.word ↔ s.size < 2 * page.bytes := by
    rw [BitVec.lt_def, hword, two_mul_word hpage]
  unfold AttachState.doOpen tryOpenSize
  by_cases h0 : s.size = 0
  · rw [if_pos (.inl h0), if_pos (hzero.2 h0)]
  by_cases hsmall : s.size < 2 * page.bytes
  · rw [if_pos (.inr (.inl hsmall)), if_neg (mt hzero.1 h0), if_pos (.inl (hless.2 hsmall))]
  have hsub : (BitVec.ofNat 64 s.size - page.word).toNat = s.size - page.bytes := by
    rw [BitVec.toNat_sub_of_le (by rw [BitVec.le_def, hword, page.word_toNat]; omega), hword, page.word_toNat]
  have hmod : (BitVec.ofNat 64 s.size - page.word) % page.word = 0 ↔ (s.size - page.bytes) % page.bytes = 0 := by
    rw [← BitVec.toNat_inj, BitVec.toNat_umod, hsub, page.word_toNat]
    rfl
  simp only [h0, hsmall, hzero, hless, hmod, ne_eq, false_or, if_false]
  split
  · rfl
  · simp only [hsub]

/-- A source past the ready check has mapped as many bytes as the block says. -/
theorem capacity_matches {r : RingSetup} {s : AttachState} (h : (attachMachine r).Reachable s) {p : Pid}
    (hp : (s.source p).phase = .ready) : s.control.capacity.toNat = (s.source p).mapped := by
  have hinv := AttachState.Inv.of_reachable h
  have hready := hinv.sawReady p (by rw [hp]; rfl)
  rw [hinv.mapped p (by rw [hp]; simp), (hinv.published hready).2.2, r.cap.word_toNat]

theorem CapacityAgrees.of_le {page cap : Capacity} (hpage : page.bytes ≤ 2 ^ 62) (h : page.bytes ≤ cap.bytes) :
    CapacityAgrees page cap where
  create := createTotal_eq h
  ready := ringControlReady_initialized cap
  opened := tryOpenSize_eq hpage h
  attached _ _ _ _ hs _ hp := capacity_matches hs hp
  record _ _ := RingProducer.maxRecordSize_toNat rfl
  noUnderflow := cap.four_le

/-- `normalize_capacity` throws for more than `2 ^ 63` bytes and otherwise returns the least sufficient power of two,
which every later check accepts. -/
theorem normalized_capacity_agrees {page : Capacity} (hpage : page.bytes ≤ 2 ^ 62) (requested : U64) {fuel : Nat}
    (hfuel : 64 ≤ fuel) :
    (2 ^ 63 < requested.toNat → normalizeCapacity page.word requested fuel = some (.error .tooLarge)) ∧
    (requested.toNat ≤ 2 ^ 63 → ∃ cap : Capacity, normalizeCapacity page.word requested fuel = some (.ok cap.word) ∧
      IsLeast {c | (∃ m, c = 2 ^ m) ∧ requested.toNat ≤ c ∧ page.bytes ≤ c} cap.bytes ∧ CapacityAgrees page cap) := by
  have hlog := page.lt
  obtain ⟨herror, hresult⟩ := normalizeLoop_spec (show page.log + (63 - page.log) = 63 by omega)
    (show 63 - page.log < fuel by omega) page.word_toNat
  refine ⟨herror, fun hfits => ?_⟩
  obtain ⟨m, result, hkm, hm, hloop, hvalue, hle, hfirst⟩ := hresult hfits
  let cap : Capacity := ⟨m, Nat.le_trans page.two_le hkm, Nat.lt_succ_of_le hm⟩
  have hword : result = cap.word := BitVec.eq_of_toNat_eq (hvalue.trans cap.word_toNat.symm)
  have hpagecap : page.bytes ≤ cap.bytes := Nat.pow_le_pow_right (by decide) hkm
  refine ⟨cap, by rw [← hword]; exact hloop, ⟨⟨⟨m, rfl⟩, hle, hpagecap⟩, ?_⟩, .of_le hpage hpagecap⟩
  rintro _ ⟨⟨j, rfl⟩, hrequested, hpagej⟩
  refine Nat.pow_le_pow_right (by decide) ?_
  change m ≤ j
  obtain rfl | hlower := hfirst
  · exact (Nat.pow_le_pow_iff_right (by decide)).1 hpagej
  · have hbelow : 2 ^ (m - 1) < 2 ^ j := Nat.lt_of_lt_of_le hlower hrequested
    have := (Nat.pow_lt_pow_iff_right (by decide)).1 hbelow
    omega

def page16K : Capacity := ⟨14, by decide, by decide⟩

theorem normalized_capacity_agrees_64K : ∃ cap : Capacity,
    normalizeCapacity page16K.word 65537 64 = some (.ok cap.word) ∧
    IsLeast {c | (∃ m, c = 2 ^ m) ∧ (65537 : U64).toNat ≤ c ∧ page16K.bytes ≤ c} cap.bytes ∧
    CapacityAgrees page16K cap :=
  (normalized_capacity_agrees (by decide) 65537 le_rfl).2 (by decide)

end ProducerConsumer
