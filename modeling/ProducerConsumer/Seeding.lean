import ProducerConsumer.RandomStreams

/-!
# Seeding the random generator

The constructor fills the 32 words of the state from one SplitMix64 sequence.  Its outputs are a bijective mixture of
different numbers, so the words differ; and since a step of xoshiro256+ can be undone, no lane ever becomes the fixed
point and no two lanes ever meet.
-/

namespace ProducerConsumer

open Xoshiro

/-! ### SplitMix64 -/

def splitmixIncrement : U64 := 0x9E3779B97F4A7C15#64

/-- What `splitmix64` returns for the incremented state. -/
def splitmixOutput (z : U64) : U64 :=
  let z := (z ^^^ (z >>> 30)) * 0xBF58476D1CE4E5B9#64
  let z := (z ^^^ (z >>> 27)) * 0x94D049BB133111EB#64
  z ^^^ (z >>> 31)

/-- The output and the state that is left. -/
def splitmix64 (state : U64) : U64 × U64 :=
  let state := state + splitmixIncrement
  (splitmixOutput state, state)

/-- `word[l] = splitmix64(sm)` for one of the rows of the state. -/
def seedWord (acc : RandomState × U64) (l : Fin kLanes) (row : Fin 4) : RandomState × U64 :=
  let (output, sm) := splitmix64 acc.2
  (acc.1.set row ((acc.1.get row).set l output), sm)

/-- The inner loop of the constructor. -/
def seedLane (acc : RandomState × U64) (l : Fin kLanes) : RandomState × U64 :=
  (List.finRange 4).foldl (fun acc row => seedWord acc l row) acc

/-- The state that the constructor of `RandomPayloadGenerator` leaves. -/
def seedState (seed : U64) : RandomState :=
  ((List.finRange kLanes).foldl seedLane (Vector.replicate 4 (Vector.replicate kLanes 0), seed)).1

/-- `RandomPayloadGenerator(seed)` on a machine with or without AVX2. -/
def PayloadGenerator.newRandom (seed : U64) (avx2Available : Bool) : PayloadGenerator :=
  .random (seedState seed) avx2Available

/-! ### Outputs differ -/

theorem splitmixOutput_injective : Function.Injective splitmixOutput := by
  have h30 := xorShiftRight_injective (w := 64) (k := 30) (by decide)
  have h27 := xorShiftRight_injective (w := 64) (k := 27) (by decide)
  have h31 := xorShiftRight_injective (w := 64) (k := 31) (by decide)
  have hmul1 : Function.Injective fun x : U64 => x * 0xBF58476D1CE4E5B9#64 :=
    mul_right_injective_of_mul_eq_one (d := 0x96DE1B173F119089#64) (by decide)
  have hmul2 : Function.Injective fun x : U64 => x * 0x94D049BB133111EB#64 :=
    mul_right_injective_of_mul_eq_one (d := 0x319642B2D24D8EC3#64) (by decide)
  exact h31.comp (hmul2.comp (h27.comp (hmul1.comp h30)))

/-- The first `2 ^ 64` states of the sequence differ. -/
theorem splitmix_state_injective (seed : U64) {m n : Nat} (hm : m < 2 ^ 64) (hn : n < 2 ^ 64)
    (h : seed + BitVec.ofNat 64 m * splitmixIncrement = seed + BitVec.ofNat 64 n * splitmixIncrement) : m = n := by
  have hmul : Function.Injective fun x : U64 => x * splitmixIncrement :=
    mul_right_injective_of_mul_eq_one (d := 0xF1DE83E19937733D#64) (by decide)
  have hword : BitVec.ofNat 64 m = BitVec.ofNat 64 n := hmul (add_left_cancel h)
  have hnat := congrArg BitVec.toNat hword
  rwa [BitVec.toNat_ofNat, BitVec.toNat_ofNat, Nat.mod_eq_of_lt hm, Nat.mod_eq_of_lt hn] at hnat

/-! ### The words of the state -/

/-- Output number `n` of the sequence that starts at `seed`, from 1 on. -/
def splitmixWord (seed : U64) (n : Nat) : U64 := splitmixOutput (seed + BitVec.ofNat 64 n * splitmixIncrement)

theorem get_set {α : Type} {n : Nat} (v : Vector α n) (i j : Fin n) (x : α) :
    (v.set i x).get j = if i = j then x else v.get j := by
  have hset : (v.set i x).get j = (v.set i x)[j.val] := rfl
  rw [hset, Vector.getElem_set]
  simp only [Fin.ext_iff]
  rfl

theorem splitmixWord_succ (seed : U64) (n : Nat) :
    splitmixWord (seed + splitmixIncrement) n = splitmixWord seed (n + 1) := by
  have hsucc : BitVec.ofNat 64 (n + 1) = BitVec.ofNat 64 n + 1 := by
    apply BitVec.eq_of_toNat_eq
    simp
  rw [splitmixWord, splitmixWord, hsucc, add_mul, one_mul, add_assoc, add_comm splitmixIncrement]

/-- A word of the state. -/
def RandomState.word (state : RandomState) (key : Fin kLanes × Fin 4) : U64 := (state.get key.2).get key.1

theorem seedWord_word (state : RandomState) (sm : U64) (key key' : Fin kLanes × Fin 4) :
    (seedWord (state, sm) key.1 key.2).1.word key' = if key = key' then splitmixWord sm 1 else state.word key' := by
  obtain ⟨l, row⟩ := key
  obtain ⟨l', row'⟩ := key'
  have hfirst : splitmixWord sm 1 = (splitmix64 sm).1 := by simp [splitmixWord, splitmix64]
  simp only [RandomState.word, seedWord, get_set, Prod.mk.injEq, hfirst]
  by_cases hrow : row = row'
  · subst hrow
    rw [if_pos rfl, get_set]
    simp only [and_true]
  · simp only [hrow, and_false, if_false]

/-- The loops of the constructor over the words `keys`. -/
def seedWords (keys : List (Fin kLanes × Fin 4)) (acc : RandomState × U64) : RandomState × U64 :=
  keys.foldl (fun acc key => seedWord acc key.1 key.2) acc

theorem seedWords_word_of_notMem {keys : List (Fin kLanes × Fin 4)} {key : Fin kLanes × Fin 4} (h : key ∉ keys)
    (acc : RandomState × U64) : (seedWords keys acc).1.word key = acc.1.word key := by
  induction keys generalizing acc with
  | nil => rfl
  | cons first keys ih =>
    obtain ⟨hne, hrest⟩ := List.ne_and_not_mem_of_not_mem_cons h
    rw [seedWords, List.foldl_cons, ← seedWords, ih hrest, seedWord_word, if_neg (Ne.symm hne)]

/-- Word number `n` in the order of the loops holds output number `n + 1`. -/
theorem seedWords_word {keys : List (Fin kLanes × Fin 4)} (hkeys : keys.Nodup) {key : Fin kLanes × Fin 4} {n : Nat}
    (hn : keys[n]? = some key) (state : RandomState) (sm : U64) :
    (seedWords keys (state, sm)).1.word key = splitmixWord sm (n + 1) := by
  induction keys generalizing n state sm with
  | nil => cases hn
  | cons first keys ih =>
    rw [seedWords, List.foldl_cons, ← seedWords]
    cases n with
    | zero =>
      obtain rfl : first = key := by simpa using hn
      rw [seedWords_word_of_notMem (List.nodup_cons.1 hkeys).1, seedWord_word, if_pos rfl]
    | succ n =>
      rw [List.getElem?_cons_succ] at hn
      exact (ih (List.nodup_cons.1 hkeys).2 hn _ _).trans (splitmixWord_succ sm (n + 1))

/-- The words in the order of the two loops. -/
def seedKeys : List (Fin kLanes × Fin 4) :=
  (List.finRange kLanes).flatMap fun l => (List.finRange 4).map fun row => (l, row)

theorem seedState_eq (seed : U64) :
    seedState seed = (seedWords seedKeys (Vector.replicate 4 (Vector.replicate kLanes 0), seed)).1 := by
  rw [seedState, seedWords, seedKeys, List.foldl_flatMap]
  simp only [List.foldl_map]
  rfl

/-- Word `row` of lane `l` is output number `4 * l + row + 1`. -/
theorem seedState_word (seed : U64) (l : Fin kLanes) (row : Fin 4) :
    (seedState seed).word (l, row) = splitmixWord seed (4 * l + row + 1) := by
  have hindex : ∀ (l : Fin kLanes) (row : Fin 4), seedKeys[4 * l.val + row.val]? = some (l, row) := by decide
  rw [seedState_eq, seedWords_word (by decide) (hindex l row)]

theorem seedState_word_injective (seed : U64) : Function.Injective (seedState seed).word := by
  rintro ⟨l, row⟩ ⟨l', row'⟩ h
  rw [seedState_word, seedState_word] at h
  have hl := l.isLt
  have hl' := l'.isLt
  simp only [kLanes] at hl hl'
  have hnum := splitmix_state_injective seed (by omega) (by omega) (splitmixOutput_injective h)
  have hlane : l = l' := Fin.ext (by omega)
  have hrow : row = row' := Fin.ext (by omega)
  rw [hlane, hrow]

/-! ### Lanes -/

/-- No lane is the fixed point and no two lanes agree. -/
structure RandomState.Apart (state : RandomState) : Prop where
  ne_zero : ∀ l, state.lane l ≠ State.zero
  injective : Function.Injective state.lane

/-- Two different words are not both zero, and tell the lanes apart. -/
theorem RandomState.Apart.of_word {state : RandomState} (h : Function.Injective state.word) : state.Apart where
  ne_zero l hzero := by
    have h0 : state.word (l, 0) = 0 := congrArg State.s0 hzero
    have h1 : state.word (l, 1) = 0 := congrArg State.s1 hzero
    exact absurd (h (h0.trans h1.symm)) (by simp)
  injective l l' hlanes := by
    have h0 : state.word (l, 0) = state.word (l', 0) := congrArg State.s0 hlanes
    exact congrArg Prod.fst (h h0)

theorem fillImpl_apart {state : RandomState} (h : state.Apart) (n : Nat) : (fillImpl state n).2.Apart where
  ne_zero l := by
    rw [fillImpl_lane]
    exact State.iterate_next_ne_zero (h.ne_zero l) _
  injective l l' hlanes := by
    rw [fillImpl_lane, fillImpl_lane] at hlanes
    exact h.injective (State.next_injective.iterate _ hlanes)

/-- Whatever the seed and the fills so far, the eight streams stay apart from each other and from zero. -/
theorem seeded_lanes_apart (seed : U64) (avx2 : Bool) (sizes : List Nat) : ∃ state : RandomState,
    ((PayloadGenerator.newRandom seed avx2).fillPieces sizes).2 = .random state avx2 ∧
      (∀ l, state.lane l ≠ State.zero) ∧ ∀ l l', l ≠ l' → state.lane l ≠ state.lane l' := by
  have hrun : ∀ (sizes : List Nat) (state : RandomState), state.Apart →
      ∃ state' : RandomState, ((PayloadGenerator.random state avx2).fillPieces sizes).2 = .random state' avx2 ∧
        state'.Apart := by
    intro sizes
    induction sizes with
    | nil => exact fun state h => ⟨state, rfl, h⟩
    | cons size sizes ih =>
      intro state h
      rw [PayloadGenerator.fillPieces_cons, fill_random]
      exact ih _ (fillImpl_apart h size)
  obtain ⟨state, hstate, hapart⟩ := hrun sizes _ (.of_word (seedState_word_injective seed))
  exact ⟨state, hstate, hapart.ne_zero, fun l l' hne hlanes => hne (hapart.injective hlanes)⟩

end ProducerConsumer
