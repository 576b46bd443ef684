import ProducerConsumer.CommandLine
import ProducerConsumer.Ring

/-!
# Byte sizes

`parse_byte_size` reads decimal digits and a suffix.  The documented suffixes are a unit letter, followed by nothing, `B`
or `iB`, or a bare `B`; the loop over what follows the unit letter looks at each character alone, so that four more
suffixes pass.
-/

namespace ProducerConsumer

/-! ### `parse_uint` and `parse_byte_size` -/

/-- The value of a string of decimal digits. -/
def decimalValue (digits : Text) : Nat := digits.foldl (fun value c => 10 * value + (c.toNat - '0'.toNat)) 0

/-- `std::from_chars` into an unsigned 64-bit value: the value of the leading digits and the text behind them, or an
error where there are none or the value is out of range. -/
def fromChars (text : Text) : Option (U64 × Text) :=
  let digits := text.takeWhile Char.isDigit
  if digits.isEmpty || 2 ^ 64 ≤ decimalValue digits then none
  else some (BitVec.ofNat 64 (decimalValue digits), text.dropWhile Char.isDigit)

def parseUint (text : Text) : Option U64 :=
  if text.isEmpty then none
  else
    match fromChars text with
    | some (value, []) => some value
    | _ => none

/-- The `switch` on the first character of the suffix. -/
def unitMultiplier (c : Char) : Option U64 :=
  match c.toLower with
  | 'k' => some (1 <<< 10)
  | 'm' => some (1 <<< 20)
  | 'g' => some (1 <<< 30)
  | 't' => some (1 <<< 40)
  | 'b' => some 1
  | _ => none

/-- The checks of the suffix. -/
def suffixMultiplier : Text → Option U64
  | [] => some 1
  | c :: suffix =>
    match unitMultiplier c with
    | none => none
    | some multiplier =>
      if multiplier != 1 && !suffix.isEmpty then
        if suffix.length > 2 then none
        else if suffix.all fun c => c.toLower == 'i' || c.toLower == 'b' then some multiplier
        else none
      else if !suffix.isEmpty then none
      else some multiplier

def parseByteSize (text : Text) : Option U64 :=
  let digits := text.takeWhile Char.isDigit
  if digits.isEmpty then none
  else
    match parseUint digits with
    | none => none
    | some value =>
      match suffixMultiplier (text.drop digits.length) with
      | none => none
      | some multiplier =>
        if value > BitVec.allOnes 64 / multiplier then none else some (value * multiplier)

/-! ### The documented grammar -/

/-- The unit letters. -/
def byteUnits : List (Char × Nat) := [('k', 2 ^ 10), ('m', 2 ^ 20), ('g', 2 ^ 30), ('t', 2 ^ 40)]

/-- What may follow a unit letter. -/
def documentedTails : List Text := ["".toList, "b".toList, "ib".toList]

/-- What follows a unit letter in some other texts that are accepted. -/
def undocumentedTails : List Text := ["i".toList, "ii".toList, "bi".toList, "bb".toList]

/-- In any mixture of cases the suffix is one of the units with one of the tails, and stands for the factor `m`. -/
def UnitSuffix (tails : List Text) (suffix : Text) (m : Nat) : Prop :=
  ∃ unit, (unit, m) ∈ byteUnits ∧ ∃ tail ∈ tails, suffix.map Char.toLower = unit :: tail

def DocumentedSuffix (suffix : Text) (m : Nat) : Prop :=
  m = 1 ∧ (suffix = [] ∨ suffix.map Char.toLower = "b".toList) ∨ UnitSuffix documentedTails suffix m

/-- Decimal digits and a suffix of the given kind, of `size` bytes, which 64 bits hold. -/
def SizeText (Suffix : Text → Nat → Prop) (text : Text) (size : Nat) : Prop :=
  ∃ digits suffix m, text = digits ++ suffix ∧ digits ≠ [] ∧ (∀ c ∈ digits, c.isDigit = true) ∧ Suffix suffix m ∧
    size = decimalValue digits * m ∧ size < 2 ^ 64

/-- The documented byte sizes. -/
def DocumentedSize : Text → Nat → Prop := SizeText DocumentedSuffix

/-- A unit followed by `i`, `ii`, `bi` or `bb`. -/
def UndocumentedSize : Text → Nat → Prop := SizeText (UnitSuffix undocumentedTails)

/-! ### The digits -/

theorem parseUint_eq_some_iff {text : Text} {value : U64} : parseUint text = some value ↔
    text ≠ [] ∧ (∀ c ∈ text, c.isDigit = true) ∧ decimalValue text = value.toNat := by
  constructor
  · intro h
    unfold parseUint at h
    split at h
    · cases h
    · rename_i hne
      split at h
      · rename_i v hchars
        obtain rfl : v = value := by simpa using h
        simp only [fromChars] at hchars
        split at hchars
        · cases hchars
        · rename_i hrange
          simp only [Option.some.injEq, Prod.mk.injEq] at hchars
          obtain ⟨rfl, hdrop⟩ := hchars
          have hdigits := List.dropWhile_eq_nil_iff.1 hdrop
          rw [List.takeWhile_eq_self_iff.2 hdigits] at hrange ⊢
          simp only [Bool.or_eq_true, List.isEmpty_iff, decide_eq_true_eq, not_or, Nat.not_le] at hrange
          exact ⟨hrange.1, hdigits, by rw [BitVec.toNat_ofNat, Nat.mod_eq_of_lt hrange.2]⟩
      · cases h
  · rintro ⟨hne, hdigits, hvalue⟩
    have htake := List.takeWhile_eq_self_iff.2 hdigits
    have hdrop := List.dropWhile_eq_nil_iff.2 hdigits
    have hlt : ¬18446744073709551616 ≤ value.toNat := Nat.not_le.2 value.isLt
    simp [parseUint, fromChars, htake, hdrop, hne, hvalue, hlt]

/-! ### The suffixes -/

theorem unitMultiplier_eq_some_iff {c : Char} {m : U64} :
    unitMultiplier c = some m ↔ (c.toLower = 'b' ∧ m = 1) ∨ (c.toLower, m.toNat) ∈ byteUnits := by
  unfold unitMultiplier byteUnits
  constructor
  · intro h
    split at h <;> cases h
    all_goals
      rename_i hc
      rw [hc]
      decide
  · rintro (⟨hc, rfl⟩ | h)
    · simp [hc]
    · have hm : m = BitVec.ofNat 64 m.toNat := by simp
      simp only [List.mem_cons, Prod.mk.injEq, List.not_mem_nil, or_false] at h
      obtain ⟨hc, hunit⟩ | ⟨hc, hunit⟩ | ⟨hc, hunit⟩ | ⟨hc, hunit⟩ := h <;>
        · rw [hm, hunit, hc]
          rfl

/-- What the loop over the rest of the suffix lets pass. -/
theorem tail_accepted_iff {tail : Text} : (tail.length ≤ 2 ∧ ∀ c ∈ tail, c.toLower = 'i' ∨ c.toLower = 'b') ↔
    tail.map Char.toLower ∈ documentedTails ∨ tail.map Char.toLower ∈ undocumentedTails := by
  match tail with
  | [] => simp [documentedTails]
  | [c] => simp [documentedTails, undocumentedTails]; tauto
  | [c, d] => simp [documentedTails, undocumentedTails]; tauto
  | _ :: _ :: _ :: _ => simp [documentedTails, undocumentedTails]

theorem suffixMultiplier_cons_eq_some_iff {c : Char} {tail : Text} {m : U64} :
    suffixMultiplier (c :: tail) = some m ↔ unitMultiplier c = some m ∧
      ((m ≠ 1 ∧ tail.length ≤ 2 ∧ ∀ c ∈ tail, c.toLower = 'i' ∨ c.toLower = 'b') ∨ tail = []) := by
  cases hunit : unitMultiplier c with
  | none => simp [suffixMultiplier, hunit]
  | some u =>
    simp only [suffixMultiplier, hunit, Option.some.injEq]
    by_cases htail : tail = []
    · simp [htail]
    by_cases hone : u = 1#64
    · simpa [hone, htail] using fun h hne => absurd h.symm hne
    by_cases hlen : tail.length > 2
    · simp [hlen, htail]
    · have hle : tail.length ≤ 2 := Nat.not_lt.1 hlen
      by_cases hall : ∀ c ∈ tail, c.toLower = 'i' ∨ c.toLower = 'b'
      · constructor
        · intro h
          obtain rfl : u = m := by simpa [htail, hlen, hone, eq_true hall] using h
          exact ⟨rfl, .inl ⟨hone, hle, hall⟩⟩
        · rintro ⟨rfl, -⟩
          simp [htail, hlen, hone, eq_true hall]
      · simp [htail, hlen, hall]

theorem unitSuffix_cons_iff {tails : List Text} {c : Char} {tail : Text} {m : Nat} :
    UnitSuffix tails (c :: tail) m ↔ (c.toLower, m) ∈ byteUnits ∧ tail.map Char.toLower ∈ tails := by
  simp only [UnitSuffix, List.map_cons, List.cons.injEq]
  constructor
  · rintro ⟨unit, hunit, t, ht, rfl, rfl⟩
    exact ⟨hunit, ht⟩
  · rintro ⟨hunit, ht⟩
    exact ⟨_, hunit, _, ht, rfl, rfl⟩

theorem ne_one_of_mem_byteUnits {c : Char} {m : Nat} (h : (c, m) ∈ byteUnits) : m ≠ 1 := by
  rintro rfl
  simp [byteUnits] at h

theorem suffixMultiplier_eq_some_iff {suffix : Text} {m : U64} : suffixMultiplier suffix = some m ↔
    DocumentedSuffix suffix m.toNat ∨ UnitSuffix undocumentedTails suffix m.toNat := by
  cases suffix with
  | nil => simp [suffixMultiplier, DocumentedSuffix, UnitSuffix, ← BitVec.toNat_inj, eq_comm]
  | cons c tail =>
    have hone : m.toNat = 1 ↔ m = 1 := (BitVec.toNat_inj (y := 1)).trans Iff.rfl
    rw [suffixMultiplier_cons_eq_some_iff, unitMultiplier_eq_some_iff, DocumentedSuffix, unitSuffix_cons_iff,
      unitSuffix_cons_iff, tail_accepted_iff, hone]
    constructor
    · rintro ⟨⟨hb, rfl⟩ | hunit, ⟨hne, htail⟩ | rfl⟩
      · exact absurd rfl hne
      · exact .inl (.inl ⟨rfl, .inr (by simp [hb])⟩)
      · exact htail.elim (fun h => .inl (.inr ⟨hunit, h⟩)) fun h => .inr ⟨hunit, h⟩
      · exact .inl (.inr ⟨hunit, by simp [documentedTails]⟩)
    · rintro ((⟨rfl, hsuffix⟩ | ⟨hunit, htail⟩) | ⟨hunit, htail⟩)
      · simp only [reduceCtorEq, List.map_cons, false_or] at hsuffix
        obtain ⟨hc, htail⟩ := List.cons.inj hsuffix
        exact ⟨.inl ⟨hc, rfl⟩, .inr (List.map_eq_nil_iff.1 htail)⟩
      · exact ⟨.inr hunit, .inl ⟨fun h => ne_one_of_mem_byteUnits hunit (hone.2 h), .inl htail⟩⟩
      · exact ⟨.inr hunit, .inl ⟨fun h => ne_one_of_mem_byteUnits hunit (hone.2 h), .inr htail⟩⟩

/-! ### What is accepted -/

theorem toLower_of_isDigit {c : Char} (h : c.isDigit = true) : c.toLower = c := by
  simp only [Char.isDigit, Bool.and_eq_true, decide_eq_true_eq, ge_iff_le, UInt32.le_iff_toNat_le] at h
  unfold Char.toLower
  rw [dif_neg]
  simp only [ge_iff_le, UInt32.le_iff_toNat_le]
  intro hupper
  have hnine : c.val.toNat ≤ 57 := h.2
  have hA : 65 ≤ c.val.toNat := hupper.1
  omega

theorem unitMultiplier_of_isDigit {c : Char} (h : c.isDigit = true) : unitMultiplier c = none := by
  unfold unitMultiplier
  rw [toLower_of_isDigit h]
  split
  all_goals first | rfl | cases h

theorem head_of_suffixMultiplier {suffix : Text} {m : U64} (h : suffixMultiplier suffix = some m) :
    ∀ c ∈ suffix.head?, c.isDigit = false := by
  cases suffix with
  | nil => simp
  | cons c tail =>
    rintro _ ⟨⟩
    by_contra hdigit
    rw [suffixMultiplier_cons_eq_some_iff, unitMultiplier_of_isDigit (by simpa using hdigit)] at h
    cases h.1

theorem suffixMultiplier_pos {suffix : Text} {m : U64} (h : suffixMultiplier suffix = some m) : 0 < m.toNat := by
  obtain (⟨hm, -⟩ | ⟨unit, hunit, -⟩) | ⟨unit, hunit, -⟩ := suffixMultiplier_eq_some_iff.1 h
  · omega
  all_goals
    simp only [byteUnits, List.mem_cons, Prod.mk.injEq, List.not_mem_nil, or_false] at hunit
    omega

/-- The division by the multiplier bounds the product exactly. -/
theorem guard_iff {value m : U64} (h : 0 < m.toNat) :
    value > BitVec.allOnes 64 / m ↔ ¬value.toNat * m.toNat < 2 ^ 64 := by
  rw [gt_iff_lt, BitVec.lt_def, BitVec.toNat_udiv, BitVec.toNat_allOnes, Nat.div_lt_iff_lt_mul h]
  omega

/-- A suffix that does not start with a digit leaves the digits alone. -/
theorem takeWhile_digits {digits suffix : Text} (hdigits : ∀ c ∈ digits, c.isDigit = true)
    (hsuffix : ∀ c ∈ suffix.head?, c.isDigit = false) : (digits ++ suffix).takeWhile Char.isDigit = digits := by
  rw [List.takeWhile_append_of_pos hdigits]
  cases suffix with
  | nil => simp
  | cons c suffix => simp [hsuffix c rfl]

theorem dropWhile_digits {digits suffix : Text} (hdigits : ∀ c ∈ digits, c.isDigit = true)
    (hsuffix : ∀ c ∈ suffix.head?, c.isDigit = false) : (digits ++ suffix).dropWhile Char.isDigit = suffix := by
  rw [List.dropWhile_append_of_pos hdigits]
  cases suffix with
  | nil => rfl
  | cons c suffix => simp [hsuffix c rfl]

theorem parseByteSize_append {digits suffix : Text} (hdigits : ∀ c ∈ digits, c.isDigit = true)
    (hsuffix : ∀ c ∈ suffix.head?, c.isDigit = false) : parseByteSize (digits ++ suffix) =
      match parseUint digits with
      | none => none
      | some value =>
        match suffixMultiplier suffix with
        | none => none
        | some multiplier => if value > BitVec.allOnes 64 / multiplier then none else some (value * multiplier) := by
  unfold parseByteSize
  simp only [takeWhile_digits hdigits hsuffix, List.drop_left]
  split
  · rename_i hnil
    rw [List.isEmpty_iff.1 hnil]
    rfl
  · rfl

theorem parseByteSize_append_eq_some_iff {digits suffix : Text} {size : U64}
    (hdigits : ∀ c ∈ digits, c.isDigit = true) (hsuffix : ∀ c ∈ suffix.head?, c.isDigit = false) :
    parseByteSize (digits ++ suffix) = some size ↔
      digits ≠ [] ∧ ∃ m, suffixMultiplier suffix = some m ∧ size.toNat = decimalValue digits * m.toNat := by
  rw [parseByteSize_append hdigits hsuffix]
  constructor
  · intro h
    split at h
    · cases h
    · rename_i value hvalue
      obtain ⟨hne, -, hvalue⟩ := parseUint_eq_some_iff.1 hvalue
      split at h
      · cases h
      · rename_i m hm
        split at h
        · cases h
        · rename_i hguard
          rw [guard_iff (suffixMultiplier_pos hm), not_not] at hguard
          cases h
          exact ⟨hne, m, hm, by rw [BitVec.toNat_mul, Nat.mod_eq_of_lt hguard, hvalue]⟩
  · rintro ⟨hne, m, hm, hsize⟩
    have hprod : decimalValue digits * m.toNat < 2 ^ 64 := hsize ▸ size.isLt
    have hlt : decimalValue digits < 2 ^ 64 :=
      Nat.lt_of_le_of_lt (Nat.le_mul_of_pos_right _ (suffixMultiplier_pos hm)) hprod
    have hvalue : (BitVec.ofNat 64 (decimalValue digits)).toNat = decimalValue digits := by
      rw [BitVec.toNat_ofNat, Nat.mod_eq_of_lt hlt]
    rw [parseUint_eq_some_iff.2 ⟨hne, hdigits, hvalue.symm⟩, hm]
    simp only
    rw [if_neg (by rw [guard_iff (suffixMultiplier_pos hm), hvalue, not_not]; exact hprod)]
    rw [Option.some.injEq, ← BitVec.toNat_inj, BitVec.toNat_mul, hvalue, Nat.mod_eq_of_lt hprod, hsize]

theorem suffixMultiplier_of_suffix {suffix : Text} {m : Nat}
    (h : DocumentedSuffix suffix m ∨ UnitSuffix undocumentedTails suffix m) :
    ∃ u : U64, suffixMultiplier suffix = some u ∧ u.toNat = m := by
  have hlt : m < 2 ^ 64 := by
    obtain (⟨hm, -⟩ | ⟨unit, hunit, -⟩) | ⟨unit, hunit, -⟩ := h
    · omega
    all_goals
      simp only [byteUnits, List.mem_cons, Prod.mk.injEq, List.not_mem_nil, or_false] at hunit
      omega
  have hm : (BitVec.ofNat 64 m).toNat = m := by rw [BitVec.toNat_ofNat, Nat.mod_eq_of_lt hlt]
  exact ⟨BitVec.ofNat 64 m, suffixMultiplier_eq_some_iff.2 (by rwa [hm]), hm⟩

/-- The accepted texts are the documented ones and those with one of the four other tails. -/
theorem parseByteSize_eq_some_iff {text : Text} {size : U64} :
    parseByteSize text = some size ↔ DocumentedSize text size.toNat ∨ UndocumentedSize text size.toNat := by
  constructor
  · intro h
    have hdigits : ∀ c ∈ text.takeWhile Char.isDigit, c.isDigit = true := fun c hc => List.mem_takeWhile_imp hc
    have hsuffix : ∀ c ∈ (text.dropWhile Char.isDigit).head?, c.isDigit = false := by
      intro c hc
      have := List.head?_dropWhile_not Char.isDigit text
      rw [hc] at this
      simpa using this
    have hsplit : text.takeWhile Char.isDigit ++ text.dropWhile Char.isDigit = text :=
      List.takeWhile_append_dropWhile
    rw [← hsplit, parseByteSize_append_eq_some_iff hdigits hsuffix] at h
    obtain ⟨hne, m, hm, hsize⟩ := h
    exact (suffixMultiplier_eq_some_iff.1 hm).imp
      (fun hdoc => ⟨_, _, _, hsplit.symm, hne, hdigits, hdoc, hsize, size.isLt⟩)
      fun hundoc => ⟨_, _, _, hsplit.symm, hne, hdigits, hundoc, hsize, size.isLt⟩
  · have haccept : ∀ {digits suffix : Text} {m : Nat}, digits ≠ [] → (∀ c ∈ digits, c.isDigit = true) →
        (DocumentedSuffix suffix m ∨ UnitSuffix undocumentedTails suffix m) → size.toNat = decimalValue digits * m →
        parseByteSize (digits ++ suffix) = some size := by
      intro digits suffix m hne hdigits hsuffix hsize
      obtain ⟨u, hu, rfl⟩ := suffixMultiplier_of_suffix hsuffix
      exact (parseByteSize_append_eq_some_iff hdigits (head_of_suffixMultiplier hu)).2 ⟨hne, u, hu, hsize⟩
    rintro (⟨digits, suffix, m, rfl, hne, hdigits, hsuffix, hsize, -⟩ |
      ⟨digits, suffix, m, rfl, hne, hdigits, hsuffix, hsize, -⟩)
    · exact haccept hne hdigits (.inl hsuffix) hsize
    · exact haccept hne hdigits (.inr hsuffix) hsize

theorem not_documented_and_undocumented {suffix : Text} {m m' : Nat} (h : DocumentedSuffix suffix m)
    (h' : UnitSuffix undocumentedTails suffix m') : False := by
  obtain ⟨unit', hunit', tail', htail', hlower'⟩ := h'
  obtain ⟨-, rfl | hlower⟩ | ⟨unit, -, tail, htail, hlower⟩ := h
  · cases hlower'
  · rw [hlower'] at hlower
    obtain rfl : unit' = 'b' := (List.cons.inj hlower).1
    simp [byteUnits] at hunit'
  · rw [hlower'] at hlower
    obtain ⟨-, rfl⟩ := List.cons.inj hlower
    simp only [documentedTails, undocumentedTails, List.mem_cons, List.not_mem_nil, or_false] at htail htail'
    obtain rfl | rfl | rfl := htail <;> revert htail' <;> decide

theorem UndocumentedSize.not_documented {text : Text} {size size' : Nat} (h : UndocumentedSize text size)
    (hdoc : DocumentedSize text size') : False := by
  obtain ⟨digits, suffix, m, rfl, -, hdigits, hsuffix, -, -⟩ := h
  obtain ⟨digits', suffix', m', htext, -, hdigits', hsuffix', -, -⟩ := hdoc
  obtain ⟨u, hu, -⟩ := suffixMultiplier_of_suffix (.inr hsuffix)
  obtain ⟨u', hu', -⟩ := suffixMultiplier_of_suffix (.inl hsuffix')
  have hdrop := dropWhile_digits hdigits (head_of_suffixMultiplier hu)
  rw [htext, dropWhile_digits hdigits' (head_of_suffixMultiplier hu')] at hdrop
  subst hdrop
  exact not_documented_and_undocumented hsuffix' hsuffix

/-- `parse_byte_size` follows the documented grammar on every text, except those with a unit followed by `i`, `ii`, `bi`
or `bb`. -/
theorem byte_size_documented_iff (text : Text) :
    (∀ size, parseByteSize text = some size ↔ DocumentedSize text size.toNat) ↔
      ¬∃ size, UndocumentedSize text size := by
  constructor
  · rintro h ⟨size, hundoc⟩
    obtain ⟨-, -, -, -, -, -, -, -, hlt⟩ := id hundoc
    have hsize : (BitVec.ofNat 64 size).toNat = size := by rw [BitVec.toNat_ofNat, Nat.mod_eq_of_lt hlt]
    have haccepted : parseByteSize text = some (BitVec.ofNat 64 size) :=
      parseByteSize_eq_some_iff.2 (.inr (hsize.symm ▸ hundoc))
    exact hundoc.not_documented ((h _).1 haccepted)
  · intro h size
    rw [parseByteSize_eq_some_iff, or_iff_left fun hundoc => h ⟨_, hundoc⟩]

/-- `4ki` is read as 4096 bytes. -/
theorem byte_size_four_ki :
    parseByteSize "4ki".toList = some 4096 ∧ ¬DocumentedSize "4ki".toList (4096 : U64).toNat := by
  have hundoc : UndocumentedSize "4ki".toList 4096 :=
    ⟨"4".toList, "ki".toList, 1024, by decide, by decide, by simp,
      ⟨'k', by decide, "i".toList, by decide, by decide⟩, by decide, by decide⟩
  exact ⟨by decide, hundoc.not_documented⟩

end ProducerConsumer
