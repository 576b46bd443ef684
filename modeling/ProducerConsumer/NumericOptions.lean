import ProducerConsumer.Options

/-!
# What becomes of the numbers on the command line

The texts of the integer options are read as unsigned 64-bit numbers.  The payload size, the ring size, the seed and the
count stay that; the report interval becomes a signed number of nanoseconds and the number of logged defects is cut to
32 bits.
-/

namespace ProducerConsumer

/-- The number that a byte size stands for: the value of the digits times that of the unit letter. -/
def sizeValue (text : Text) : Nat :=
  decimalValue (text.takeWhile Char.isDigit) *
    ((text.dropWhile Char.isDigit).head?.bind fun c => byteUnits.lookup c.toLower).getD 1

theorem lookup_byteUnits {c : Char} {m : Nat} (h : (c, m) ∈ byteUnits) : byteUnits.lookup c = some m := by
  simp only [byteUnits, List.mem_cons, Prod.mk.injEq, List.not_mem_nil, or_false] at h
  obtain ⟨rfl, rfl⟩ | ⟨rfl, rfl⟩ | ⟨rfl, rfl⟩ | ⟨rfl, rfl⟩ := h <;> rfl

theorem factor_of_suffix {suffix : Text} {m : Nat}
    (h : DocumentedSuffix suffix m ∨ UnitSuffix undocumentedTails suffix m) :
    (suffix.head?.bind fun c => byteUnits.lookup c.toLower).getD 1 = m := by
  have hunit : ∀ {tails : List Text}, UnitSuffix tails suffix m →
      (suffix.head?.bind fun c => byteUnits.lookup c.toLower).getD 1 = m := by
    rintro tails ⟨unit, hunit, tail, -, hlower⟩
    cases suffix with
    | nil => cases hlower
    | cons c suffix =>
      obtain rfl : c.toLower = unit := (List.cons.inj hlower).1
      rw [List.head?_cons, Option.bind_some, lookup_byteUnits hunit, Option.getD_some]
  obtain (⟨rfl, rfl | hlower⟩ | h) | h := h
  · rfl
  · cases suffix with
    | nil => rfl
    | cons c suffix =>
      have hb : c.toLower = 'b' := (List.cons.inj hlower).1
      rw [List.head?_cons, Option.bind_some, hb]
      rfl
  · exact hunit h
  · exact hunit h

theorem sizeValue_of_parseByteSize {text : Text} {size : U64} (h : parseByteSize text = some size) :
    sizeValue text = size.toNat := by
  have hsplit : ∃ digits suffix m, text = digits ++ suffix ∧ (∀ c ∈ digits, c.isDigit = true) ∧
      (DocumentedSuffix suffix m ∨ UnitSuffix undocumentedTails suffix m) ∧ size.toNat = decimalValue digits * m := by
    obtain ⟨digits, suffix, m, rfl, -, hdigits, hsuffix, hsize, -⟩ |
      ⟨digits, suffix, m, rfl, -, hdigits, hsuffix, hsize, -⟩ := parseByteSize_eq_some_iff.1 h
    · exact ⟨_, _, _, rfl, hdigits, .inl hsuffix, hsize⟩
    · exact ⟨_, _, _, rfl, hdigits, .inr hsuffix, hsize⟩
  obtain ⟨digits, suffix, m, rfl, hdigits, hsuffix, hsize⟩ := hsplit
  obtain ⟨u, hu, -⟩ := suffixMultiplier_of_suffix hsuffix
  have hhead := head_of_suffixMultiplier hu
  rw [sizeValue, takeWhile_digits hdigits hhead, dropWhile_digits hdigits hhead, factor_of_suffix hsuffix, hsize]

/-! ### What is converted -/

theorem bind_eq_ok {α β : Type} {x : Except UsageError α} {f : α → Except UsageError β} {b : β} :
    (x >>= f) = .ok b ↔ ∃ a, x = .ok a ∧ f a = .ok b := by
  cases x with
  | error e => simp [bind, Except.bind]
  | ok a => simp [bind, Except.bind]

namespace Parsed

variable {parsed : Parsed} {name text : Text}

theorem convertOption_eq_ok {α : Type} {convert : Text → Option α} {expected : Text} {value : α} :
    parsed.convertOption convert expected name = .ok value ↔ convert ((parsed.value name).getD []) = some value := by
  unfold convertOption
  cases h : convert ((parsed.value name).getD []) with
  | none => simp only [h, reduceCtorEq]
  | some v => simp only [h, Except.ok.injEq, Option.some.injEq]

variable {value : U64}

theorem uintOption_typed (htext : parsed.value name = some text) (h : parsed.uintOption name = .ok value) :
    value.toNat = decimalValue text := by
  have hparse := convertOption_eq_ok.1 h
  rw [htext, Option.getD_some] at hparse
  exact (parseUint_eq_some_iff.1 hparse).2.2.symm

theorem byteSizeOption_typed (htext : parsed.value name = some text) (h : parsed.byteSizeOption name = .ok value) :
    value.toNat = sizeValue text := by
  have hparse := convertOption_eq_ok.1 h
  rw [htext, Option.getD_some] at hparse
  exact (sizeValue_of_parseByteSize hparse).symm

end Parsed

theorem intervalOption_eq_ok {parsed : Parsed} {milliseconds : Int} (h : intervalOption parsed = .ok milliseconds) :
    ∃ interval : U64, parsed.uintOption "report-interval".toList = .ok interval ∧ 0 < interval.toNat ∧
      milliseconds = interval.toInt := by
  obtain ⟨interval, hinterval, h⟩ := bind_eq_ok.1 h
  split at h
  · cases h
  · rename_i hzero
    cases h
    refine ⟨interval, hinterval, Nat.pos_of_ne_zero fun h => hzero ?_, rfl⟩
    simpa [← BitVec.toNat_inj] using h

/-- A count of milliseconds survives the cast and the multiplication if and only if the nanoseconds fit. -/
theorem timerPeriod_iff {interval : U64} (hpos : 0 < interval.toNat) :
    timerPeriod interval.toInt = some (interval.toNat * 1000000 : Int) ↔ interval.toNat * 1000000 < 2 ^ 63 := by
  have hlt := interval.isLt
  rw [timerPeriod, Signed.checked, Option.ite_none_right_eq_some, Option.some.injEq, Signed.inRange_64,
    BitVec.toInt_eq_toNat_cond]
  constructor
  · rintro ⟨hrange, heq⟩
    split at heq <;> omega
  · intro hfits
    rw [if_pos (by omega)]
    omega

/-! ### The numbers as typed -/

/-- The text of the payload size: the positional argument or the option. -/
def payloadTyped (items : List Item) : Text :=
  (positionalTexts items).head?.getD (optionText items "payload-size".toList [])

/-- The milliseconds of the report interval in the text. -/
def intervalTyped (items : List Item) : Nat := decimalValue (optionText items "report-interval".toList "1000".toList)

/-- A report interval has the value of its text, and as nanoseconds too. -/
structure IntervalAsTyped (milliseconds : Int) (items : List Item) : Prop where
  positive : 0 < milliseconds
  exact : milliseconds = intervalTyped items
  period : timerPeriod milliseconds = some (intervalTyped items * 1000000 : Int)

structure ProducerOptions.AsTyped {Rate : Type} (options : ProducerOptions Rate) (items : List Item) : Prop where
  payloadSize : options.payloadSize.toNat = sizeValue (payloadTyped items)
  ringSize : options.ringSize.toNat = sizeValue (optionText items "ring-size".toList "64M".toList)
  seed : options.seed.toNat = decimalValue (optionText items "seed".toList "1".toList)
  count : options.count.toNat = decimalValue (optionText items "count".toList "0".toList)
  reportInterval : IntervalAsTyped options.reportInterval items

structure ConsumerOptions.AsTyped (options : ConsumerOptions) (items : List Item) : Prop where
  reportInterval : IntervalAsTyped options.reportInterval items
  maxDefectLogs : options.maxDefectLogs.toNat = decimalValue (optionText items "log-defects".toList "10".toList)

/-- The interval of both programs is as typed if and only if its nanoseconds fit in 63 bits. -/
theorem intervalAsTyped_iff {parsed : Parsed} {items : List Item} {milliseconds : Int}
    (htext : parsed.value "report-interval".toList
      = some (optionText items "report-interval".toList "1000".toList))
    (h : intervalOption parsed = .ok milliseconds) :
    IntervalAsTyped milliseconds items ↔ intervalTyped items * 1000000 < 2 ^ 63 := by
  obtain ⟨interval, hinterval, hpos, rfl⟩ := intervalOption_eq_ok h
  have htyped : intervalTyped items = interval.toNat := (Parsed.uintOption_typed htext hinterval).symm
  rw [htyped, ← timerPeriod_iff hpos]
  constructor
  · intro htyped'
    rw [← htyped]
    exact htyped'.period
  · intro hperiod
    have hfits := (timerPeriod_iff hpos).1 hperiod
    have hexact : interval.toInt = interval.toNat := by
      rw [BitVec.toInt_eq_toNat_cond, if_pos (by omega)]
    exact ⟨by omega, by rw [hexact, htyped], by rw [hperiod, htyped]⟩

/-- What `parse_producer_options` has done where it returns options. -/
theorem parseProducerOptions_eq_some {Rate : Type} {double : DoubleFormat Rate} {argv : List Text}
    {options : ProducerOptions Rate} (h : parseProducerOptions double argv = .ok (some options)) :
    ∃ parsed text, producerCommandLine.parse argv = .ok parsed ∧ payloadText parsed = .ok (some text) ∧
      parseByteSize text = some options.payloadSize ∧
      parsed.byteSizeOption "ring-size".toList = .ok options.ringSize ∧
      parsed.uintOption "seed".toList = .ok options.seed ∧ parsed.uintOption "count".toList = .ok options.count ∧
      intervalOption parsed = .ok options.reportInterval := by
  obtain ⟨parsed, hparse, h⟩ := bind_eq_ok.1 h
  split at h
  · cases h
  · obtain ⟨text, htext, h⟩ := bind_eq_ok.1 h
    split at h
    · cases h
    · rename_i text
      split at h
      · cases h
      · rename_i payload hpayload
        obtain ⟨ringSize, hring, h⟩ := bind_eq_ok.1 h
        obtain ⟨seed, hseed, h⟩ := bind_eq_ok.1 h
        obtain ⟨rate, -, h⟩ := bind_eq_ok.1 h
        obtain ⟨count, hcount, h⟩ := bind_eq_ok.1 h
        obtain ⟨interval, hinterval, h⟩ := bind_eq_ok.1 h
        cases h
        exact ⟨parsed, text, hparse, htext, hpayload, hring, hseed, hcount, hinterval⟩

theorem parseConsumerOptions_eq_some {argv : List Text} {options : ConsumerOptions}
    (h : parseConsumerOptions argv = .ok (some options)) :
    ∃ parsed logDefects, consumerCommandLine.parse argv = .ok parsed ∧
      intervalOption parsed = .ok options.reportInterval ∧
      parsed.uintOption "log-defects".toList = .ok logDefects ∧ options.maxDefectLogs = logDefects.setWidth 32 := by
  obtain ⟨parsed, hparse, h⟩ := bind_eq_ok.1 h
  split at h
  · cases h
  · obtain ⟨interval, hinterval, h⟩ := bind_eq_ok.1 h
    obtain ⟨logDefects, hlog, h⟩ := bind_eq_ok.1 h
    cases h
    exact ⟨parsed, logDefects, hparse, hinterval, hlog, rfl⟩

section

variable {items : List Item} {parsed : Parsed} {argv : List Text}

/-- The payload size that the producer reads is the positional argument or the option. -/
theorem payloadText_eq_some (hitems : producerCommandLine.readArgs false argv.tail = .ok items)
    (hparse : producerCommandLine.parse argv = .ok parsed) {text : Text} (h : payloadText parsed = .ok (some text)) :
    text = payloadTyped items := by
  have hspec : ⟨"payload-size".toList, 's', "bytes".toList, []⟩ ∈ producerCommandLine.specs := by decide
  have hvalue := CommandLine.value_of_parse producerCommandLine_names hitems hparse hspec rfl
  have hpositionals := CommandLine.positionals_of_parse hitems hparse
  unfold payloadText at h
  unfold payloadTyped
  split at h
  · rename_i hnil
    rw [hvalue] at h
    cases h
    rw [← hpositionals, hnil]
    rfl
  · rename_i first rest hcons
    split at h
    · cases h
    · cases h
      rw [← hpositionals, hcons]
      rfl

end

/-- The options of the producer are as typed if and only if the report interval fits its timer; those of the consumer if
and only if moreover the number of logged defects fits 32 bits. -/
theorem numeric_options_as_typed_iff {Rate : Type} (double : DoubleFormat Rate) (argv : List Text)
    (items : List Item) :
    (∀ options, producerCommandLine.readArgs false argv.tail = .ok items →
      parseProducerOptions double argv = .ok (some options) →
      (options.AsTyped items ↔ intervalTyped items * 1000000 < 2 ^ 63)) ∧
    (∀ options, consumerCommandLine.readArgs false argv.tail = .ok items →
      parseConsumerOptions argv = .ok (some options) →
      (options.AsTyped items ↔ intervalTyped items * 1000000 < 2 ^ 63 ∧
        decimalValue (optionText items "log-defects".toList "10".toList) < 2 ^ 32)) := by
  constructor
  · intro options hitems h
    obtain ⟨parsed, text, hparse, htext, hpayload, hring, hseed, hcount, hinterval⟩ := parseProducerOptions_eq_some h
    have hvalue : ∀ spec ∈ producerCommandLine.specs, spec.isFlag = false →
        parsed.value spec.name = some (optionText items spec.name spec.defaultValue) :=
      fun spec => CommandLine.value_of_parse producerCommandLine_names hitems hparse
    have hpayloadTyped : options.payloadSize.toNat = sizeValue (payloadTyped items) := by
      rw [← payloadText_eq_some hitems hparse htext, sizeValue_of_parseByteSize hpayload]
    have hringTyped := Parsed.byteSizeOption_typed
      (hvalue ⟨"ring-size".toList, 'r', "bytes".toList, "64M".toList⟩ (by decide) rfl) hring
    have hseedTyped := Parsed.uintOption_typed
      (hvalue ⟨"seed".toList, '\x00', "n".toList, "1".toList⟩ (by decide) rfl) hseed
    have hcountTyped := Parsed.uintOption_typed
      (hvalue ⟨"count".toList, 'c', "n".toList, "0".toList⟩ (by decide) rfl) hcount
    have hiff := intervalAsTyped_iff
      (hvalue ⟨"report-interval".toList, '\x00', "ms".toList, "1000".toList⟩ (by decide) rfl) hinterval
    exact ⟨fun htyped => hiff.1 htyped.reportInterval,
      fun hfits => ⟨hpayloadTyped, hringTyped, hseedTyped, hcountTyped, hiff.2 hfits⟩⟩
  · intro options hitems h
    obtain ⟨parsed, logDefects, hparse, hinterval, hlog, hcast⟩ := parseConsumerOptions_eq_some h
    have hvalue : ∀ spec ∈ consumerCommandLine.specs, spec.isFlag = false →
        parsed.value spec.name = some (optionText items spec.name spec.defaultValue) :=
      fun spec => CommandLine.value_of_parse consumerCommandLine_names hitems hparse
    have hlogTyped := Parsed.uintOption_typed
      (hvalue ⟨"log-defects".toList, '\x00', "n".toList, "10".toList⟩ (by decide) rfl) hlog
    have hiff := intervalAsTyped_iff
      (hvalue ⟨"report-interval".toList, '\x00', "ms".toList, "1000".toList⟩ (by decide) rfl) hinterval
    have hmod : options.maxDefectLogs.toNat = logDefects.toNat % 2 ^ 32 := by rw [hcast, BitVec.toNat_setWidth]
    constructor
    · rintro ⟨hreport, hdefects⟩
      exact ⟨hiff.1 hreport, hdefects ▸ options.maxDefectLogs.isLt⟩
    · rintro ⟨hfits, hdefects⟩
      refine ⟨hiff.2 hfits, ?_⟩
      rw [hmod, hlogTyped, Nat.mod_eq_of_lt hdefects]

/-- A format with the single number 0, written `0`. -/
def zeroDouble : DoubleFormat Unit :=
  ⟨fun text => if text.head? = some '0' then some ((), text.tail) else none, fun _ => false⟩

/-- `producer 4K -c7` has its numbers as typed. -/
theorem numeric_options_as_typed_iff_4K : ∃ options,
    parseProducerOptions zeroDouble ["producer".toList, "4K".toList, "-c7".toList] = .ok (some options) ∧
    options.AsTyped [.positional "4K".toList, .option "count".toList "7".toList] := by
  have hitems : producerCommandLine.readArgs false ["producer".toList, "4K".toList, "-c7".toList].tail
      = .ok [.positional "4K".toList, .option "count".toList "7".toList] := rfl
  have hsome : (parseProducerOptions zeroDouble
      ["producer".toList, "4K".toList, "-c7".toList]).toOption.join.isSome = true := by decide +kernel
  obtain ⟨options, hjoin⟩ := Option.isSome_iff_exists.1 hsome
  cases hparse : parseProducerOptions zeroDouble ["producer".toList, "4K".toList, "-c7".toList] with
  | error e =>
    rw [hparse] at hjoin
    cases hjoin
  | ok result =>
    rw [hparse] at hjoin
    obtain rfl : result = some options := Option.join_eq_some_iff.1 hjoin |> Option.some.inj
    exact ⟨options, rfl, ((numeric_options_as_typed_iff zeroDouble _ _).1 options hitems hparse).2 (by decide +kernel)⟩

/-- Of `2 ^ 32` defects to log none are logged, and an interval of 9223372036855 milliseconds has no period. -/
theorem log_defects_wrap :
    ((parseConsumerOptions ["consumer".toList, "--log-defects=4294967296".toList]).toOption.join.map
      fun options => options.maxDefectLogs.toNat) = some 0 ∧
    decimalValue "4294967296".toList = 4294967296 ∧
    ((parseConsumerOptions ["consumer".toList, "--report-interval=9223372036855".toList]).toOption.join.map
      fun options => timerPeriod options.reportInterval) = some none := by
  decide +kernel

end ProducerConsumer
