import ProducerConsumer.ByteSize
import ProducerConsumer.Lib.Signed

/-!
# The options of the two programs

Both programs declare a command line, parse it and convert the texts of the numeric options.  A contract of the parser
that fails (an option without a default has the empty text as its value) makes one of the errors unreachable; two of the
conversions are narrower than the numbers that the texts may stand for.
-/

namespace ProducerConsumer

/-- `std::from_chars` into a `double`, which is not modelled further: the number and the text behind it. -/
structure DoubleFormat (Rate : Type) where
  fromChars : Text → Option (Rate × Text)
  negative : Rate → Bool

def kDefaultShmName : Text := "/pc-ring".toList

/-- The number that is the whole of the text, unless it is negative. -/
def DoubleFormat.nonNegative {Rate : Type} (double : DoubleFormat Rate) (text : Text) : Option Rate :=
  match double.fromChars text with
  | some (value, []) => if double.negative value then none else some value
  | _ => none

namespace Parsed

variable (parsed : Parsed)

/-- The text of an option, converted; the error names the option and quotes the text. -/
def convertOption {α : Type} (convert : Text → Option α) (expected name : Text) : Except UsageError α :=
  let text := (parsed.value name).getD []
  match convert text with
  | none => .error ⟨"--".toList ++ name ++ ": '".toList ++ text ++ "' is not ".toList ++ expected⟩
  | some value => .ok value

def byteSizeOption (name : Text) : Except UsageError U64 :=
  parsed.convertOption parseByteSize "a byte size (e.g. 4096, 64K, 16M)".toList name

def uintOption (name : Text) : Except UsageError U64 :=
  parsed.convertOption parseUint "a non-negative integer".toList name

def doubleOption {Rate : Type} (double : DoubleFormat Rate) (name : Text) : Except UsageError Rate :=
  parsed.convertOption double.nonNegative "a non-negative number".toList name

end Parsed

/-! ### The producer -/

structure ProducerOptions (Rate : Type) where
  payloadSize : U64
  shmName : Text
  ringSize : U64
  generator : Text
  checksum : Text
  seed : U64
  rate : Rate
  count : U64
  /-- The count of the `std::chrono::milliseconds`, a signed 64-bit number. -/
  reportInterval : Int
  keyboard : Bool
  waitForConsumer : Bool

def producerCommandLine : CommandLine :=
  CommandLine.new
    |>.positional "payload-size".toList
    |>.option "payload-size".toList 's' "bytes".toList
    |>.option "shm-name".toList 'n' "name".toList kDefaultShmName
    |>.option "ring-size".toList 'r' "bytes".toList "64M".toList
    |>.option "generator".toList 'g' "kind".toList "random".toList
    |>.option "checksum".toList 'k' "algo".toList "crc32c".toList
    |>.option "seed".toList '\x00' "n".toList "1".toList
    |>.option "rate".toList '\x00' "pps".toList "0".toList
    |>.option "count".toList 'c' "n".toList "0".toList
    |>.option "report-interval".toList '\x00' "ms".toList "1000".toList
    |>.flag "wait-for-consumer".toList 'w'
    |>.flag "no-keyboard".toList '\x00'

def payloadGivenTwice : UsageError :=
  ⟨"payload size given both as an argument and as --payload-size".toList⟩

def payloadRequired : UsageError :=
  ⟨"payload size is required (e.g. 'producer 1024' or 'producer --payload-size 4K')".toList⟩

def notAByteSize (text : Text) : UsageError :=
  ⟨"'".toList ++ text ++ "' is not a byte size (e.g. 4096, 64K, 16M)".toList⟩

/-- The part of `parse_producer_options` that finds the text of the payload size. -/
def payloadText (parsed : Parsed) : Except UsageError (Option Text) :=
  match parsed.positionals with
  | [] => .ok (parsed.value "payload-size".toList)
  | first :: _ => if parsed.given "payload-size".toList then .error payloadGivenTwice else .ok (some first)

/-- `interval` of both programs: a positive number, as a count of milliseconds. -/
def intervalOption (parsed : Parsed) : Except UsageError Int := do
  let interval ← parsed.uintOption "report-interval".toList
  if interval == 0 then .error ⟨"--report-interval must be positive".toList⟩
  .ok interval.toInt

/-- `parse_producer_options`; nothing is returned for `--help`, whose text is not modelled. -/
def parseProducerOptions {Rate : Type} (double : DoubleFormat Rate) (argv : List Text) :
    Except UsageError (Option (ProducerOptions Rate)) := do
  let parsed ← producerCommandLine.parse argv
  if parsed.given "help".toList then
    return none
  match ← payloadText parsed with
  | none => .error payloadRequired
  | some text =>
    match parseByteSize text with
    | none => .error (notAByteSize text)
    | some payload =>
      let ringSize ← parsed.byteSizeOption "ring-size".toList
      let seed ← parsed.uintOption "seed".toList
      let rate ← parsed.doubleOption double "rate".toList
      let count ← parsed.uintOption "count".toList
      let interval ← intervalOption parsed
      return some {
        payloadSize := payload
        shmName := (parsed.value "shm-name".toList).getD kDefaultShmName
        ringSize := ringSize
        generator := (parsed.value "generator".toList).getD "random".toList
        checksum := (parsed.value "checksum".toList).getD "crc32c".toList
        seed := seed
        rate := rate
        count := count
        reportInterval := interval
        keyboard := !parsed.given "no-keyboard".toList
        waitForConsumer := parsed.given "wait-for-consumer".toList }

/-! ### The consumer -/

structure ConsumerOptions where
  shmName : Text
  pausePolicy : Text
  reportInterval : Int
  maxDefectLogs : U32
  keyboard : Bool
  once : Bool

def consumerCommandLine : CommandLine :=
  CommandLine.new
    |>.option "shm-name".toList 'n' "name".toList kDefaultShmName
    |>.option "pause-policy".toList 'p' "policy".toList "block".toList
    |>.option "report-interval".toList '\x00' "ms".toList "1000".toList
    |>.option "log-defects".toList '\x00' "n".toList "10".toList
    |>.flag "once".toList '1'
    |>.flag "no-keyboard".toList '\x00'

def parseConsumerOptions (argv : List Text) : Except UsageError (Option ConsumerOptions) := do
  let parsed ← consumerCommandLine.parse argv
  if parsed.given "help".toList then
    return none
  let interval ← intervalOption parsed
  let logDefects ← parsed.uintOption "log-defects".toList
  return some {
    shmName := (parsed.value "shm-name".toList).getD kDefaultShmName
    pausePolicy := (parsed.value "pause-policy".toList).getD "block".toList
    reportInterval := interval
    maxDefectLogs := logDefects.setWidth 32
    keyboard := !parsed.given "no-keyboard".toList
    once := parsed.given "once".toList }

/-- The period of a `PeriodicTimer` in nanoseconds, from a count of milliseconds. -/
def timerPeriod (milliseconds : Int) : Option Int := Signed.checked 64 (milliseconds * 1000000)

/-! ### The value of an option -/

/-- The value of an option as the parser documents it: the value given last, otherwise its default, otherwise nothing. -/
def Spec.documentedValue (spec : Spec) (items : List Item) : Option Text :=
  (lastValue items spec.name).or (if spec.defaultValue.isEmpty then none else some spec.defaultValue)

/-- The text that an option has: the value given last, otherwise the default. -/
def optionText (items : List Item) (name defaultValue : Text) : Text := (lastValue items name).getD defaultValue

namespace CommandLine

variable {cli : CommandLine} {argv : List Text} {items : List Item} {parsed : Parsed}

theorem foldl_of_parse (hitems : cli.readArgs false argv.tail = .ok items) (hparse : cli.parse argv = .ok parsed) :
    parsed = items.foldl Parsed.apply cli.defaults := by
  obtain ⟨items', hitems', -, rfl⟩ := parse_eq_ok_iff.1 hparse
  rw [hitems, Except.ok.injEq] at hitems'
  rw [hitems']

/-- What the code returns for an option, which is never nothing. -/
theorem value_of_parse (hnames : (cli.specs.map Spec.name).Nodup)
    (hitems : cli.readArgs false argv.tail = .ok items) (hparse : cli.parse argv = .ok parsed) {spec : Spec}
    (hspec : spec ∈ cli.specs) (hflag : spec.isFlag = false) :
    parsed.value spec.name = some (optionText items spec.name spec.defaultValue) := by
  rw [foldl_of_parse hitems hparse, Parsed.value_foldl_apply, defaults_value_of_mem cli hnames hspec hflag, optionText]
  cases lastValue items spec.name <;> rfl

theorem given_of_parse (hitems : cli.readArgs false argv.tail = .ok items) (hparse : cli.parse argv = .ok parsed)
    (name : Text) : parsed.given name = (lastValue items name).isSome := by
  rw [foldl_of_parse hitems hparse, Parsed.given_foldl_apply, defaults_given, Bool.or_false]

theorem positionals_of_parse (hitems : cli.readArgs false argv.tail = .ok items) (hparse : cli.parse argv = .ok parsed) :
    parsed.positionals = positionalTexts items := by
  rw [foldl_of_parse hitems hparse, Parsed.positionals_foldl_apply, defaults_positionals, List.nil_append]

end CommandLine

theorem optionText_eq_documentedValue_iff (spec : Spec) (items : List Item) :
    some (optionText items spec.name spec.defaultValue) = spec.documentedValue items ↔
      spec.defaultValue ≠ [] ∨ (lastValue items spec.name).isSome = true := by
  unfold optionText Spec.documentedValue
  cases lastValue items spec.name with
  | some value => simp
  | none => cases spec.defaultValue <;> simp

theorem producerCommandLine_names : (producerCommandLine.specs.map Spec.name).Nodup := by decide

theorem consumerCommandLine_names : (consumerCommandLine.specs.map Spec.name).Nodup := by decide

/-- Without a payload size the empty text is read as one. -/
theorem parseProducerOptions_without_payload {Rate : Type} (double : DoubleFormat Rate) {argv : List Text}
    {items : List Item} {parsed : Parsed} (hitems : producerCommandLine.readArgs false argv.tail = .ok items)
    (hparse : producerCommandLine.parse argv = .ok parsed) (hhelp : lastValue items "help".toList = none)
    (hpositionals : positionalTexts items = []) (hpayload : lastValue items "payload-size".toList = none) :
    parseProducerOptions double argv = .error (notAByteSize []) := by
  have hgiven : parsed.given "help".toList = false := by
    rw [CommandLine.given_of_parse hitems hparse, hhelp, Option.isSome_none]
  have hspec : ⟨"payload-size".toList, 's', "bytes".toList, []⟩ ∈ producerCommandLine.specs := by decide
  have hvalue : parsed.value "payload-size".toList = some [] := by
    rw [CommandLine.value_of_parse producerCommandLine_names hitems hparse hspec rfl, optionText, hpayload]
    rfl
  have htext : payloadText parsed = .ok (some []) := by
    rw [payloadText, CommandLine.positionals_of_parse hitems hparse, hpositionals, hvalue]
  have hempty : parseByteSize [] = none := by decide
  simp only [parseProducerOptions, hparse, bind, Except.bind, hgiven, Bool.false_eq_true, if_false, htext, hempty]

/-- The documented value is what an option has if and only if it was given or has a default; a missing payload size is
never reported as missing. -/
theorem documented_value_iff {Rate : Type} (double : DoubleFormat Rate) {cli : CommandLine}
    (hnames : (cli.specs.map Spec.name).Nodup) {argv : List Text} {items : List Item} {parsed : Parsed}
    (hitems : cli.readArgs false argv.tail = .ok items) (hparse : cli.parse argv = .ok parsed) :
    (∀ spec ∈ cli.specs, spec.isFlag = false → (parsed.value spec.name = spec.documentedValue items ↔
      spec.defaultValue ≠ [] ∨ (lastValue items spec.name).isSome = true)) ∧
    (cli = producerCommandLine → lastValue items "help".toList = none → positionalTexts items = [] →
      lastValue items "payload-size".toList = none → parseProducerOptions double argv ≠ .error payloadRequired) := by
  refine ⟨fun spec hspec hflag => ?_, ?_⟩
  · rw [CommandLine.value_of_parse hnames hitems hparse hspec hflag, optionText_eq_documentedValue_iff]
  · rintro rfl hhelp hpositionals hpayload
    rw [parseProducerOptions_without_payload double hitems hparse hhelp hpositionals hpayload]
    exact fun h => absurd (Except.error.inj h) (by decide)

/-- A format that reads nothing. -/
def noDouble : DoubleFormat Unit := ⟨fun _ => none, fun _ => false⟩

/-- `producer` alone: the payload size, which has no default, is the empty text. -/
theorem payload_size_empty :
    (∃ parsed, producerCommandLine.parse ["producer".toList] = .ok parsed ∧
      parsed.value "payload-size".toList = some [] ∧
      Spec.documentedValue ⟨"payload-size".toList, 's', "bytes".toList, []⟩ [] = none) ∧
    parseProducerOptions noDouble ["producer".toList] = .error (notAByteSize []) ∧
    notAByteSize [] ≠ payloadRequired := by
  have hitems : producerCommandLine.readArgs false ["producer".toList].tail = .ok [] := rfl
  exact ⟨⟨_, rfl, by decide, by decide⟩,
    parseProducerOptions_without_payload noDouble hitems rfl rfl rfl rfl, by decide⟩

/-- The payload size is given, the seed has a default. -/
theorem documented_value_iff_given : ∃ parsed,
    producerCommandLine.parse ["producer".toList, "--payload-size=64".toList] = .ok parsed ∧
    parsed.value "payload-size".toList = some "64".toList ∧
    parsed.value "seed".toList = some "1".toList := by
  have hitems : producerCommandLine.readArgs false ["producer".toList, "--payload-size=64".toList].tail =
      .ok [.option "payload-size".toList "64".toList] := by
    decide +kernel
  have hok : (producerCommandLine.parse ["producer".toList, "--payload-size=64".toList]).toOption.isSome = true := by
    decide +kernel
  cases hparse : producerCommandLine.parse ["producer".toList, "--payload-size=64".toList] with
  | error e =>
    rw [hparse] at hok
    cases hok
  | ok parsed =>
    have h := (documented_value_iff noDouble producerCommandLine_names hitems hparse).1
    refine ⟨parsed, rfl, ?_, ?_⟩
    · exact (h ⟨"payload-size".toList, 's', "bytes".toList, []⟩ (by decide) rfl).2 (.inr (by decide))
    · exact (h ⟨"seed".toList, '\x00', "n".toList, "1".toList⟩ (by decide) rfl).2 (.inl (by decide))

end ProducerConsumer
