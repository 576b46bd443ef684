import Mathlib.Data.List.Nodup
import Mathlib.Data.List.TakeWhile
import Mathlib.Tactic.Common

/-!
# The command line parser

`CommandLine::parse` walks over `argv` once, consuming one or two arguments in a round, and overwrites the entries that
it filled with the defaults.  The walk is split here into what the arguments say (a list of items) and what the items
do to the entries; `parseLoop_eq` puts the two together.
-/

namespace ProducerConsumer

/-- A `std::string` or `std::string_view`: its bytes, each as the character with that code. -/
abbrev Text := List Char

/-- The exception of a malformed command line, with its message. -/
structure UsageError where
  what : Text
  deriving DecidableEq, Repr

/-! ### Declarations and parsed values -/

/-- `CommandLine::Spec`, without the description that only the help text prints. -/
structure Spec where
  name : Text
  /-- `'\0'` where there is none. -/
  shortName : Char
  /-- Empty for flags. -/
  valueName : Text
  defaultValue : Text
  deriving DecidableEq

def Spec.isFlag (spec : Spec) : Bool := spec.valueName.isEmpty

/-- The declared options, flags and positional arguments (of the latter the names). -/
structure CommandLine where
  specs : List Spec
  positionals : List Text

namespace CommandLine

def option (cli : CommandLine) (name : Text) (shortName : Char) (valueName : Text) (defaultValue : Text := []) :
    CommandLine :=
  { cli with specs := cli.specs ++ [⟨name, shortName, valueName, defaultValue⟩] }

def flag (cli : CommandLine) (name : Text) (shortName : Char) : CommandLine :=
  { cli with specs := cli.specs ++ [⟨name, shortName, [], []⟩] }

def positional (cli : CommandLine) (name : Text) : CommandLine :=
  { cli with positionals := cli.positionals ++ [name] }

/-- The constructor: `--help` is a flag of every command line. -/
def new : CommandLine := flag ⟨[], []⟩ "help".toList 'h'

def findLong (cli : CommandLine) (name : Text) : Option Spec := cli.specs.find? fun spec => spec.name == name

def findShort (cli : CommandLine) (name : Char) : Option Spec :=
  cli.specs.find? fun spec => spec.shortName != '\x00' && spec.shortName == name

end CommandLine

/-- `Parsed::Entry`. -/
structure Entry where
  name : Text
  value : Text
  explicitValue : Bool

structure Parsed where
  entries : List Entry
  positionals : List Text

namespace Parsed

def value (parsed : Parsed) (name : Text) : Option Text :=
  (parsed.entries.find? fun entry => entry.name == name).map Entry.value

def given (parsed : Parsed) (name : Text) : Bool :=
  parsed.entries.any fun entry => entry.name == name && entry.explicitValue

/-- The loop of `assign`: the first entry of that name is overwritten, else one is appended. -/
def assignEntry (name value : Text) : List Entry → List Entry
  | [] => [⟨name, value, true⟩]
  | entry :: entries =>
    if entry.name == name then ⟨entry.name, value, true⟩ :: entries else entry :: assignEntry name value entries

def assign (parsed : Parsed) (spec : Spec) (value : Text) : Parsed :=
  { parsed with entries := assignEntry spec.name value parsed.entries }

def addPositional (parsed : Parsed) (arg : Text) : Parsed :=
  { parsed with positionals := parsed.positionals ++ [arg] }

end Parsed

/-! ### `parse` -/

/-- What follows the dash of an argument of at least two characters that starts with one. -/
def optionChars : Text → Option (Char × Text)
  | '-' :: c :: body => some (c, body)
  | _ => none

/-- `name.find('=')` and the two `substr`: the name before the first `'='`, the value behind it. -/
def splitInline (body : Text) : Text × Option Text :=
  (body.takeWhile (· != '='), match body.dropWhile (· != '=') with
    | [] => none
    | _ :: value => some value)

namespace CommandLine

/-- The option that an argument `-c…` names, and the value written in the same argument. -/
def selectSpec (cli : CommandLine) (c : Char) (body : Text) : Except UsageError (Spec × Option Text) :=
  if c == '-' then
    let (name, inlineValue) := splitInline body
    match cli.findLong name with
    | none => .error ⟨"unknown option '--".toList ++ name ++ "'".toList⟩
    | some spec => .ok (spec, inlineValue)
  else
    match cli.findShort c with
    | none => .error ⟨"unknown option '-".toList ++ [c] ++ "'".toList⟩
    | some spec => .ok (spec, if body.isEmpty then none else some body)

/-- The loop of `parse` from the argument `i` on. -/
def parseLoop (cli : CommandLine) : Bool → Parsed → List Text → Except UsageError Parsed
  | _, parsed, [] => .ok parsed
  | onlyPositionals, parsed, arg :: rest =>
    match if onlyPositionals then none else optionChars arg with
    | none => parseLoop cli onlyPositionals (parsed.addPositional arg) rest
    | some (c, body) =>
      if c == '-' && body.isEmpty then parseLoop cli true parsed rest
      else
        match cli.selectSpec c body with
        | .error e => .error e
        | .ok (spec, inlineValue) =>
          if spec.isFlag then
            match inlineValue with
            | some _ => .error ⟨"option '--".toList ++ spec.name ++ "' does not take a value".toList⟩
            | none => parseLoop cli onlyPositionals (parsed.assign spec "true".toList) rest
          else
            match inlineValue, rest with
            | some value, rest => parseLoop cli onlyPositionals (parsed.assign spec value) rest
            | none, value :: rest => parseLoop cli onlyPositionals (parsed.assign spec value) rest
            | none, [] => .error ⟨"option '--".toList ++ spec.name ++ "' requires a value".toList⟩

/-- The entries of the options, with their defaults. -/
def defaults (cli : CommandLine) : Parsed :=
  ⟨(cli.specs.filter (!·.isFlag)).map fun spec => ⟨spec.name, spec.defaultValue, false⟩, []⟩

/-- `CommandLine::parse`; `argv[0]` is the program. -/
def parse (cli : CommandLine) (argv : List Text) : Except UsageError Parsed := do
  let parsed ← cli.parseLoop false cli.defaults argv.tail
  if h : cli.positionals.length < parsed.positionals.length then
    .error ⟨"unexpected argument '".toList ++ parsed.positionals[cli.positionals.length] ++ "'".toList⟩
  else .ok parsed

end CommandLine

/-! ### What the arguments say -/

/-- One thing that a command line says: a flag, an option with its value, or a positional argument. -/
inductive Item
  | flag (name : Text)
  | option (name value : Text)
  | positional (text : Text)
  deriving DecidableEq

namespace Item

/-- What an item gives to the entry `name`. -/
def valueOf (name : Text) : Item → Option Text
  | .flag n => if n = name then some "true".toList else none
  | .option n value => if n = name then some value else none
  | .positional _ => none

def positionalText : Item → Option Text
  | .positional text => some text
  | _ => none

end Item

/-- The value given last to `name`. -/
def lastValue (items : List Item) (name : Text) : Option Text := (items.filterMap (Item.valueOf name)).getLast?

def positionalTexts (items : List Item) : List Text := items.filterMap Item.positionalText

namespace CommandLine

/-- The arguments as items; the errors are those of `parse`. -/
def readArgs (cli : CommandLine) : Bool → List Text → Except UsageError (List Item)
  | _, [] => .ok []
  | onlyPositionals, arg :: rest =>
    match if onlyPositionals then none else optionChars arg with
    | none => (readArgs cli onlyPositionals rest).map (Item.positional arg :: ·)
    | some (c, body) =>
      if c == '-' && body.isEmpty then readArgs cli true rest
      else
        match cli.selectSpec c body with
        | .error e => .error e
        | .ok (spec, inlineValue) =>
          if spec.isFlag then
            match inlineValue with
            | some _ => .error ⟨"option '--".toList ++ spec.name ++ "' does not take a value".toList⟩
            | none => (readArgs cli onlyPositionals rest).map (Item.flag spec.name :: ·)
          else
            match inlineValue, rest with
            | some value, rest => (readArgs cli onlyPositionals rest).map (Item.option spec.name value :: ·)
            | none, value :: rest => (readArgs cli onlyPositionals rest).map (Item.option spec.name value :: ·)
            | none, [] => .error ⟨"option '--".toList ++ spec.name ++ "' requires a value".toList⟩

end CommandLine

namespace Parsed

/-- What one item does to the parsed values. -/
def apply (parsed : Parsed) : Item → Parsed
  | .flag name => { parsed with entries := assignEntry name "true".toList parsed.entries }
  | .option name value => { parsed with entries := assignEntry name value parsed.entries }
  | .positional text => parsed.addPositional text

end Parsed

theorem map_foldl_apply (parsed : Parsed) (item : Item) (items : Except UsageError (List Item)) :
    ((items.map (item :: ·)).map fun items => items.foldl Parsed.apply parsed)
      = items.map fun items => items.foldl Parsed.apply (parsed.apply item) := by
  cases items <;> rfl

namespace CommandLine

/-- The loop applies the items in the order in which it reads them. -/
theorem parseLoop_eq (cli : CommandLine) (onlyPositionals : Bool) (parsed : Parsed) (args : List Text) :
    cli.parseLoop onlyPositionals parsed args
      = (cli.readArgs onlyPositionals args).map fun items => items.foldl Parsed.apply parsed := by
  fun_induction parseLoop cli onlyPositionals parsed args with
  | case1 => simp only [readArgs]; rfl
  | case2 only parsed arg rest hchars ih =>
    simp only [readArgs, hchars, map_foldl_apply]
    exact ih
  | case3 only parsed arg rest c body hchars hend ih =>
    simp only [readArgs, hchars, if_pos hend]
    exact ih
  | case4 only parsed arg rest c body hchars hend e hspec =>
    simp only [readArgs, hchars, if_neg hend, hspec]
    rfl
  | case5 only parsed arg rest c body hchars hend spec hflag v hspec =>
    simp only [readArgs, hchars, if_neg hend, hspec, if_pos hflag]
    rfl
  | case6 only parsed arg rest c body hchars hend spec hflag hspec ih =>
    simp only [readArgs, hchars, if_neg hend, hspec, if_pos hflag, map_foldl_apply]
    exact ih
  | case7 only parsed arg c body hchars hend spec hflag v rest hspec ih =>
    simp only [readArgs, hchars, if_neg hend, hspec, if_neg hflag, map_foldl_apply]
    exact ih
  | case8 only parsed arg c body hchars hend spec hflag v rest hspec ih =>
    simp only [readArgs, hchars, if_neg hend, hspec, if_neg hflag, map_foldl_apply]
    exact ih
  | case9 only parsed arg c body hchars hend spec hflag hspec =>
    simp only [readArgs, hchars, if_neg hend, hspec, if_neg hflag]
    rfl

end CommandLine

/-! ### What the items do -/

namespace Parsed

@[simp] theorem find?_assignEntry (name value m : Text) (entries : List Entry) :
    ((assignEntry name value entries).find? fun entry => entry.name == m).map Entry.value
      = if name = m then some value else (entries.find? fun entry => entry.name == m).map Entry.value := by
  induction entries with
  | nil => by_cases h : name = m <;> simp [assignEntry, h]
  | cons entry entries ih =>
    by_cases hentry : entry.name = name
    · by_cases h : name = m <;> simp [assignEntry, hentry, h]
    · by_cases hm : entry.name = m
      · subst hm
        simp [assignEntry, hentry, Ne.symm hentry]
      · simpa [assignEntry, hentry, hm] using ih

@[simp] theorem any_assignEntry (name value m : Text) (entries : List Entry) :
    ((assignEntry name value entries).any fun entry => entry.name == m && entry.explicitValue)
      = (name == m || entries.any fun entry => entry.name == m && entry.explicitValue) := by
  induction entries with
  | nil => simp [assignEntry]
  | cons entry entries ih =>
    by_cases hentry : entry.name = name
    · by_cases h : name = m
      · simp [assignEntry, hentry, h]
      · have hbeq : (name == m) = false := by simpa using h
        simp [assignEntry, hentry, hbeq]
    · simp only [assignEntry, beq_iff_eq, hentry, if_false, List.any_cons, ih]
      rw [Bool.or_left_comm]

theorem value_apply (parsed : Parsed) (item : Item) (name : Text) :
    (parsed.apply item).value name = (item.valueOf name).or (parsed.value name) := by
  cases item with
  | flag n => by_cases h : n = name <;> simp [apply, value, Item.valueOf, h]
  | option n v => by_cases h : n = name <;> simp [apply, value, Item.valueOf, h]
  | positional text => rfl

theorem given_apply (parsed : Parsed) (item : Item) (name : Text) :
    (parsed.apply item).given name = ((item.valueOf name).isSome || parsed.given name) := by
  cases item with
  | flag n => by_cases h : n = name <;> simp [apply, given, Item.valueOf, h]
  | option n v => by_cases h : n = name <;> simp [apply, given, Item.valueOf, h]
  | positional text => rfl

theorem positionals_apply (parsed : Parsed) (item : Item) :
    (parsed.apply item).positionals = parsed.positionals ++ item.positionalText.toList := by
  cases item <;> simp [apply, addPositional, Item.positionalText]

end Parsed

@[simp] theorem lastValue_cons (item : Item) (items : List Item) (name : Text) :
    lastValue (item :: items) name = (lastValue items name).or (item.valueOf name) := by
  unfold lastValue
  cases h : item.valueOf name with
  | none => simp [h]
  | some v => simp [h, List.getLast?_cons]

namespace Parsed

variable (parsed : Parsed) (items : List Item)

/-- The value given last, and where there is none the one that was there before. -/
theorem value_foldl_apply (name : Text) :
    (items.foldl apply parsed).value name = (lastValue items name).or (parsed.value name) := by
  induction items generalizing parsed with
  | nil => rfl
  | cons item items ih => rw [List.foldl_cons, ih, value_apply, lastValue_cons, Option.or_assoc]

theorem given_foldl_apply (name : Text) :
    (items.foldl apply parsed).given name = ((lastValue items name).isSome || parsed.given name) := by
  induction items generalizing parsed with
  | nil => rfl
  | cons item items ih => rw [List.foldl_cons, ih, given_apply, lastValue_cons, Option.isSome_or, Bool.or_assoc]

theorem positionals_foldl_apply :
    (items.foldl apply parsed).positionals = parsed.positionals ++ positionalTexts items := by
  induction items generalizing parsed with
  | nil => simp [positionalTexts]
  | cons item items ih =>
    rw [List.foldl_cons, ih, positionals_apply, List.append_assoc]
    cases h : item.positionalText <;> simp [positionalTexts, h]

end Parsed

namespace CommandLine

variable (cli : CommandLine)

@[simp] theorem defaults_positionals : cli.defaults.positionals = [] := rfl

@[simp] theorem defaults_given (name : Text) : cli.defaults.given name = false := by
  simp [defaults, Parsed.given]

theorem defaults_value (name : Text) :
    cli.defaults.value name = (cli.specs.find? fun spec => !spec.isFlag && spec.name == name).map Spec.defaultValue := by
  simp [defaults, Parsed.value, List.find?_map, List.find?_filter, Function.comp_def, beq_eq_decide]

/-- With distinct names the entry of an option holds its own default. -/
theorem defaults_value_of_mem (hnames : (cli.specs.map Spec.name).Nodup) {spec : Spec} (hspec : spec ∈ cli.specs)
    (hflag : spec.isFlag = false) : cli.defaults.value spec.name = some spec.defaultValue := by
  rw [defaults_value]
  cases hfind : cli.specs.find? fun s => !s.isFlag && s.name == spec.name with
  | none =>
    have := List.find?_eq_none.1 hfind spec hspec
    simp [hflag] at this
  | some s =>
    have hname : s.name = spec.name := by
      have := List.find?_some hfind
      simp only [Bool.and_eq_true, beq_iff_eq] at this
      exact this.2
    rw [List.inj_on_of_nodup_map hnames (List.mem_of_find?_eq_some hfind) hspec hname]
    rfl

variable {cli} {argv : List Text} {items : List Item}

/-- What `parse` accepts and what it returns, in terms of the items. -/
theorem parse_eq_ok_iff {parsed : Parsed} : cli.parse argv = .ok parsed ↔
    ∃ items, cli.readArgs false argv.tail = .ok items ∧
      (positionalTexts items).length ≤ cli.positionals.length ∧ parsed = items.foldl Parsed.apply cli.defaults := by
  unfold parse
  rw [parseLoop_eq]
  cases hread : cli.readArgs false argv.tail with
  | error e => simp [Except.map, bind, Except.bind]
  | ok items =>
    simp only [Except.map, bind, Except.bind, Parsed.positionals_foldl_apply, defaults_positionals, List.nil_append,
      Except.ok.injEq, exists_eq_left']
    by_cases h : cli.positionals.length < (positionalTexts items).length
    · simp [h, Nat.not_le.2 h]
    · simp [h, Nat.not_lt.1 h, eq_comm]

end CommandLine

end ProducerConsumer
