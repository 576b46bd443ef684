import ProducerConsumer.CommandLine

/-!
# The spellings of a command line

Every spelling of a list of items is read as that list, and nothing else is read.
-/

namespace ProducerConsumer

namespace CommandLine

/-- `cli.Spells items args`: the arguments are the items, each in one of its spellings. -/
inductive Spells (cli : CommandLine) : List Item → List Text → Prop
  | nil : Spells cli [] []
  | longFlag {spec items args} : spec ∈ cli.specs → spec.isFlag = true → Spells cli items args →
      Spells cli (.flag spec.name :: items) (('-' :: '-' :: spec.name) :: args)
  | shortFlag {spec items args} : spec ∈ cli.specs → spec.isFlag = true → spec.shortName ≠ '\x00' →
      Spells cli items args → Spells cli (.flag spec.name :: items) (['-', spec.shortName] :: args)
  | longInline {spec items args} (value) : spec ∈ cli.specs → spec.isFlag = false → Spells cli items args →
      Spells cli (.option spec.name value :: items) (('-' :: '-' :: spec.name ++ '=' :: value) :: args)
  | longNext {spec items args} (value) : spec ∈ cli.specs → spec.isFlag = false → Spells cli items args →
      Spells cli (.option spec.name value :: items) (('-' :: '-' :: spec.name) :: value :: args)
  | shortNext {spec items args} (value) : spec ∈ cli.specs → spec.isFlag = false → spec.shortName ≠ '\x00' →
      Spells cli items args → Spells cli (.option spec.name value :: items) (['-', spec.shortName] :: value :: args)
  | shortInline {spec items args} (value) : spec ∈ cli.specs → spec.isFlag = false → spec.shortName ≠ '\x00' →
      value ≠ [] → Spells cli items args →
      Spells cli (.option spec.name value :: items) (('-' :: spec.shortName :: value) :: args)
  | positional {text items args} : text.length < 2 ∨ text.head? ≠ some '-' → Spells cli items args →
      Spells cli (.positional text :: items) (text :: args)
  | endOfOptions (texts) : Spells cli (texts.map .positional) ("--".toList :: texts)

/-- The names and short names do not get in each other's way. -/
structure WellNamed (cli : CommandLine) : Prop where
  names : (cli.specs.map Spec.name).Nodup
  nonempty : ∀ spec ∈ cli.specs, spec.name ≠ []
  noEquals : ∀ spec ∈ cli.specs, '=' ∉ spec.name
  shortNames : ((cli.specs.map Spec.shortName).filter (· != '\x00')).Nodup
  noDash : ∀ spec ∈ cli.specs, spec.shortName ≠ '-'

variable {cli : CommandLine} {spec : Spec}

theorem optionChars_eq_none {text : Text} (h : text.length < 2 ∨ text.head? ≠ some '-') : optionChars text = none := by
  unfold optionChars
  split
  · exact h.elim (fun hlen => absurd hlen (by simp)) fun hhead => absurd rfl hhead
  · rfl

/-- No character of a name without an equals sign ends it. -/
theorem ne_equals {name : Text} (h : '=' ∉ name) : ∀ c ∈ name, (c != '=') = true := by
  intro c hc
  rw [bne_iff_ne]
  rintro rfl
  exact h hc

theorem splitInline_of_notMem {name : Text} (h : '=' ∉ name) : splitInline name = (name, none) := by
  have htake := List.takeWhile_eq_self_iff.2 (ne_equals h)
  have hdrop := List.dropWhile_eq_nil_iff.2 (ne_equals h)
  rw [splitInline, htake, hdrop]

theorem splitInline_append {name : Text} (h : '=' ∉ name) (value : Text) :
    splitInline (name ++ '=' :: value) = (name, some value) := by
  rw [splitInline, List.takeWhile_append_of_pos (ne_equals h), List.dropWhile_append_of_pos (ne_equals h)]
  simp

theorem findLong_of_mem (h : cli.WellNamed) (hspec : spec ∈ cli.specs) : cli.findLong spec.name = some spec := by
  unfold findLong
  cases hfind : cli.specs.find? fun s => s.name == spec.name with
  | none => exact absurd (List.find?_eq_none.1 hfind spec hspec) (by simp)
  | some s =>
    have hname : s.name = spec.name := by simpa using List.find?_some hfind
    rw [List.inj_on_of_nodup_map h.names (List.mem_of_find?_eq_some hfind) hspec hname]

theorem findShort_of_mem (h : cli.WellNamed) (hspec : spec ∈ cli.specs) (hshort : spec.shortName ≠ '\x00') :
    cli.findShort spec.shortName = some spec := by
  unfold findShort
  cases hfind : cli.specs.find? fun s => s.shortName != '\x00' && s.shortName == spec.shortName with
  | none => exact absurd (List.find?_eq_none.1 hfind spec hspec) (by simpa using hshort)
  | some s =>
    have hs := List.find?_some hfind
    simp only [Bool.and_eq_true, bne_iff_ne, beq_iff_eq] at hs
    have hnodup : ((cli.specs.filter fun s => s.shortName != '\x00').map Spec.shortName).Nodup := by
      have := h.shortNames
      rwa [List.filter_map] at this
    rw [List.inj_on_of_nodup_map hnodup (List.mem_filter.2 ⟨List.mem_of_find?_eq_some hfind, by simpa using hs.1⟩)
      (List.mem_filter.2 ⟨hspec, by simpa using hshort⟩) hs.2]

theorem selectSpec_long (h : cli.WellNamed) (hspec : spec ∈ cli.specs) :
    cli.selectSpec '-' spec.name = .ok (spec, none) := by
  simp [selectSpec, splitInline_of_notMem (h.noEquals spec hspec), findLong_of_mem h hspec]

theorem selectSpec_longInline (h : cli.WellNamed) (hspec : spec ∈ cli.specs) (value : Text) :
    cli.selectSpec '-' (spec.name ++ '=' :: value) = .ok (spec, some value) := by
  simp [selectSpec, splitInline_append (h.noEquals spec hspec), findLong_of_mem h hspec]

theorem selectSpec_short (h : cli.WellNamed) (hspec : spec ∈ cli.specs) (hshort : spec.shortName ≠ '\x00')
    (body : Text) : cli.selectSpec spec.shortName body = .ok (spec, if body.isEmpty then none else some body) := by
  simp [selectSpec, h.noDash spec hspec, findShort_of_mem h hspec hshort]

theorem readArgs_onlyPositionals (cli : CommandLine) (texts : List Text) :
    cli.readArgs true texts = .ok (texts.map .positional) := by
  induction texts with
  | nil => rfl
  | cons text texts ih => simp [readArgs, ih, Except.map]

/-- Every spelling of a list of items is read as that list. -/
theorem Spells.readArgs (h : cli.WellNamed) {items : List Item} {args : List Text} (hspell : cli.Spells items args) :
    cli.readArgs false args = .ok items := by
  induction hspell with
  | nil => rfl
  | longFlag hspec hflag _ ih =>
    simp [CommandLine.readArgs, optionChars, h.nonempty _ hspec, selectSpec_long h hspec, hflag, ih, Except.map]
  | shortFlag hspec hflag hshort _ ih =>
    simp [CommandLine.readArgs, optionChars, h.noDash _ hspec, selectSpec_short h hspec hshort, hflag, ih, Except.map]
  | longInline value hspec hflag _ ih =>
    simp [CommandLine.readArgs, optionChars, selectSpec_longInline h hspec, hflag, ih, Except.map]
  | longNext value hspec hflag _ ih =>
    simp [CommandLine.readArgs, optionChars, h.nonempty _ hspec, selectSpec_long h hspec, hflag, ih, Except.map]
  | shortNext value hspec hflag hshort _ ih =>
    simp [CommandLine.readArgs, optionChars, h.noDash _ hspec, selectSpec_short h hspec hshort, hflag, ih, Except.map]
  | shortInline value hspec hflag hshort hvalue _ ih =>
    simp [CommandLine.readArgs, optionChars, hvalue, selectSpec_short h hspec hshort, hflag, ih, Except.map]
  | positional htext _ ih => simp [CommandLine.readArgs, optionChars_eq_none htext, ih, Except.map]
  | endOfOptions texts => simp [CommandLine.readArgs, optionChars, readArgs_onlyPositionals]

/-! ### Nothing else is accepted -/

theorem optionChars_eq_some {text body : Text} {c : Char} (h : optionChars text = some (c, body)) :
    text = '-' :: c :: body := by
  unfold optionChars at h
  split at h
  · cases h
    rfl
  · cases h

theorem positional_of_optionChars {text : Text} (h : optionChars text = none) :
    text.length < 2 ∨ text.head? ≠ some '-' := by
  match text with
  | [] => exact .inl (by simp)
  | [_] => exact .inl (by simp)
  | d :: c :: body =>
    refine .inr fun hd => ?_
    obtain rfl : d = '-' := by simpa using hd
    cases h

theorem splitInline_eq (body : Text) :
    (∃ name, splitInline body = (name, none) ∧ body = name) ∨
      ∃ name value, splitInline body = (name, some value) ∧ body = name ++ '=' :: value := by
  have happend := List.takeWhile_append_dropWhile (p := (· != '=')) (l := body)
  cases hrest : body.dropWhile (· != '=') with
  | nil =>
    rw [hrest, List.append_nil] at happend
    exact .inl ⟨_, by rw [splitInline, hrest], happend.symm⟩
  | cons c value =>
    rw [hrest] at happend
    obtain rfl : c = '=' := by
      have := List.head?_dropWhile_not (· != '=') body
      rw [hrest] at this
      simpa using this
    exact .inr ⟨_, value, by rw [splitInline, hrest], happend.symm⟩

theorem findLong_eq_some {name : Text} (h : cli.findLong name = some spec) : spec ∈ cli.specs ∧ spec.name = name :=
  ⟨List.mem_of_find?_eq_some h, by simpa using List.find?_some h⟩

theorem findShort_eq_some {c : Char} (h : cli.findShort c = some spec) :
    spec ∈ cli.specs ∧ spec.shortName ≠ '\x00' ∧ spec.shortName = c :=
  ⟨List.mem_of_find?_eq_some h, by simpa using List.find?_some h⟩

/-- The four ways in which an argument names an option or a flag. -/
theorem selectSpec_eq_ok {c : Char} {body : Text} {inlineValue : Option Text}
    (h : cli.selectSpec c body = .ok (spec, inlineValue)) : spec ∈ cli.specs ∧
      ((c = '-' ∧ body = spec.name ∧ inlineValue = none) ∨
        (c = '-' ∧ ∃ value, body = spec.name ++ '=' :: value ∧ inlineValue = some value) ∨
        (spec.shortName ≠ '\x00' ∧ spec.shortName = c ∧ body = [] ∧ inlineValue = none) ∨
        (spec.shortName ≠ '\x00' ∧ spec.shortName = c ∧ body ≠ [] ∧ inlineValue = some body)) := by
  unfold selectSpec at h
  split at h
  · rename_i hc
    obtain rfl : c = '-' := by simpa using hc
    obtain ⟨name, hsplit, rfl⟩ | ⟨name, value, hsplit, rfl⟩ := splitInline_eq body
    all_goals
      simp only [hsplit] at h
      split at h
      · cases h
      · rename_i hfind
        cases h
        obtain ⟨hspec, rfl⟩ := findLong_eq_some hfind
        simp [hspec]
  · split at h
    · cases h
    · rename_i hfind
      obtain ⟨hspec, hshort, hname⟩ := findShort_eq_some hfind
      cases h
      subst hname
      cases body <;> simp [hspec, hshort]

theorem map_cons_eq_ok {item : Item} {read : Except UsageError (List Item)} {items : List Item}
    (h : read.map (item :: ·) = .ok items) : ∃ tail, read = .ok tail ∧ items = item :: tail := by
  cases read with
  | error e => cases h
  | ok tail => exact ⟨tail, rfl, by cases h; rfl⟩

/-- What `parse` reads as items is a spelling of them. -/
theorem spells_of_readArgs {items : List Item} {args : List Text} (h : cli.readArgs false args = .ok items) :
    cli.Spells items args := by
  generalize honly : false = only at h
  fun_induction CommandLine.readArgs cli only args generalizing items with
  | case1 =>
    cases h
    exact .nil
  | case2 only arg rest hchars ih =>
    subst honly
    obtain ⟨tail, hread, rfl⟩ := map_cons_eq_ok h
    exact .positional (positional_of_optionChars hchars) (ih rfl hread)
  | case3 only arg rest c body hchars hend ih =>
    subst honly
    rw [readArgs_onlyPositionals] at h
    cases h
    obtain ⟨rfl, rfl⟩ : c = '-' ∧ body = [] := by simpa using hend
    rw [optionChars_eq_some hchars]
    exact .endOfOptions rest
  | case4 only arg rest c body hchars hend e hspec => cases h
  | case5 only arg rest c body hchars hend spec hflag v hspec => cases h
  | case6 only arg rest c body hchars hend spec hflag hspec ih =>
    subst honly
    obtain ⟨tail, hread, rfl⟩ := map_cons_eq_ok h
    rw [optionChars_eq_some hchars]
    obtain ⟨hmem, ⟨rfl, rfl, -⟩ | ⟨-, _, -, hinline⟩ | ⟨hshort, rfl, rfl, -⟩ | ⟨-, -, -, hinline⟩⟩ :=
      selectSpec_eq_ok hspec
    · exact .longFlag hmem hflag (ih rfl hread)
    · cases hinline
    · exact .shortFlag hmem hflag hshort (ih rfl hread)
    · cases hinline
  | case7 only arg c body hchars hend spec hflag v rest hspec ih =>
    subst honly
    obtain ⟨tail, hread, rfl⟩ := map_cons_eq_ok h
    have hopt : spec.isFlag = false := by simpa using hflag
    rw [optionChars_eq_some hchars]
    obtain ⟨hmem, ⟨-, -, hinline⟩ | ⟨rfl, _, rfl, hinline⟩ | ⟨-, -, -, hinline⟩ | ⟨hshort, rfl, hbody, hinline⟩⟩ :=
      selectSpec_eq_ok hspec
    · cases hinline
    · cases hinline
      exact .longInline _ hmem hopt (ih rfl hread)
    · cases hinline
    · cases hinline
      exact .shortInline _ hmem hopt hshort hbody (ih rfl hread)
  | case8 only arg c body hchars hend spec hflag v rest hspec ih =>
    subst honly
    obtain ⟨tail, hread, rfl⟩ := map_cons_eq_ok h
    have hopt : spec.isFlag = false := by simpa using hflag
    rw [optionChars_eq_some hchars]
    obtain ⟨hmem, ⟨rfl, rfl, -⟩ | ⟨-, _, -, hinline⟩ | ⟨hshort, rfl, rfl, -⟩ | ⟨-, -, -, hinline⟩⟩ :=
      selectSpec_eq_ok hspec
    · exact .longNext v hmem hopt (ih rfl hread)
    · cases hinline
    · exact .shortNext v hmem hopt hshort (ih rfl hread)
    · cases hinline
  | case9 only arg c body hchars hend spec hflag hspec => cases h

/-- With names that keep apart, the arguments that are read are exactly the spellings. -/
theorem readArgs_eq_ok_iff (h : cli.WellNamed) {items : List Item} {args : List Text} :
    cli.readArgs false args = .ok items ↔ cli.Spells items args :=
  ⟨spells_of_readArgs, Spells.readArgs h⟩

/-! ### The round trip -/

/-- The item names a flag or an option of the command line. -/
def Declares (cli : CommandLine) : Item → Prop
  | .flag name => ∃ spec ∈ cli.specs, spec.isFlag = true ∧ spec.name = name
  | .option name _ => ∃ spec ∈ cli.specs, spec.isFlag = false ∧ spec.name = name
  | .positional _ => True

theorem Spells.declares {items : List Item} {args : List Text} (h : cli.Spells items args) :
    ∀ item ∈ items, cli.Declares item := by
  induction h with
  | nil => simp
  | longFlag hspec hflag _ ih => exact List.forall_mem_cons.2 ⟨⟨_, hspec, hflag, rfl⟩, ih⟩
  | shortFlag hspec hflag _ _ ih => exact List.forall_mem_cons.2 ⟨⟨_, hspec, hflag, rfl⟩, ih⟩
  | longInline _ hspec hflag _ ih => exact List.forall_mem_cons.2 ⟨⟨_, hspec, hflag, rfl⟩, ih⟩
  | longNext _ hspec hflag _ ih => exact List.forall_mem_cons.2 ⟨⟨_, hspec, hflag, rfl⟩, ih⟩
  | shortNext _ hspec hflag _ _ ih => exact List.forall_mem_cons.2 ⟨⟨_, hspec, hflag, rfl⟩, ih⟩
  | shortInline _ hspec hflag _ _ _ ih => exact List.forall_mem_cons.2 ⟨⟨_, hspec, hflag, rfl⟩, ih⟩
  | positional _ _ ih => exact List.forall_mem_cons.2 ⟨trivial, ih⟩
  | endOfOptions texts => exact List.forall_mem_map.2 fun _ _ => trivial

/-- A name is a flag or an option, not both. -/
theorem WellNamed.not_flag_and_option (h : cli.WellNamed) {name value : Text} (hflag : cli.Declares (.flag name))
    (hoption : cli.Declares (.option name value)) : False := by
  obtain ⟨spec, hspec, hisFlag, rfl⟩ := hflag
  obtain ⟨spec', hspec', hnotFlag, hname⟩ := hoption
  rw [List.inj_on_of_nodup_map h.names hspec' hspec hname] at hnotFlag
  simp [hisFlag] at hnotFlag

end CommandLine

theorem lastValue_append (xs ys : List Item) (name : Text) :
    lastValue (xs ++ ys) name = (lastValue ys name).or (lastValue xs name) := by
  simp [lastValue, List.filterMap_append, List.getLast?_append]

theorem lastValue_eq_none_iff {items : List Item} {name : Text} :
    lastValue items name = none ↔ .flag name ∉ items ∧ ∀ value, .option name value ∉ items := by
  simp only [lastValue, List.getLast?_eq_none_iff, List.filterMap_eq_nil_iff]
  constructor
  · exact fun h => ⟨fun hmem => by simpa [Item.valueOf] using h _ hmem,
      fun value hmem => by simpa [Item.valueOf] using h _ hmem⟩
  · rintro ⟨hflag, hoption⟩ item hitem
    cases item with
    | flag n =>
      have hne : n ≠ name := by
        rintro rfl
        exact hflag hitem
      simp [Item.valueOf, hne]
    | option n value =>
      have hne : n ≠ name := by
        rintro rfl
        exact hoption value hitem
      simp [Item.valueOf, hne]
    | positional text => rfl

theorem lastValue_isSome_iff {items : List Item} {name : Text} :
    (lastValue items name).isSome = true ↔ .flag name ∈ items ∨ ∃ value, .option name value ∈ items := by
  rw [← not_iff_not, Bool.not_eq_true, Option.isSome_eq_false_iff, Option.isNone_iff_eq_none, lastValue_eq_none_iff]
  simp

/-- Whatever the spellings, the values, flags and positional arguments come back, and too many positional arguments are
an error. -/
theorem spellings_round_trip {cli : CommandLine} (h : cli.WellNamed) {items : List Item} {args : List Text}
    (program : Text) (hspell : cli.Spells items args) :
    ((positionalTexts items).length ≤ cli.positionals.length → ∃ parsed, cli.parse (program :: args) = .ok parsed ∧
      (∀ name value before after, items = before ++ .option name value :: after →
        (∀ v, .option name v ∉ after) → parsed.value name = some value) ∧
      (∀ name, parsed.given name = true ↔ .flag name ∈ items ∨ ∃ value, .option name value ∈ items) ∧
      parsed.positionals = positionalTexts items) ∧
    (cli.positionals.length < (positionalTexts items).length → ∃ e, cli.parse (program :: args) = .error e) := by
  have hread := hspell.readArgs h
  have hdeclares := hspell.declares
  refine ⟨fun hlen => ⟨_, CommandLine.parse_eq_ok_iff.2 ⟨items, hread, hlen, rfl⟩, ?_, ?_, ?_⟩, fun hlen => ?_⟩
  · rintro name value before after rfl hlast
    have hoption := hdeclares (.option name value) (by simp)
    have hafter : lastValue after name = none :=
      lastValue_eq_none_iff.2 ⟨fun hflag => h.not_flag_and_option (hdeclares _ (by simp [hflag])) hoption, hlast⟩
    rw [Parsed.value_foldl_apply, lastValue_append, lastValue_cons, hafter]
    simp [Item.valueOf]
  · intro name
    rw [Parsed.given_foldl_apply, CommandLine.defaults_given, Bool.or_false, lastValue_isSome_iff]
  · rw [Parsed.positionals_foldl_apply, CommandLine.defaults_positionals, List.nil_append]
  · cases hparse : cli.parse (program :: args) with
    | error e => exact ⟨e, rfl⟩
    | ok parsed =>
      obtain ⟨items', hread', hlen', -⟩ := CommandLine.parse_eq_ok_iff.1 hparse
      obtain rfl : items = items' := by
        have := hread.symm.trans hread'
        simpa using this
      exact absurd hlen' (Nat.not_le.2 hlen)

/-- The command line of the tests. -/
def toolCommandLine : CommandLine :=
  ((((CommandLine.new.positional "size".toList).option "name".toList 'n' "str".toList "default".toList).option
    "count".toList 'c' "n".toList "0".toList).flag "verbose".toList 'v')

theorem toolCommandLine_wellNamed : toolCommandLine.WellNamed where
  names := by decide
  nonempty := by decide
  noEquals := by decide
  shortNames := by decide
  noDash := by decide

/-- In `tool --name -- -v --count=7 -c9 -- -literal` the first `--` is a value. -/
theorem spellings_round_trip_tool : ∃ parsed, toolCommandLine.parse
    ["tool".toList, "--name".toList, "--".toList, "-v".toList, "--count=7".toList, "-c9".toList, "--".toList,
      "-literal".toList] = .ok parsed ∧ parsed.value "name".toList = some "--".toList ∧
    parsed.value "count".toList = some "9".toList ∧ parsed.given "verbose".toList = true ∧
    parsed.positionals = ["-literal".toList] := by
  have hname : ⟨"name".toList, 'n', "str".toList, "default".toList⟩ ∈ toolCommandLine.specs := by decide
  have hcount : ⟨"count".toList, 'c', "n".toList, "0".toList⟩ ∈ toolCommandLine.specs := by decide
  have hverbose : ⟨"verbose".toList, 'v', [], []⟩ ∈ toolCommandLine.specs := by decide
  have hspell : toolCommandLine.Spells [.option "name".toList "--".toList, .flag "verbose".toList,
      .option "count".toList "7".toList, .option "count".toList "9".toList, .positional "-literal".toList]
      ["--name".toList, "--".toList, "-v".toList, "--count=7".toList, "-c9".toList, "--".toList,
        "-literal".toList] :=
    .longNext _ hname rfl <| .shortFlag hverbose rfl (by decide) <| .longInline "7".toList hcount rfl <|
      .shortInline "9".toList hcount rfl (by decide) (by decide) <| .endOfOptions ["-literal".toList]
  obtain ⟨parsed, hparse, hvalue, hgiven, hpos⟩ :=
    (spellings_round_trip toolCommandLine_wellNamed "tool".toList hspell).1 (by decide)
  exact ⟨parsed, hparse, hvalue _ _ [] _ rfl (by simp), hvalue _ _ [_, _, _] _ rfl (by simp),
    (hgiven _).2 (.inl (by simp)), hpos⟩

end ProducerConsumer
