import RemoteDevice.Command.Language

/-! What `command_parse` makes of a line beyond accepting it: the argument that it carries, and the
error that it returns. -/

namespace RemoteDevice
open CText

def Denotes (token : CText) (n : Int) : Prop :=
  ∃ spaces t, token = spaces ++ t ∧ (∀ b ∈ spaces, isSpace b = true) ∧ Numeral t n

variable {line device : CText} {words : List CText} {spec : CommandSpec}

theorem parseTokens_of_names (hspec : spec ∈ commandSpecs)
    (hnames : spec.Names device words[0]? = true) :
    parseTokens (device :: words) = parseArg spec words[1]? words[2]? := by
  rw [parseTokens, parseWords, find?_names hspec hnames]

theorem parseTokens_of_unknown (h : ∀ spec ∈ commandSpecs, ¬spec.Names device words[0]? = true) :
    parseTokens (device :: words) =
      { type := if words[1]?.isNone then .invalid else .invalidValue } := by
  rw [parseTokens, parseWords, List.find?_eq_none.mpr h]

theorem parseTokens_cases (device : CText) (words : List CText) :
    (∃ spec ∈ commandSpecs, spec.Names device words[0]? = true ∧
      parseTokens (device :: words) = parseArg spec words[1]? words[2]?) ∨
    (∀ spec ∈ commandSpecs, ¬spec.Names device words[0]? = true) ∧
      parseTokens (device :: words) =
        { type := if words[1]?.isNone then .invalid else .invalidValue } := by
  by_cases hknown : ∃ spec ∈ commandSpecs, spec.Names device words[0]? = true
  · obtain ⟨spec, hspec, hnames⟩ := hknown
    exact .inl ⟨spec, hspec, hnames, parseTokens_of_names hspec hnames⟩
  · have hunknown := fun spec hspec hnames => hknown ⟨spec, hspec, hnames⟩
    exact .inr ⟨hunknown, parseTokens_of_unknown hunknown⟩

theorem commandParse_words (hshort : line.length < commandLineMax)
    (htokens : lineTokens line = device :: words) :
    (∃ spec ∈ commandSpecs, spec.Names device words[0]? = true ∧
      commandParse (some line) = parseArg spec words[1]? words[2]?) ∨
    (∀ spec ∈ commandSpecs, ¬spec.Names device words[0]? = true) ∧
      commandParse (some line) =
        { type := if words[1]?.isNone then .invalid else .invalidValue } := by
  rw [commandParse_eq hshort, htokens]
  exact parseTokens_cases device words

/-! ## The argument -/

def CarriesInteger (line : CText) : Prop :=
  ∀ spec ∈ commandSpecs, spec.argType = .int → (commandParse (some line)).type = spec.command →
    ∃ token, (lineTokens line)[2]? = some token ∧ Denotes token (commandParse (some line)).value

def CarriesString (line : CText) : Prop :=
  (commandParse (some line)).type = .buzzerMusic →
    (lineTokens line)[2]? = some (commandParse (some line)).str

def CutShort (line : CText) : Prop :=
  line.length < commandLineMax ∧ ∃ device action token rest,
    lineTokens line = device :: action :: token :: rest ∧
    caseEq device (ascii "BUZZER") = true ∧ caseEq action (ascii "MUSIC") = true ∧
    parsedStrSize ≤ token.length

def musicSpec : CommandSpec := ⟨ascii "BUZZER", ascii "MUSIC", .buzzerMusic, .string, 0, 0⟩

theorem argType_of_command : ∀ spec ∈ commandSpecs, ∀ other ∈ commandSpecs,
    spec.command = other.command → spec.argType = other.argType := by decide

theorem musicSpec_unique : ∀ spec ∈ commandSpecs, spec.command = .buzzerMusic → spec = musicSpec := by
  decide

theorem parseArg_command (spec : CommandSpec) (value extra : Option CText) :
    (parseArg spec value extra).type = .invalid ∨ (parseArg spec value extra).type = .invalidValue ∨
      (parseArg spec value extra).type = spec.command := by
  unfold parseArg
  split <;> split <;> simp

theorem entry_of_type {other : CommandSpec} (hspec : spec ∈ commandSpecs) {value extra : Option CText}
    (htype : (parseArg other value extra).type = spec.command) : other.command = spec.command := by
  obtain ⟨-, -, hinvalid, hinvalidValue⟩ := commandSpecs_sound spec hspec
  rcases parseArg_command other value extra with h | h | h
  · exact absurd (htype.symm.trans h) hinvalid
  · exact absurd (htype.symm.trans h) hinvalidValue
  · exact h.symm.trans htype

theorem parseArg_of_none (h : spec.argType = .none) (value extra : Option CText) :
    parseArg spec value extra =
      if value.isSome then { type := .invalid } else { type := spec.command } := by
  simp only [parseArg, h]

theorem parseArg_of_int (h : spec.argType = .int) (value extra : Option CText) :
    parseArg spec value extra =
      ((if extra.isSome then none else parseIntArg value spec.minValue spec.maxValue).map
        fun number => ⟨spec.command, number, []⟩).getD { type := .invalidValue } := by
  simp only [parseArg, h]
  cases (if extra.isSome then none else parseIntArg value spec.minValue spec.maxValue) <;> rfl

theorem parseArg_of_string (h : spec.argType = .string) (value extra : Option CText) :
    parseArg spec value extra =
      (value.map fun token => ⟨spec.command, 0, token.take (parsedStrSize - 1)⟩).getD
        { type := .invalidValue } := by
  simp only [parseArg, h]
  cases value <;> rfl

theorem parseIntArg_denotes {value : Option CText} {n : Int} (hspec : spec ∈ commandSpecs)
    (h : parseIntArg value spec.minValue spec.maxValue = some n) :
    ∃ token, value = some token ∧ Denotes token n ∧ spec.minValue ≤ n ∧ n ≤ spec.maxValue := by
  obtain ⟨⟨hlo, hhi⟩, -⟩ := commandSpecs_sound spec hspec
  cases value with
  | none => exact absurd h nofun
  | some token =>
    obtain ⟨spaces, t, heq, hspaces, ht, hrange⟩ := (parseIntArg_iff hlo hhi).mp h
    exact ⟨token, rfl, ⟨spaces, t, heq, hspaces, ht⟩, hrange⟩

theorem parseArg_int {value extra : Option CText} (hspec : spec ∈ commandSpecs)
    (hint : spec.argType = .int) (htype : (parseArg spec value extra).type = spec.command) :
    ∃ token, value = some token ∧ Denotes token (parseArg spec value extra).value := by
  obtain ⟨-, -, -, hinvalidValue⟩ := commandSpecs_sound spec hspec
  rw [parseArg_of_int hint] at htype ⊢
  cases hnumber : (if extra.isSome then none else parseIntArg value spec.minValue spec.maxValue) with
  | none =>
    rw [hnumber] at htype
    exact absurd htype.symm hinvalidValue
  | some number =>
    rw [Option.ite_none_left_eq_some] at hnumber
    obtain ⟨token, hvalue, hdenotes, -⟩ := parseIntArg_denotes hspec hnumber.2
    exact ⟨token, hvalue, hdenotes⟩

theorem integer_carried (line : CText) : CarriesInteger line := by
  intro spec hspec hint htype
  obtain ⟨-, hempty, hinvalid, hinvalidValue⟩ := commandSpecs_sound spec hspec
  rcases Nat.lt_or_ge line.length commandLineMax with hshort | hlong
  · cases htokens : lineTokens line with
    | nil =>
      rw [commandParse_eq hshort, htokens] at htype
      exact absurd htype.symm hempty
    | cons device words =>
      obtain ⟨other, hother, -, hparse⟩ | ⟨-, hparse⟩ := commandParse_words hshort htokens
      · rw [hparse] at htype ⊢
        have hsame := entry_of_type hspec htype
        have hint' := (argType_of_command other hother spec hspec hsame).trans hint
        exact parseArg_int hother hint' (htype.trans hsame.symm)
      · rw [hparse] at htype
        simp only at htype
        split at htype
        · exact absurd htype.symm hinvalid
        · exact absurd htype.symm hinvalidValue
  · rw [commandParse_long hlong] at htype
    exact absurd htype.symm hinvalid

theorem commandParse_music_line {action token : CText} {rest : List CText}
    (hshort : line.length < commandLineMax)
    (htokens : lineTokens line = device :: action :: token :: rest)
    (hdevice : caseEq device (ascii "BUZZER") = true) (haction : caseEq action (ascii "MUSIC") = true) :
    commandParse (some line) = ⟨.buzzerMusic, 0, token.take (parsedStrSize - 1)⟩ := by
  have hnames : musicSpec.Names device (some action) = true := by
    rw [CommandSpec.Names, Bool.and_eq_true]
    exact ⟨hdevice, haction⟩
  have hmem : musicSpec ∈ commandSpecs := by decide
  have hparse : parseTokens (device :: action :: token :: rest) = parseArg musicSpec (some token) rest[0]? :=
    parseTokens_of_names hmem hnames
  rw [commandParse_eq hshort, htokens, hparse]
  rfl

theorem music_line (htype : (commandParse (some line)).type = .buzzerMusic) :
    line.length < commandLineMax ∧ ∃ device action token rest,
      lineTokens line = device :: action :: token :: rest ∧
      caseEq device (ascii "BUZZER") = true ∧ caseEq action (ascii "MUSIC") = true := by
  have haccepts : Accepts line .buzzerMusic := ⟨htype, by decide, by decide, by decide⟩
  rcases Nat.lt_or_ge line.length commandLineMax with hshort | hlong
  · obtain ⟨device, words, htokens, spec, hspec, hnames, hadmits, hcommand⟩ :=
      (accepts_iff hshort).mp haccepts
    obtain rfl := musicSpec_unique spec hspec hcommand
    rw [CommandSpec.Names, Bool.and_eq_true] at hnames
    cases words with
    | nil => exact absurd rfl hadmits
    | cons action args =>
      cases args with
      | nil => exact absurd rfl hadmits
      | cons token rest => exact ⟨hshort, device, action, token, rest, htokens, hnames⟩
  · rw [commandParse_long hlong] at htype
    exact absurd htype (by decide)

/-- A command carries its argument, unless it is a path that is longer than the array for it. -/
theorem argument_carried_iff (line : CText) :
    CarriesInteger line ∧ CarriesString line ↔ ¬CutShort line := by
  constructor
  · rintro ⟨-, hstring⟩ ⟨hshort, device, action, token, rest, htokens, hdevice, haction, hlong⟩
    have hparse := commandParse_music_line hshort htokens hdevice haction
    rw [CarriesString, hparse, htokens] at hstring
    have htoken : token = token.take (parsedStrSize - 1) := Option.some.inj (hstring rfl)
    have hlength := congrArg List.length htoken
    rw [List.length_take, parsedStrSize] at hlength
    rw [parsedStrSize] at hlong
    omega
  · intro hfits
    refine ⟨integer_carried line, ?_⟩
    intro htype
    obtain ⟨hshort, device, action, token, rest, htokens, hdevice, haction⟩ := music_line htype
    have htoken : token.length ≤ parsedStrSize - 1 := by
      apply Nat.le_sub_one_of_lt
      apply Nat.lt_of_not_le
      intro hlong
      exact hfits ⟨hshort, device, action, token, rest, htokens, hdevice, haction, hlong⟩
    rw [commandParse_music_line hshort htokens hdevice haction, htokens, List.take_of_length_le htoken]
    rfl

/-- A path of 128 bytes. -/
theorem music_path_cut :
    commandParse (some (ascii "BUZZER MUSIC" ++ 32 :: List.replicate 128 97)) =
        ⟨.buzzerMusic, 0, List.replicate 127 97⟩ ∧
      ¬CarriesString (ascii "BUZZER MUSIC" ++ 32 :: List.replicate 128 97) := by
  have hlong : lineTokens (ascii "BUZZER MUSIC" ++ 32 :: List.replicate 128 97) =
      [ascii "BUZZER", ascii "MUSIC", List.replicate 128 97] := by
    have hpath : tokens isDelim (List.replicate 128 97) = [List.replicate 128 97] := by
      apply tokens_of_not_delim
      · exact List.cons_ne_nil _ _
      · intro b hb
        rw [List.eq_of_mem_replicate hb]
        rfl
    rw [lineTokens, tokens_append_delim _ _ rfl, hpath]
    rfl
  have hshort : (ascii "BUZZER MUSIC" ++ 32 :: List.replicate 128 97).length < commandLineMax := by
    rw [List.length_append, List.length_cons, List.length_replicate]
    decide
  have hparse := commandParse_music_line hshort hlong (by decide) (by decide)
  rw [List.take_replicate] at hparse
  refine ⟨hparse, ?_⟩
  intro hcarries
  rw [CarriesString, hparse, hlong] at hcarries
  have hpath : List.replicate 128 97 = List.replicate 127 (97 : UInt8) :=
    Option.some.inj (hcarries rfl)
  have hlength := congrArg List.length hpath
  rw [List.length_replicate, List.length_replicate] at hlength
  exact absurd hlength (by decide)

/-! ## The error -/

def CommandSpec.BadArgument (spec : CommandSpec) (args : List CText) : Prop :=
  spec.argType ≠ .none ∧ (args = [] ∨ 2 ≤ args.length ∨
    spec.argType = .int ∧ ∃ token, args[0]? = some token ∧
      ∀ n, Denotes token n → n < spec.minValue ∨ spec.maxValue < n)

def BadValue (tokens : List CText) : Prop :=
  ∃ device words, tokens = device :: words ∧ ∃ spec ∈ commandSpecs,
    spec.Names device words[0]? = true ∧ spec.BadArgument (words.drop 1)

/-- A line that is not accepted is empty, or has a wrong value, or is invalid for another reason, and
the result says which. -/
def RightClass (line : CText) : Prop :=
  let type := (commandParse (some line)).type
  let isEmpty := line.length < commandLineMax ∧ lineTokens line = []
  let isBadValue := line.length < commandLineMax ∧ BadValue (lineTokens line)
  (∀ command, ¬Accepts line command) →
    (type = .empty ↔ isEmpty) ∧ (type = .invalidValue ↔ isBadValue) ∧
      (type = .invalid ↔ ¬isEmpty ∧ ¬isBadValue)

def UnknownWithValue (line : CText) : Prop :=
  line.length < commandLineMax ∧ ∃ device action value rest,
    lineTokens line = device :: action :: value :: rest ∧
    ∀ spec ∈ commandSpecs, ¬spec.Names device (some action) = true

theorem parseArg_class (hspec : spec ∈ commandSpecs) (args : List CText) :
    (parseArg spec args[0]? args[1]?).type = spec.command ∨
    ((parseArg spec args[0]? args[1]?).type = .invalidValue ∧ spec.BadArgument args) ∨
    ((parseArg spec args[0]? args[1]?).type = .invalid ∧ ¬spec.BadArgument args) := by
  cases harg : spec.argType with
  | none =>
    rw [parseArg_of_none harg]
    cases args with
    | nil => exact .inl rfl
    | cons token rest => exact .inr (.inr ⟨rfl, fun hbad => hbad.1 harg⟩)
  | string =>
    have htakes : spec.argType ≠ .none := by rw [harg]; decide
    rw [parseArg_of_string harg]
    cases args with
    | nil => exact .inr (.inl ⟨rfl, htakes, .inl rfl⟩)
    | cons token rest => exact .inl rfl
  | int =>
    obtain ⟨⟨hlo, hhi⟩, -⟩ := commandSpecs_sound spec hspec
    have htakes : spec.argType ≠ .none := by rw [harg]; decide
    rw [parseArg_of_int harg]
    match args with
    | [] => exact .inr (.inl ⟨rfl, htakes, .inl rfl⟩)
    | token :: extra :: rest =>
      exact .inr (.inl ⟨rfl, htakes, .inr (.inl (Nat.le_add_left 2 rest.length))⟩)
    | [token] =>
      simp only [List.getElem?_cons_zero, List.getElem?_cons_succ, List.getElem?_nil,
        Option.isSome_none, Bool.false_eq_true, if_false]
      cases hnumber : parseIntArg (some token) spec.minValue spec.maxValue with
      | some number => exact .inl rfl
      | none =>
        refine .inr (.inl ⟨rfl, htakes, .inr (.inr ⟨harg, token, rfl, ?_⟩)⟩)
        rintro n ⟨spaces, t, heq, hspaces, ht⟩
        by_contra hrange
        rw [not_or, Int.not_lt, Int.not_lt] at hrange
        have hsome := (parseIntArg_iff hlo hhi).mpr ⟨spaces, t, heq, hspaces, ht, hrange⟩
        rw [hnumber] at hsome
        exact absurd hsome nofun

theorem badValue_iff (hspec : spec ∈ commandSpecs) (hnames : spec.Names device words[0]? = true) :
    BadValue (device :: words) ↔ spec.BadArgument (words.drop 1) := by
  constructor
  · rintro ⟨_, _, heq, other, hother, hnames', hbad⟩
    obtain ⟨rfl, rfl⟩ := List.cons.inj heq
    rwa [names_unique hother hspec hnames' hnames] at hbad
  · intro hbad
    exact ⟨device, words, rfl, spec, hspec, hnames, hbad⟩

theorem rightClass_of_names (hshort : line.length < commandLineMax)
    (htokens : lineTokens line = device :: words) (hspec : spec ∈ commandSpecs)
    (hnames : spec.Names device words[0]? = true)
    (hparse : commandParse (some line) = parseArg spec words[1]? words[2]?) : RightClass line := by
  have hzero : (words.drop 1)[0]? = words[1]? := by rw [List.getElem?_drop]
  have hone : (words.drop 1)[1]? = words[2]? := by rw [List.getElem?_drop]
  have hclass := parseArg_class hspec (words.drop 1)
  rw [hzero, hone, ← hparse] at hclass
  have hsome : lineTokens line ≠ [] := by
    rw [htokens]
    exact List.cons_ne_nil _ _
  have hbad : BadValue (lineTokens line) ↔ spec.BadArgument (words.drop 1) := by
    rw [htokens]
    exact badValue_iff hspec hnames
  intro hrejected
  rcases hclass with hcommand | ⟨htype, hwrong⟩ | ⟨htype, hright⟩
  · obtain ⟨-, hsound⟩ := commandSpecs_sound spec hspec
    exact absurd ⟨hcommand, hsound⟩ (hrejected spec.command)
  · have hwrongLine := hbad.mpr hwrong
    simp [htype, hshort, hsome, hwrongLine]
  · have hrightLine := mt hbad.mp hright
    simp [htype, hshort, hsome, hrightLine]

theorem rightClass_of_unknown (htokens : lineTokens line = device :: words)
    (hunknown : ∀ spec ∈ commandSpecs, ¬spec.Names device words[0]? = true)
    (hparse : commandParse (some line) =
      { type := if words[1]?.isNone then .invalid else .invalidValue }) :
    RightClass line ↔ words[1]? = none := by
  have hgood : ¬BadValue (lineTokens line) := by
    rw [htokens]
    rintro ⟨_, _, heq, spec, hspec, hnames, -⟩
    obtain ⟨rfl, rfl⟩ := List.cons.inj heq
    exact hunknown spec hspec hnames
  have hsome : lineTokens line ≠ [] := by
    rw [htokens]
    exact List.cons_ne_nil _ _
  cases hvalue : words[1]? with
  | none =>
    rw [hvalue] at hparse
    simp [RightClass, hparse, hgood, hsome]
  | some value =>
    rw [hvalue] at hparse
    have hrejected : ∀ command, ¬Accepts line command := by
      rintro command ⟨htype, -, -, hinvalidValue⟩
      rw [hparse] at htype
      exact hinvalidValue htype.symm
    simp [RightClass, hparse, hgood, hrejected]

/-- The class of an error is right, unless there is a third token behind names that no entry has. -/
theorem error_class_iff (line : CText) : RightClass line ↔ ¬UnknownWithValue line := by
  rcases Nat.lt_or_ge line.length commandLineMax with hshort | hlong
  · cases htokens : lineTokens line with
    | nil =>
      have hparse : commandParse (some line) = { type := .empty } := by
        rw [commandParse_eq hshort, htokens]
        rfl
      have hgood : ¬BadValue [] := fun ⟨_, _, heq, _⟩ => absurd heq (List.cons_ne_nil _ _).symm
      simp [RightClass, UnknownWithValue, hparse, hshort, htokens, hgood]
    | cons device words =>
      obtain ⟨spec, hspec, hnames, hparse⟩ | ⟨hunknown, hparse⟩ := commandParse_words hshort htokens
      · apply iff_of_true (rightClass_of_names hshort htokens hspec hnames hparse)
        rintro ⟨-, _, action, value, rest, heq, hnone⟩
        obtain ⟨rfl, rfl⟩ := List.cons.inj (htokens.symm.trans heq)
        exact hnone spec hspec hnames
      · rw [rightClass_of_unknown htokens hunknown hparse]
        constructor
        · rintro hnone ⟨-, _, action, value, rest, heq, -⟩
          obtain ⟨rfl, rfl⟩ := List.cons.inj (htokens.symm.trans heq)
          exact absurd hnone (Option.some_ne_none value)
        · intro hknown
          match words, hunknown with
          | [], _ => rfl
          | [action], _ => rfl
          | action :: value :: rest, hunknown =>
            exact absurd ⟨hshort, device, action, value, rest, htokens, hunknown⟩ hknown
  · have hnot : ¬line.length < commandLineMax := Nat.not_lt.mpr hlong
    simp [RightClass, UnknownWithValue, commandParse_long hlong, hnot]

/-- There is no device `FAN`, and the error says that its value is wrong. -/
theorem unknown_value_error :
    (commandParse (some (ascii "FAN SPEED 3"))).type = .invalidValue ∧
      ¬RightClass (ascii "FAN SPEED 3") := by
  have htokens : lineTokens (ascii "FAN SPEED 3") = [ascii "FAN", ascii "SPEED", ascii "3"] := by
    decide
  have hunknown : ∀ spec ∈ commandSpecs, ¬spec.Names (ascii "FAN") (some (ascii "SPEED")) = true := by
    decide
  have hparse : commandParse (some (ascii "FAN SPEED 3")) = { type := .invalidValue } := by
    decide
  refine ⟨congrArg ParsedCommand.type hparse, ?_⟩
  rw [rightClass_of_unknown htokens hunknown hparse]
  exact Option.some_ne_none _

end RemoteDevice
