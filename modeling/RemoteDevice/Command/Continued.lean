import RemoteDevice.Command.Outcome

/-! What more tokens behind those of a line change about how it is read. -/

namespace RemoteDevice
open CText

def Malformed (tokens : List CText) : Prop :=
  ∃ device words, tokens = device :: words ∧
    (words.length < 2 ∧ (∀ spec ∈ commandSpecs, ¬spec.Names device words[0]? = true) ∨
      2 ≤ words.length ∧ ∃ spec ∈ commandSpecs, spec.Names device words[0]? = true ∧
        spec.argType = .none)

def NamesInteger (tokens : List CText) : Prop :=
  ∃ device words, tokens = device :: words ∧ ∃ spec ∈ commandSpecs,
    spec.Names device words[0]? = true ∧ spec.argType = .int

def IntegerCommand (tokens : List CText) : Prop :=
  ∃ device words, tokens = device :: words ∧ ∃ spec ∈ commandSpecs,
    spec.Names device words[0]? = true ∧ spec.argType = .int ∧ spec.Admits (words.drop 1)

/-- There is nothing more; or it is malformed with and without it; or an integer is missing or wrong
with and without it; or all that a path or an error depends on is there already. -/
def Unaffected (tokens later : List CText) : Prop :=
  later = [] ∨ (Malformed tokens ∧ Malformed (tokens ++ later)) ∨
    (NamesInteger tokens ∧ ¬IntegerCommand tokens ∧ ¬IntegerCommand (tokens ++ later)) ∨
    (¬NamesInteger tokens ∧ 3 ≤ tokens.length)

variable {device : CText} {words tokens later : List CText} {spec : CommandSpec}

/-! ## The three kinds of tokens -/

theorem parseTokens_type_ne_empty (device : CText) (words : List CText) :
    (parseTokens (device :: words)).type ≠ .empty := by
  obtain ⟨spec, hspec, -, hparse⟩ | ⟨-, hparse⟩ := parseTokens_cases device words
  · obtain ⟨-, hempty, -, -⟩ := commandSpecs_sound spec hspec
    rw [hparse]
    rcases parseArg_command spec words[1]? words[2]? with h | h | h
    · rw [h]; decide
    · rw [h]; decide
    · rwa [h]
  · rw [hparse]
    simp only
    split <;> decide

theorem parseArg_ne_invalid (hspec : spec ∈ commandSpecs) (htakes : spec.argType ≠ .none)
    (value extra : Option CText) : (parseArg spec value extra).type ≠ .invalid := by
  obtain ⟨-, -, hinvalid, -⟩ := commandSpecs_sound spec hspec
  have hvalue : ¬Command.invalidValue = .invalid := by decide
  cases harg : spec.argType with
  | none => exact absurd harg htakes
  | int =>
    rw [parseArg_of_int harg]
    cases (if extra.isSome then none else parseIntArg value spec.minValue spec.maxValue) with
    | none => exact hvalue
    | some number => exact hinvalid
  | string =>
    rw [parseArg_of_string harg]
    cases value with
    | none => exact hvalue
    | some token => exact hinvalid

theorem malformed_cons : Malformed (device :: words) ↔
    words.length < 2 ∧ (∀ spec ∈ commandSpecs, ¬spec.Names device words[0]? = true) ∨
      2 ≤ words.length ∧ ∃ spec ∈ commandSpecs, spec.Names device words[0]? = true ∧
        spec.argType = .none := by
  constructor
  · rintro ⟨_, _, heq, hwords⟩
    obtain ⟨rfl, rfl⟩ := List.cons.inj heq
    exact hwords
  · exact fun hwords => ⟨device, words, rfl, hwords⟩

theorem malformed_iff : Malformed tokens ↔ parseTokens tokens = { type := .invalid } := by
  cases tokens with
  | nil =>
    apply iff_of_false
    · rintro ⟨device, words, heq, -⟩
      exact absurd heq.symm (List.cons_ne_nil device words)
    · decide
  | cons device words =>
    obtain ⟨spec, hspec, hnames, hparse⟩ | ⟨hunknown, hparse⟩ := parseTokens_cases device words
    · rw [malformed_cons, hparse]
      constructor
      · rintro (⟨-, hunknown⟩ | ⟨hmany, other, hother, hnames', hnone⟩)
        · exact absurd hnames (hunknown spec hspec)
        · obtain rfl := names_unique hother hspec hnames' hnames
          rw [parseArg_of_none hnone, List.getElem?_eq_getElem hmany]
          rfl
      · intro hread
        -- only an entry without an argument ends in `INVALID_COMMAND`
        have hnone : spec.argType = .none := by
          by_contra htakes
          exact parseArg_ne_invalid hspec htakes _ _ (congrArg ParsedCommand.type hread)
        refine .inr ⟨?_, spec, hspec, hnames, hnone⟩
        by_contra hfew
        obtain ⟨-, -, hinvalid, -⟩ := commandSpecs_sound spec hspec
        rw [parseArg_of_none hnone, List.getElem?_eq_none (Nat.le_of_not_lt hfew)] at hread
        exact hinvalid (congrArg ParsedCommand.type hread)
    · rw [malformed_cons, hparse]
      constructor
      · rintro (⟨hfew, -⟩ | ⟨-, spec, hspec, hnames, -⟩)
        · rw [List.getElem?_eq_none (Nat.le_of_lt_succ hfew)]
          rfl
        · exact absurd hnames (hunknown spec hspec)
      · intro hread
        refine .inl ⟨?_, hunknown⟩
        by_contra hmany
        rw [List.getElem?_eq_getElem (Nat.le_of_not_lt hmany)] at hread
        have htype : Command.invalidValue = .invalid := congrArg ParsedCommand.type hread
        exact absurd htype (by decide)

/-! ## An integer -/

theorem CommandSpec.Admits.length {args : List CText} (hint : spec.argType = .int)
    (h : spec.Admits args) : args.length = 1 := by
  rw [CommandSpec.Admits, hint] at h
  obtain ⟨spaces, token, n, rfl, -⟩ := h
  rfl

theorem parseArg_int_iff (hspec : spec ∈ commandSpecs) (hint : spec.argType = .int)
    (args : List CText) :
    parseArg spec args[0]? args[1]? = { type := .invalidValue } ↔ ¬spec.Admits args := by
  obtain ⟨-, -, hinvalid, hinvalidValue⟩ := commandSpecs_sound spec hspec
  have harg := parseArg_type hspec args
  constructor
  · intro hparse hadmits
    obtain ⟨-, hcommand⟩ := harg.resolve_right fun h => h.1 hadmits
    rw [hparse] at hcommand
    exact hinvalidValue hcommand.symm
  · intro hnot
    obtain ⟨-, htype⟩ := harg.resolve_left fun h => hnot h.1
    rw [parseArg_of_int hint] at htype ⊢
    cases hnumber : (if args[1]?.isSome then none
        else parseIntArg args[0]? spec.minValue spec.maxValue) with
    | none => rfl
    | some number =>
      rw [hnumber] at htype
      rcases htype with h | h
      · exact absurd h hinvalid
      · exact absurd h hinvalidValue

theorem NamesInteger.parse (h : NamesInteger tokens) :
    parseTokens tokens = { type := .invalidValue } ↔ ¬IntegerCommand tokens := by
  obtain ⟨device, words, rfl, spec, hspec, hnames, hint⟩ := h
  have hiff := parseArg_int_iff hspec hint (words.drop 1)
  rw [List.getElem?_drop, List.getElem?_drop] at hiff
  rw [parseTokens_of_names hspec hnames, hiff, not_iff_not]
  constructor
  · intro hadmits
    exact ⟨device, words, rfl, spec, hspec, hnames, hint, hadmits⟩
  · rintro ⟨_, _, heq, other, hother, hnames', -, hadmits⟩
    obtain ⟨rfl, rfl⟩ := List.cons.inj heq
    rwa [names_unique hother hspec hnames' hnames] at hadmits

theorem argType_of_action : ∀ spec ∈ commandSpecs, spec.action = none → spec.argType = .none := by
  decide

theorem names_none (h : spec.Names device none = true) : spec.action = none := by
  rw [CommandSpec.Names, Bool.and_eq_true] at h
  cases haction : spec.action with
  | none => rfl
  | some action =>
    rw [haction] at h
    exact absurd h.2 Bool.false_ne_true

theorem names_some {action : CText} (h : spec.Names device (some action) = true) :
    spec.action ≠ none := by
  intro haction
  rw [CommandSpec.Names, Bool.and_eq_true, haction] at h
  exact absurd h.2 Bool.false_ne_true

theorem NamesInteger.append (h : NamesInteger tokens) (later : List CText) :
    NamesInteger (tokens ++ later) := by
  obtain ⟨device, words, rfl, spec, hspec, hnames, hint⟩ := h
  refine ⟨device, words ++ later, rfl, spec, hspec, ?_, hint⟩
  cases words with
  | nil =>
    have hnone := argType_of_action spec hspec (names_none hnames)
    rw [hint] at hnone
    exact absurd hnone (by decide)
  | cons action words => exact hnames

theorem NamesInteger.of_two {action : CText} (h : NamesInteger (device :: action :: words))
    (words' : List CText) : NamesInteger (device :: action :: words') := by
  obtain ⟨_, _, heq, spec, hspec, hnames, hint⟩ := h
  obtain ⟨rfl, rfl⟩ := List.cons.inj heq
  exact ⟨device, action :: words', rfl, spec, hspec, hnames, hint⟩

theorem IntegerCommand.append (h : IntegerCommand tokens) (hlater : later ≠ []) :
    ¬IntegerCommand (tokens ++ later) := by
  obtain ⟨device, words, rfl, spec, -, -, hint, hadmits⟩ := h
  rintro ⟨_, _, heq, other, -, -, hint', hadmits'⟩
  rw [List.cons_append] at heq
  obtain ⟨-, rfl⟩ := List.cons.inj heq
  have hone := hadmits.length hint
  have hmore := hadmits'.length hint'
  have hpos := List.length_pos_iff.mpr hlater
  rw [List.length_drop] at hone hmore
  rw [List.length_append] at hmore
  omega

/-! ## More tokens -/

theorem action_of_command : ∀ spec ∈ commandSpecs, ∀ other ∈ commandSpecs,
    spec.command = other.command → spec.action = none → other.action = none := by decide

theorem device_alone {action : CText} (hspec : spec ∈ commandSpecs)
    (hnames : spec.Names device none = true) :
    (parseTokens (device :: action :: words)).type ≠ spec.command := by
  intro htype
  obtain ⟨-, -, hinvalid, hinvalidValue⟩ := commandSpecs_sound spec hspec
  obtain ⟨other, hother, hnames', hparse⟩ | ⟨-, hparse⟩ := parseTokens_cases device (action :: words)
  · rw [hparse] at htype
    have hcommand := entry_of_type hspec htype
    exact names_some hnames' (action_of_command spec hspec other hother hcommand.symm (names_none hnames))
  · rw [hparse] at htype
    simp only at htype
    split at htype
    · exact hinvalid htype.symm
    · exact hinvalidValue htype.symm

theorem malformed_of_same (hlater : later ≠ []) (hint : ¬NamesInteger tokens)
    (hfew : tokens.length < 3) (hsame : parseTokens tokens = parseTokens (tokens ++ later)) :
    Malformed tokens := by
  obtain ⟨next, rest, rfl⟩ := List.exists_cons_of_ne_nil hlater
  match tokens with
  | [] => exact absurd (congrArg ParsedCommand.type hsame).symm (parseTokens_type_ne_empty next rest)
  | [device] =>
    refine malformed_cons.mpr (.inl ⟨Nat.zero_lt_two, ?_⟩)
    intro spec hspec hnames
    have hnone := argType_of_action spec hspec (names_none hnames)
    have hparse : parseTokens [device] = parseArg spec none none := parseTokens_of_names hspec hnames
    rw [hparse, parseArg_of_none hnone] at hsame
    exact device_alone hspec hnames (congrArg ParsedCommand.type hsame).symm
  | [device, action] =>
    refine malformed_cons.mpr (.inl ⟨Nat.one_lt_two, ?_⟩)
    intro spec hspec hnames
    obtain ⟨-, -, hinvalid, hinvalidValue⟩ := commandSpecs_sound spec hspec
    have hparse : parseTokens [device, action] = parseArg spec none none :=
      parseTokens_of_names hspec hnames
    have hmore : parseTokens ([device, action] ++ next :: rest) = parseArg spec (some next) rest[0]? :=
      parseTokens_of_names hspec hnames
    rw [hparse, hmore] at hsame
    cases harg : spec.argType with
    | none =>
      rw [parseArg_of_none harg, parseArg_of_none harg] at hsame
      exact hinvalid (congrArg ParsedCommand.type hsame)
    | int => exact hint ⟨device, [action], rfl, spec, hspec, hnames, harg⟩
    | string =>
      rw [parseArg_of_string harg, parseArg_of_string harg] at hsame
      exact hinvalidValue (congrArg ParsedCommand.type hsame).symm
  | device :: action :: value :: more =>
    rw [List.length_cons, List.length_cons, List.length_cons] at hfew
    omega

/-- From the third token on only an integer command looks at what follows. -/
theorem parseTokens_three {action value : CText}
    (hint : ¬NamesInteger (device :: action :: value :: words)) :
    parseTokens (device :: action :: value :: words) = parseTokens [device, action, value] := by
  obtain ⟨spec, hspec, hnames, hparse⟩ | ⟨hunknown, hparse⟩ := parseTokens_cases device [action, value]
  · have hmore : parseTokens (device :: action :: value :: words) =
        parseArg spec (some value) words[0]? := parseTokens_of_names hspec hnames
    rw [hparse, hmore]
    cases harg : spec.argType with
    | none =>
      rw [parseArg_of_none harg, parseArg_of_none harg]
      rfl
    | int => exact absurd ⟨device, action :: value :: words, rfl, spec, hspec, hnames, harg⟩ hint
    | string =>
      rw [parseArg_of_string harg, parseArg_of_string harg]
      rfl
  · rw [hparse]
    exact parseTokens_of_unknown hunknown

theorem parseTokens_append_iff (tokens later : List CText) :
    parseTokens tokens = parseTokens (tokens ++ later) ↔ Unaffected tokens later := by
  unfold Unaffected
  constructor
  · intro hsame
    by_cases hlater : later = []
    · exact .inl hlater
    by_cases hint : NamesInteger tokens
    · have hnot : ¬IntegerCommand tokens := by
        intro hinteger
        rw [(hint.append later).parse.mpr (hinteger.append hlater)] at hsame
        exact hint.parse.mp hsame hinteger
      rw [hint.parse.mpr hnot] at hsame
      exact .inr (.inr (.inl ⟨hint, hnot, (hint.append later).parse.mp hsame.symm⟩))
    by_cases hthree : 3 ≤ tokens.length
    · exact .inr (.inr (.inr ⟨hint, hthree⟩))
    · have hmalformed := malformed_of_same hlater hint (Nat.lt_of_not_le hthree) hsame
      rw [malformed_iff.mp hmalformed] at hsame
      exact .inr (.inl ⟨hmalformed, malformed_iff.mpr hsame.symm⟩)
  · rintro (rfl | ⟨hmalformed, hmore⟩ | ⟨hint, hnot, hmore⟩ | ⟨hint, hthree⟩)
    · rw [List.append_nil]
    · rw [malformed_iff.mp hmalformed, malformed_iff.mp hmore]
    · rw [hint.parse.mpr hnot, (hint.append later).parse.mpr hmore]
    · match tokens with
      | [] => exact absurd hthree (show ¬3 ≤ 0 by decide)
      | [_] => exact absurd hthree (show ¬3 ≤ 1 by decide)
      | [_, _] => exact absurd hthree (show ¬3 ≤ 2 by decide)
      | device :: action :: value :: words =>
        have hmore : ¬NamesInteger (device :: action :: value :: (words ++ later)) :=
          fun hmore => hint (hmore.of_two (value :: words))
        rw [parseTokens_three hint]
        exact (parseTokens_three hmore).symm

end RemoteDevice
