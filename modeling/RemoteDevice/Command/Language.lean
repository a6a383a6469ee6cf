import Mathlib.Data.List.Nodup
import RemoteDevice.Command.Parse
import RemoteDevice.Lib.Numeral

/-! The command language: which lines it consists of, which lines `command_parse` accepts, and
where the two differ. -/

namespace RemoteDevice
open CText

def CommandSpec.Takes (spec : CommandSpec) (args : List CText) : Prop :=
  match spec.argType with
  | .none => args = []
  | .int => ∃ token n, args = [token] ∧ Numeral token n ∧ spec.minValue ≤ n ∧ n ≤ spec.maxValue
  | .string => ∃ token, args = [token]

def InLanguage (tokens : List CText) (command : Command) : Prop :=
  ∃ device words, tokens = device :: words ∧ ∃ spec ∈ commandSpecs,
    spec.Names device words[0]? = true ∧ spec.Takes (words.drop 1) ∧ spec.command = command

def Accepts (line : CText) (command : Command) : Prop :=
  (commandParse (some line)).type = command ∧
    command ≠ .empty ∧ command ≠ .invalid ∧ command ≠ .invalidValue

/-- Arguments of another form that the parser lets pass: several tokens for a string, and for an
integer a number in range behind white space that is no delimiter. -/
def CommandSpec.LaxFor (spec : CommandSpec) (args : List CText) : Prop :=
  match spec.argType with
  | .none => False
  | .int => ∃ spaces token n, args = [spaces ++ token] ∧ spaces ≠ [] ∧
      (∀ b ∈ spaces, isSpace b = true) ∧ Numeral token n ∧ spec.minValue ≤ n ∧ n ≤ spec.maxValue
  | .string => 2 ≤ args.length

def Lax (tokens : List CText) : Prop :=
  ∃ device words, tokens = device :: words ∧ ∃ spec ∈ commandSpecs,
    spec.Names device words[0]? = true ∧ spec.LaxFor (words.drop 1)

/-! ## The table -/

def CommandSpec.key (spec : CommandSpec) : CText × Option CText :=
  (spec.device.map tolower, spec.action.map (·.map tolower))

theorem CommandSpec.names_iff {spec : CommandSpec} {device : CText} {action : Option CText} :
    spec.Names device action = true ↔
      spec.key = (device.map tolower, action.map (·.map tolower)) := by
  have hword : ∀ a b : CText, caseEq a b = true ↔ b.map tolower = a.map tolower := fun a b => by
    rw [caseEq, decide_eq_true_eq, eq_comm]
  have haction : tokenEquals action spec.action = true ↔
      spec.action.map (·.map tolower) = action.map (·.map tolower) := by
    cases action <;> cases spec.action <;> simp [tokenEquals, hword]
  rw [CommandSpec.Names, Bool.and_eq_true, haction, CommandSpec.key, Prod.mk.injEq]
  exact and_congr_left fun _ => hword _ _

theorem names_unique {a b : CommandSpec} {device : CText} {action : Option CText}
    (ha : a ∈ commandSpecs) (hb : b ∈ commandSpecs) (hna : a.Names device action = true)
    (hnb : b.Names device action = true) : a = b := by
  have hnodup : (commandSpecs.map CommandSpec.key).Nodup := by decide
  have hkey : a.key = b.key :=
    (CommandSpec.names_iff.mp hna).trans (CommandSpec.names_iff.mp hnb).symm
  exact List.inj_on_of_nodup_map hnodup ha hb hkey

theorem find?_names {spec : CommandSpec} {device : CText} {action : Option CText}
    (hspec : spec ∈ commandSpecs) (hnames : spec.Names device action = true) :
    commandSpecs.find? (·.Names device action) = some spec := by
  cases hfind : commandSpecs.find? (·.Names device action) with
  | none => exact absurd hnames (List.find?_eq_none.mp hfind spec hspec)
  | some other =>
    have hother := List.find?_some (p := fun spec : CommandSpec => spec.Names device action) hfind
    rw [names_unique (List.mem_of_find?_eq_some hfind) hspec hother hnames]

theorem commandSpecs_sound : ∀ spec ∈ commandSpecs,
    (-2 ^ 63 ≤ spec.minValue ∧ spec.maxValue < 2 ^ 63) ∧ spec.command ≠ .empty ∧
      spec.command ≠ .invalid ∧ spec.command ≠ .invalidValue := by
  decide

/-! ## What the parser accepts -/

theorem parseIntArg_of_ne_nil {token : CText} {lo hi : Int} (h : token ≠ []) :
    parseIntArg (some token) lo hi =
      let r := strtol token
      if r.erange ∨ r.endptr ≠ [] ∨ r.number < lo ∨ hi < r.number then none
      else some r.number := by
  cases token with
  | nil => exact absurd rfl h
  | cons b token => rfl

theorem parseIntArg_numeral {spaces t : CText} {lo hi m n : Int} (hlo : -2 ^ 63 ≤ lo)
    (hhi : hi < 2 ^ 63) (hspaces : ∀ b ∈ spaces, isSpace b = true) (ht : Numeral t m) :
    parseIntArg (some (spaces ++ t)) lo hi = some n ↔ m = n ∧ lo ≤ n ∧ n ≤ hi := by
  have hne : spaces ++ t ≠ [] := by simp [ht.ne_nil]
  rw [parseIntArg_of_ne_nil hne, ht.strtol hspaces]
  by_cases hlow : m < -2 ^ 63
  · simp only [if_pos hlow, true_or, if_true, reduceCtorEq, false_iff]
    omega
  · by_cases hhigh : 2 ^ 63 ≤ m
    · simp only [if_neg hlow, if_pos hhigh, true_or, if_true, reduceCtorEq, false_iff]
      omega
    · simp only [if_neg hlow, if_neg hhigh, Option.ite_none_left_eq_some]
      constructor
      · rintro ⟨hrange, hmn⟩
        obtain rfl := Option.some.inj hmn
        simp at hrange
        omega
      · rintro ⟨rfl, hrange⟩
        simp
        omega

theorem parseIntArg_iff {token : CText} {lo hi n : Int} (hlo : -2 ^ 63 ≤ lo) (hhi : hi < 2 ^ 63) :
    parseIntArg (some token) lo hi = some n ↔
      ∃ spaces t, token = spaces ++ t ∧ (∀ b ∈ spaces, isSpace b = true) ∧ Numeral t n ∧
        lo ≤ n ∧ n ≤ hi := by
  constructor
  · intro h
    have hne : token ≠ [] := by
      rintro rfl
      cases h
    have hend : (strtol token).endptr = [] := by
      rw [parseIntArg_of_ne_nil hne, Option.ite_none_left_eq_some] at h
      by_contra hend
      exact h.1 (.inr (.inl hend))
    obtain ⟨spaces, t, m, rfl, hspaces, ht⟩ := numeral_of_strtol hne hend
    obtain ⟨rfl, hrange⟩ := (parseIntArg_numeral hlo hhi hspaces ht).mp h
    exact ⟨spaces, t, rfl, hspaces, ht, hrange⟩
  · rintro ⟨spaces, t, rfl, hspaces, ht, hrange⟩
    exact (parseIntArg_numeral hlo hhi hspaces ht).mpr ⟨rfl, hrange⟩

def CommandSpec.Admits (spec : CommandSpec) (args : List CText) : Prop :=
  match spec.argType with
  | .none => args = []
  | .int => ∃ spaces token n, args = [spaces ++ token] ∧ (∀ b ∈ spaces, isSpace b = true) ∧
      Numeral token n ∧ spec.minValue ≤ n ∧ n ≤ spec.maxValue
  | .string => args ≠ []

theorem parseArg_type {spec : CommandSpec} (hspec : spec ∈ commandSpecs) (args : List CText) :
    (spec.Admits args ∧ (parseArg spec args[0]? args[1]?).type = spec.command) ∨
      (¬ spec.Admits args ∧ ((parseArg spec args[0]? args[1]?).type = .invalid ∨
        (parseArg spec args[0]? args[1]?).type = .invalidValue)) := by
  unfold CommandSpec.Admits parseArg
  cases spec.argType with
  | none => cases args <;> simp
  | string => cases args <;> simp
  | int =>
    obtain ⟨⟨hlo, hhi⟩, -⟩ := commandSpecs_sound spec hspec
    match args with
    | [] => simp [parseIntArg]
    | [token] =>
      have hread : ∀ n, parseIntArg (some token) spec.minValue spec.maxValue = some n ↔ _ :=
        fun n => parseIntArg_iff hlo hhi
      simp only [List.getElem?_cons_zero, List.getElem?_cons_succ, List.getElem?_nil,
        Option.isSome_none, Bool.false_eq_true, if_false]
      cases hparse : parseIntArg (some token) spec.minValue spec.maxValue with
      | none =>
        refine .inr ⟨?_, .inr rfl⟩
        rintro ⟨spaces, t, n, hargs, hspaces, ht, hrange⟩
        obtain rfl := (List.cons.inj hargs).1
        have hsome := (hread n).mpr ⟨spaces, t, rfl, hspaces, ht, hrange⟩
        rw [hparse] at hsome
        cases hsome
      | some n =>
        obtain ⟨spaces, t, rfl, hspaces, ht, hrange⟩ := (hread n).mp hparse
        exact .inl ⟨⟨spaces, t, n, rfl, hspaces, ht, hrange⟩, rfl⟩
    | token :: extra :: rest => simp

theorem accepts_iff {line : CText} {command : Command} (hshort : line.length < commandLineMax) :
    Accepts line command ↔ ∃ device words, lineTokens line = device :: words ∧
      ∃ spec ∈ commandSpecs, spec.Names device words[0]? = true ∧ spec.Admits (words.drop 1) ∧
        spec.command = command := by
  rw [Accepts, commandParse_eq hshort]
  cases htokens : lineTokens line with
  | nil =>
    constructor
    · rintro ⟨hempty, hne, -⟩
      exact absurd hempty.symm hne
    · rintro ⟨_, _, heq, -⟩
      cases heq
  | cons device words =>
    have hzero : (words.drop 1)[0]? = words[1]? := by simp
    have hone : (words.drop 1)[1]? = words[2]? := by simp
    rw [parseTokens, parseWords]
    constructor
    · rintro ⟨htype, hne⟩
      refine ⟨device, words, rfl, ?_⟩
      -- the entry is found before its argument is looked at
      cases hfind : commandSpecs.find? (·.Names device words[0]?) with
      | none =>
        rw [hfind] at htype
        simp only at htype
        subst htype
        split_ifs at hne <;> simp at hne
      | some spec =>
        have hspec := List.mem_of_find?_eq_some hfind
        have hnames := List.find?_some (p := fun x : CommandSpec => x.Names device words[0]?) hfind
        have harg := parseArg_type hspec (words.drop 1)
        rw [hzero, hone] at harg
        rw [hfind] at htype
        simp only at htype
        rcases harg with ⟨hadmits, hcommand⟩ | ⟨-, herror | herror⟩
        · exact ⟨spec, hspec, hnames, hadmits, hcommand.symm.trans htype⟩
        · exact absurd (htype.symm.trans herror) hne.2.1
        · exact absurd (htype.symm.trans herror) hne.2.2
    · rintro ⟨_, _, heq, spec, hspec, hnames, hadmits, rfl⟩
      obtain ⟨rfl, rfl⟩ := List.cons.inj heq
      have harg := parseArg_type hspec (words.drop 1)
      rw [hzero, hone] at harg
      rw [find?_names hspec hnames]
      exact ⟨(harg.resolve_right fun h => h.1 hadmits).2, (commandSpecs_sound spec hspec).2⟩

/-! ## The parser beside the language -/

theorem CommandSpec.admits_iff {spec : CommandSpec} {args : List CText} :
    spec.Admits args ↔ spec.Takes args ∨ spec.LaxFor args := by
  unfold CommandSpec.Admits CommandSpec.Takes CommandSpec.LaxFor
  cases spec.argType with
  | none => simp
  | int =>
    constructor
    · rintro ⟨spaces, token, n, hargs, hspaces, hrest⟩
      by_cases hnil : spaces = []
      · subst hnil
        exact .inl ⟨token, n, hargs, hrest⟩
      · exact .inr ⟨spaces, token, n, hargs, hnil, hspaces, hrest⟩
    · rintro (⟨token, n, hargs, hrest⟩ | ⟨spaces, token, n, hargs, -, hspaces, hrest⟩)
      · exact ⟨[], token, n, hargs, nofun, hrest⟩
      · exact ⟨spaces, token, n, hargs, hspaces, hrest⟩
  | string =>
    match args with
    | [] => simp
    | [token] => simp
    | token :: extra :: rest => simp

theorem CommandSpec.LaxFor.not_takes {spec : CommandSpec} {args : List CText}
    (h : spec.LaxFor args) : ¬ spec.Takes args := by
  unfold CommandSpec.LaxFor at h
  unfold CommandSpec.Takes
  revert h
  cases spec.argType with
  | none => exact fun h => h.elim
  | int =>
    rintro ⟨spaces, token, n, hargs, hne, hspaces, hn, -⟩ ⟨s, m, hs, hm, -⟩
    have heq : s = spaces ++ token := (List.cons.inj (hs.symm.trans hargs)).1
    exact hne (hm.no_spaces hn hspaces heq)
  | string =>
    rintro htwo ⟨token, rfl⟩
    simp at htwo

theorem lax_accepted {line : CText} (hshort : line.length < commandLineMax)
    (h : Lax (lineTokens line)) :
    ∃ command, Accepts line command ∧ ¬ InLanguage (lineTokens line) command := by
  obtain ⟨device, words, htokens, spec, hspec, hnames, hlax⟩ := h
  refine ⟨spec.command, (accepts_iff hshort).mpr ⟨device, words, htokens, spec, hspec, hnames,
    CommandSpec.admits_iff.mpr (.inr hlax), rfl⟩, ?_⟩
  rintro ⟨device', words', htokens', other, hother, hnames', htakes, -⟩
  obtain ⟨rfl, rfl⟩ := List.cons.inj (htokens.symm.trans htokens')
  rw [names_unique hother hspec hnames' hnames] at htakes
  exact hlax.not_takes htakes

/-- A line is accepted as the language has it, unless it is one that the parser is lax about.
A line of 256 bytes or more is never accepted. -/
theorem command_language (line : CText) :
    (∀ command, Accepts line command ↔
      line.length < commandLineMax ∧ InLanguage (lineTokens line) command) ↔
    (commandLineMax ≤ line.length ∨ ¬ Lax (lineTokens line)) := by
  by_cases hshort : line.length < commandLineMax
  · have hlong : ¬ commandLineMax ≤ line.length := Nat.not_le.mpr hshort
    simp only [hshort, true_and, hlong, false_or]
    constructor
    · intro hsame hlax
      obtain ⟨command, haccepts, hnot⟩ := lax_accepted hshort hlax
      exact hnot ((hsame command).mp haccepts)
    · intro hstrict command
      rw [accepts_iff hshort]
      constructor
      · rintro ⟨device, words, htokens, spec, hspec, hnames, hadmits, hcommand⟩
        refine ⟨device, words, htokens, spec, hspec, hnames, ?_, hcommand⟩
        exact (CommandSpec.admits_iff.mp hadmits).resolve_right fun hlax =>
          hstrict ⟨device, words, htokens, spec, hspec, hnames, hlax⟩
      · rintro ⟨device, words, htokens, spec, hspec, hnames, htakes, hcommand⟩
        exact ⟨device, words, htokens, spec, hspec, hnames,
          CommandSpec.admits_iff.mpr (.inl htakes), hcommand⟩
  · have hlong : commandLineMax ≤ line.length := Nat.not_lt.mp hshort
    simp only [hshort, false_and, hlong, true_or, iff_true, iff_false]
    rintro command ⟨htype, -, hinvalid, -⟩
    rw [commandParse_long hlong] at htype
    exact hinvalid htype.symm

/-- A second token behind the path, and a form feed in front of the number. -/
theorem lax_lines_accepted :
    (∃ command, Accepts (ascii "BUZZER MUSIC a.wav b.wav") command ∧
      ¬ InLanguage (lineTokens (ascii "BUZZER MUSIC a.wav b.wav")) command) ∧
    ∃ command, Accepts (ascii "LED BRIGHT \x0c12") command ∧
      ¬ InLanguage (lineTokens (ascii "LED BRIGHT \x0c12")) command := by
  constructor
  · apply lax_accepted (by decide)
    exact ⟨ascii "BUZZER", [ascii "MUSIC", ascii "a.wav", ascii "b.wav"], by decide,
      ⟨ascii "BUZZER", ascii "MUSIC", .buzzerMusic, .string, 0, 0⟩, by decide, by decide,
      Nat.le_refl 2⟩
  · apply lax_accepted (by decide)
    refine ⟨ascii "LED", [ascii "BRIGHT", 12 :: ascii "12"], by decide,
      ⟨ascii "LED", ascii "BRIGHT", .ledOnBright, .int, 0, 255⟩, by decide, by decide, ?_⟩
    have hdigits : IsDigits (ascii "12") := ⟨by decide, List.all_eq_true.mp (by decide)⟩
    exact ⟨[12], ascii "12", 12, rfl, by decide, List.all_eq_true.mp (by decide),
      .unsigned hdigits, by decide, by decide⟩

end RemoteDevice
