import RemoteDevice.Lib.CText

/-! Command lines: `command_parse` and the table of commands. -/

namespace RemoteDevice
open CText

inductive Command
  | empty
  | invalid
  | invalidValue
  | help
  | status
  | pluginList
  | quit
  | ledOn
  | ledOnBright
  | ledOff
  | buzzerMusic
  | buzzerOn
  | buzzerOff
  | buzzerBeep
  | lightRead
  | segDisplay
  | segClear
  deriving DecidableEq, Repr

/-- `str` is the string in the `char[128]` array. -/
structure ParsedCommand where
  type : Command
  value : Int := 0
  str : CText := []
  deriving DecidableEq, Repr

def commandLineMax : Nat := 256

def parsedStrSize : Nat := 128

inductive CommandArgType
  | none
  | int
  | string
  deriving DecidableEq, Repr

structure CommandSpec where
  device : CText
  action : Option CText
  command : Command
  argType : CommandArgType
  minValue : Int
  maxValue : Int
  deriving DecidableEq, Repr

def commandSpecs : List CommandSpec := [
  ⟨ascii "HELP", none, .help, .none, 0, 0⟩,
  ⟨ascii "STATUS", none, .status, .none, 0, 0⟩,
  ⟨ascii "PLUGIN", ascii "LIST", .pluginList, .none, 0, 0⟩,
  ⟨ascii "DEVICE", ascii "LIST", .pluginList, .none, 0, 0⟩,
  ⟨ascii "QUIT", none, .quit, .none, 0, 0⟩,

  ⟨ascii "LED", ascii "ON", .ledOn, .none, 0, 0⟩,
  ⟨ascii "LED", ascii "BRIGHT", .ledOnBright, .int, 0, 255⟩,
  ⟨ascii "LED", ascii "OFF", .ledOff, .none, 0, 0⟩,

  ⟨ascii "BUZZER", ascii "MUSIC", .buzzerMusic, .string, 0, 0⟩,
  ⟨ascii "BUZZER", ascii "ON", .buzzerOn, .none, 0, 0⟩,
  ⟨ascii "BUZZER", ascii "OFF", .buzzerOff, .none, 0, 0⟩,
  ⟨ascii "BUZZER", ascii "BEEP", .buzzerBeep, .int, 1, 10000⟩,

  ⟨ascii "LIGHT", ascii "READ", .lightRead, .none, 0, 0⟩,

  ⟨ascii "SEG", ascii "DISPLAY", .segDisplay, .int, 0, 9⟩,
  ⟨ascii "SEG", ascii "CLEAR", .segClear, .none, 0, 0⟩]

def isDelim (b : UInt8) : Bool := b = 32 || b = 9 || b = 13 || b = 10

def tokenEquals : Option CText → Option CText → Bool
  | some left, some right => caseEq left right
  | left, right => left.isNone && right.isNone

def parseIntArg (token : Option CText) (minValue maxValue : Int) : Option Int :=
  match token with
  | none | some [] => none
  | some token =>
    let r := strtol token
    if r.erange ∨ r.endptr ≠ [] ∨ r.number < minValue ∨ maxValue < r.number then none
    else some r.number

/-- The body of the loop over `commandSpecs` for the entry that matches. -/
def parseArg (spec : CommandSpec) (value extra : Option CText) : ParsedCommand :=
  match spec.argType with
  | .none => if value.isSome then { type := .invalid } else { type := spec.command }
  | .int =>
    match if extra.isSome then none else parseIntArg value spec.minValue spec.maxValue with
    | none => { type := .invalidValue }
    | some number => { type := spec.command, value := number }
  | .string =>
    match value with
    | none => { type := .invalidValue }
    | some value => { type := spec.command, str := value.take (parsedStrSize - 1) }

def CommandSpec.Names (spec : CommandSpec) (device action : Option CText) : Bool :=
  tokenEquals device spec.device && tokenEquals action spec.action

def parseWords (device : CText) (action value extra : Option CText) : ParsedCommand :=
  match commandSpecs.find? (·.Names device action) with
  | some spec => parseArg spec value extra
  | none => { type := if value.isNone then .invalid else .invalidValue }

def strtokNext (saveptr : CText) : Option CText × CText :=
  match strtok isDelim saveptr with
  | none => (none, [])
  | some (token, saveptr) => (some token, saveptr)

def commandParse (line : Option CText) : ParsedCommand :=
  match line with
  | none => { type := .empty }
  | some line =>
    if commandLineMax ≤ line.length then { type := .invalid }
    else
      match strtok isDelim line with
      | none => { type := .empty }
      | some (device, saveptr) =>
        let (action, saveptr) := strtokNext saveptr
        let (value, saveptr) := strtokNext saveptr
        let (extra, _) := strtokNext saveptr
        parseWords device action value extra

/-! ## What a line is read as -/

def lineTokens (line : CText) : List CText := tokens isDelim line

def parseTokens : List CText → ParsedCommand
  | [] => { type := .empty }
  | device :: words => parseWords device words[0]? words[1]? words[2]?

theorem strtokNext_token (s : CText) : (strtokNext s).1 = (lineTokens s)[0]? := by
  rw [lineTokens, tokens_eq, strtokNext]
  cases strtok isDelim s <;> rfl

theorem strtokNext_rest (s : CText) : lineTokens (strtokNext s).2 = (lineTokens s).tail := by
  rw [lineTokens, lineTokens, tokens_eq s, strtokNext]
  cases strtok isDelim s <;> rfl

theorem commandParse_eq {line : CText} (h : line.length < commandLineMax) :
    commandParse line = parseTokens (lineTokens line) := by
  simp only [commandParse, if_neg (Nat.not_le.mpr h)]
  rw [lineTokens, tokens_eq]
  cases strtok isDelim line with
  | none => rfl
  | some r =>
    simp only [parseTokens, strtokNext_token, strtokNext_rest, List.getElem?_tail]
    rfl

theorem commandParse_congr {line line' : CText} (h : line.length < commandLineMax)
    (h' : line'.length < commandLineMax) (ht : lineTokens line = lineTokens line') :
    commandParse line = commandParse line' := by
  rw [commandParse_eq h, commandParse_eq h', ht]

theorem commandParse_long {line : CText} (h : commandLineMax ≤ line.length) :
    commandParse line = { type := .invalid } := if_pos h

theorem lineTokens_flatten {lines : List CText} (h : ∀ l ∈ lines, l.getLast? = some 10) :
    lineTokens lines.flatten = lines.flatMap lineTokens := by
  induction lines with
  | nil => rfl
  | cons l lines ih =>
    obtain ⟨s, rfl⟩ := List.getLast?_eq_some_iff.mp (h l (List.mem_cons_self ..))
    have hs : lineTokens (s ++ [10]) = lineTokens s := by
      simpa [lineTokens, tokens_nil] using tokens_append_delim s [] (show isDelim 10 from rfl)
    rw [List.flatten_cons, List.append_assoc, List.flatMap_cons, hs,
      ← ih fun l hl => h l (List.mem_cons_of_mem _ hl)]
    exact tokens_append_delim s lines.flatten rfl

end RemoteDevice
