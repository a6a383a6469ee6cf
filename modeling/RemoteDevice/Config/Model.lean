import RemoteDevice.Lib.CMemory

/-! `app_config.c`: the settings that are read from an INI file. -/

namespace RemoteDevice.Config
open Checked CMemory CText

def maxAddrLen : Nat := 64

structure AppConfig where
  addr : Buffer maxAddrLen UInt8
  port : Int

def app : AppConfig where
  addr := fun i => (ascii "127.0.0.1").getD i 0
  port := 60000

/-- The pointer to the first byte that is no white space, and the array with a NUL behind the last
such byte. -/
def trim {n : Nat} (a : Buffer n UInt8) (str : Nat) : Result (Nat × Buffer n UInt8) := do
  let str ← seek a isSpace str
  let first ← read a str
  if first = 0 then pure (str, a)
  else do
    let length ← strlen a str
    let last ← sub (str + length) 1
    let last ← seekBack a isSpace str last
    let a ← a.write (last + 1) 0
    pure (str, a)

def atoi (s : CText) : Int := (strtol s).number.bmod (2 ^ 32)

def lineSize : Nat := 256

def sectionSize : Nat := 64

structure Loader where
  line : Buffer lineSize UInt8
  currentSection : Buffer sectionSize UInt8
  app : AppConfig

def isHeader (line : Buffer lineSize UInt8) (trimmedLine : Nat) : Result Bool := do
  let first ← read line trimmedLine
  if first = 91 then do
    let length ← strlen line trimmedLine
    let last ← sub (trimmedLine + length) 1
    let last ← read line last
    pure (last = 93)
  else pure false

/-- The pointer that `trim(current_section)` returns is not used. -/
def readHeader (m : Loader) (trimmedLine : Nat) : Result Loader := do
  let length ← strlen m.line trimmedLine
  let count ← sub length 2
  let name ← strncpy m.currentSection 0 m.line (trimmedLine + 1) count
  let name ← name.write count 0
  let (_, name) ← trim name 0
  pure { m with currentSection := name }

def setValue (m : Loader) (key value : Nat) : Result Loader := do
  let inServer ← strcmpZero m.currentSection 0 (ascii "Server")
  if inServer then do
    let isPort ← strcmpZero m.line key (ascii "port")
    if isPort then do
      let number ← text m.line value
      pure { m with app := { m.app with port := atoi number } }
    else do
      let isAddr ← strcmpZero m.line key (ascii "addr")
      if isAddr then do
        let addr ← strncpy m.app.addr 0 m.line value (maxAddrLen - 1)
        let addr ← addr.write (maxAddrLen - 1) 0
        pure { m with app := { m.app with addr := addr } }
      else pure m
  else pure m

def readLine (m : Loader) : Result Loader := do
  let (trimmedLine, line) ← trim m.line 0
  let first ← read line trimmedLine
  if first = 0 ∨ first = 35 ∨ first = 59 then pure { m with line := line }
  else do
    let header ← isHeader line trimmedLine
    if header then readHeader { m with line := line } trimmedLine
    else do
      let delimiterIndex ← strchr line trimmedLine 61
      match delimiterIndex with
      | none => pure { m with line := line }
      | some delimiterIndex => do
        let line ← line.write delimiterIndex 0
        let (key, line) ← trim line trimmedLine
        let (value, line) ← trim line (delimiterIndex + 1)
        setValue { m with line := line } key value

/-- The loop over `fgets`, which takes a byte or more each time: there are no more rounds than bytes. -/
def readLines : Nat → List UInt8 → Loader → Result Loader
  | 0, _, m => pure m
  | rounds + 1, rest, m => do
    let next ← fgets m.line lineSize rest
    match next with
    | none => pure m
    | some (line, rest) => do
      let m ← readLine { m with line := line }
      readLines rounds rest m

/-- `line` is what the array of that name holds before it is written, and `file` the bytes of the file,
or nothing where it cannot be opened. -/
def loadAppConfig (app : AppConfig) (line : Buffer lineSize UInt8) (file : Option (List UInt8)) :
    Result (AppConfig × Bool) :=
  match file with
  | none => pure (app, false)
  | some bytes => do
    let m ← readLines (bytes.length + 1) bytes ⟨line, fun _ => 0, app⟩
    pure (m.app, true)

end RemoteDevice.Config
