import Mathlib.Data.List.DropRight
import RemoteDevice.Command.Exec
import RemoteDevice.Lib.LineInput
import RemoteDevice.Lib.Runs

/-! `client/main.c`: the console, which waits for the user and for the server. -/

namespace RemoteDevice.Client
open CText LineInput

/-! ## Lines -/

def trimNewline (str : CText) : CText := str.rdropWhile fun b => b = 10 || b = 13

def isBlank (str : CText) : Bool := str.all fun b => b = 32 || b = 9

inductive LocalCommand
  | help
  | clear
  | close
  | quit
  deriving DecidableEq

/-- The comparisons of `handle_local_command`; `none` is a command for the server. -/
def localCommand (line : CText) : Option LocalCommand :=
  if caseEq line (ascii ".help") || caseEq line (ascii "client help") then some .help
  else if caseEq line (ascii ".clear") || caseEq line (ascii "clear") then some .clear
  else if caseEq line (ascii ".quit") || caseEq line (ascii ".exit") || caseEq line (ascii "exit") then
    some .close
  else if caseEq line (ascii "quit") then some .quit
  else none

/-- The command that `send_command` sends: a line of 1023 bytes loses its end. -/
def commandText (line : CText) : CText := snprintf (line ++ ascii "\n")

/-! ## The loop -/

/-- What the console prints at a time. Only what it was given is kept of a text, not its fixed words. -/
inductive Print
  | banner
  | prompt
  | localHelp
  | clearScreen
  | closing
  | sentQuit
  | echo (line : CText)
  | response (text : CText)
  | newline
  | closed
  | disconnected
  deriving DecidableEq

/-- `polling` is the head of the loop, `waiting` is inside `poll`; `quitting` is the `send` of
`handle_local_command`, `sending` that of `send_command`. -/
inductive Pc
  | polling
  | waiting
  | receiving
  | reading
  | sending
  | quitting
  | left
  | exited
  deriving DecidableEq

inductive Polled
  | interrupted
  | failed
  | ready (hangup socketIn stdinIn : Bool)
  deriving DecidableEq

inductive Recv
  | error
  | closed
  | data (bytes : List UInt8)
  deriving DecidableEq

inductive Action
  | poll
  | leave
  | polled (answer : Polled)
  | recv (result : Recv)
  | fgets (reads : List Read)
  | send (ok : Bool)
  | sigint
  deriving DecidableEq

/-- `buffer` is the string in the static array. The pieces that `fgets` returned, what was sent and
received, and what was printed on the standard output are newest first. -/
structure State where
  running : Bool := true
  pc : Pc := .polling
  buffer : CText := []
  file : LineInput.Stream := {}
  pieces : List (List UInt8) := []
  sent : List CText := []
  received : List (List UInt8) := []
  screen : List Print := [.prompt, .banner]
  deriving DecidableEq

def maxPiece : Nat := bufferSize - 1

def handleLine (s : State) (file : LineInput.Stream) (piece : List UInt8) : State :=
  let line := trimNewline (ofBuffer piece)
  let s := { s with file, buffer := line, pieces := piece :: s.pieces }
  if isBlank line then { s with pc := .polling, screen := .prompt :: s.screen }
  else
    match localCommand line with
    | some .help => { s with pc := .polling, screen := .prompt :: .localHelp :: s.screen }
    | some .clear => { s with pc := .polling, screen := .prompt :: .clearScreen :: s.screen }
    | some .close => { s with pc := .left, screen := .closing :: s.screen }
    | some .quit => { s with pc := .quitting }
    | none => { s with pc := .sending, screen := .echo line :: s.screen }

def step (s : State) : Action → Option State
  | .poll => if s.pc = .polling ∧ s.running then some { s with pc := .waiting } else none
  | .leave => if s.pc = .polling ∧ s.running = false then some { s with pc := .left } else none
  | .polled answer =>
    if s.pc = .waiting then
      match answer with
      | .interrupted => some { s with pc := .polling }
      | .failed => some { s with pc := .exited }
      | .ready hangup socketIn stdinIn =>
        if hangup then some { s with pc := .left, screen := .closed :: s.screen }
        else if socketIn then some { s with pc := .receiving }
        else if stdinIn then some { s with pc := .reading }
        else some { s with pc := .polling }
    else none
  | .recv result =>
    if s.pc = .receiving then
      match result with
      | .error => some { s with pc := .exited }
      | .closed => some { s with pc := .left, screen := .disconnected :: s.screen }
      | .data bytes =>
        if bytes ≠ [] ∧ bytes.length ≤ bufferSize - 1 then
          some { s with
            pc := .polling
            buffer := ofBuffer bytes
            received := bytes :: s.received
            screen := .prompt :: .response (ofBuffer bytes) :: s.screen }
        else none
    else none
  | .fgets reads =>
    if s.pc = .reading then
      (LineInput.fgets maxPiece s.file reads).map fun (line, file) =>
        match line with
        | .piece piece => handleLine s file piece
        -- clearerr takes the indicator back
        | .eof =>
          { s with pc := .polling, file := { file with eof := false }, screen := .prompt :: .newline :: s.screen }
        | .error => { s with pc := .polling, file := { file with eof := false }, screen := .prompt :: s.screen }
    else none
  | .send ok =>
    match s.pc with
    | .sending =>
      if ok then some { s with pc := .polling, sent := commandText s.buffer :: s.sent }
      else some { s with pc := .exited }
    | .quitting =>
      -- the result of this send is not looked at
      some { s with
        pc := .left
        sent := if ok then ascii "QUIT\n" :: s.sent else s.sent
        screen := .sentQuit :: s.screen }
    | _ => none
  | .sigint =>
    match s.pc with
    | .left | .exited => none
    | _ => some { s with running := false }

end RemoteDevice.Client
