import RemoteDevice.Command.Exec
import RemoteDevice.Lib.Runs

/-! The event loop `service`: connections, requests and replies, one call of the kernel at a time. -/

namespace RemoteDevice.Server
open CText

def maxClients : Nat := 128

inductive Entry
  | accepted (fd : Int)
  | closed (fd : Int)
  | received (fd : Int) (bytes : List UInt8)
  | executed (fd : Int) (command : ParsedCommand)
  | logged (fd : Int) (request response : CText)
  | sent (fd : Int) (response : CText)
  deriving DecidableEq

structure Ready where
  fd : Int
  epollin : Bool
  deriving DecidableEq

/-- `polling` is the head of the `while` loop, `waiting` is inside `epoll_wait`. -/
inductive Pc
  | polling
  | waiting
  | handling (events : List Ready)
  | executing (fd : Int) (bytes : List UInt8) (events : List Ready)
  | sending (fd : Int) (response : CText) (events : List Ready)
  | left
  | exited
  | killed
  deriving DecidableEq

inductive Recv
  | error
  | closed
  | data (bytes : List UInt8)
  deriving DecidableEq

/-- `sigpipe`: the peer has reset the connection and the signal ends the process. -/
inductive Send
  | sent
  | failed
  | sigpipe
  deriving DecidableEq

inductive Action
  | poll
  | epollWait (events : Option (List Ready))
  | leave
  | accept (fd : Option Int) (registered : Bool)
  | recv (result : Recv)
  | skip
  | exec
  | send (result : Send)
  | sigterm
  deriving DecidableEq

/-- `log` is newest first. -/
structure State (σ : Type) where
  running : Bool := true
  clientFds : List Int := List.replicate maxClients (-1)
  epollFds : List Int := []
  pc : Pc := .polling
  device : σ
  log : List Entry := []
  deriving DecidableEq

def addClient (clientFds : List Int) (fd : Int) : List Int := clientFds.replace (-1) fd

def removeClient (clientFds : List Int) (fd : Int) : List Int := clientFds.replace fd (-1)

def copySingleLine (destSize : Nat) (src : CText) : CText :=
  (src.takeWhile fun b => b ≠ 13 && b ≠ 10).take (destSize - 1)

def resume (events : List Ready) : Pc := if events = [] then .polling else .handling events

variable {σ : Type} (api : DeviceApi σ) (serverFd : Int)

def drop (s : State σ) (fd : Int) (events : List Ready) : State σ :=
  { s with
    epollFds := s.epollFds.erase fd
    clientFds := removeClient s.clientFds fd
    pc := resume events
    log := .closed fd :: s.log }

/-- `exec_command` in place on the buffer, then the log line. -/
def exec (s : State σ) (fd : Int) (bytes : List UInt8) (events : List Ready) : State σ :=
  let request := ofBuffer bytes
  let (response, device) := (execCommand api request).run s.device
  { s with
    running := s.running && !raisesSigterm request
    device
    pc := .sending fd response events
    log := .logged fd (copySingleLine bufferSize (request.take (bufferSize - 1)))
        (copySingleLine bufferSize response) ::
      .executed fd (commandParse request) :: s.log }

def step (s : State σ) : Action → Option (State σ)
  | .poll => if s.pc = .polling ∧ s.running then some { s with pc := .waiting } else none
  | .epollWait events =>
    match s.pc, events with
    | .waiting, some events => some { s with pc := resume events }
    | .waiting, none => some { s with pc := .exited }
    | _, _ => none
  | .leave => if s.pc = .polling ∧ s.running = false then some { s with pc := .left } else none
  | .accept client registered =>
    match s.pc with
    | .handling (e :: events) =>
      if e.fd = serverFd then
        match client with
        | none => some { s with pc := .exited }
        | some fd =>
          if registered then
            some { s with
              epollFds := fd :: s.epollFds
              clientFds := addClient s.clientFds fd
              pc := resume events
              log := .accepted fd :: s.log }
          else some { s with pc := resume events }
      else none
    | _ => none
  | .recv result =>
    match s.pc with
    | .handling (e :: events) =>
      if e.fd ≠ serverFd ∧ e.epollin then
        match result with
        | .error | .closed => some (drop s e.fd events)
        | .data bytes =>
          if bytes ≠ [] ∧ bytes.length ≤ bufferSize - 1 then
            some { s with
              pc := .executing e.fd bytes events
              log := .received e.fd bytes :: s.log }
          else none
      else none
    | _ => none
  | .skip =>
    match s.pc with
    | .handling (e :: events) =>
      if e.fd ≠ serverFd ∧ e.epollin = false then some { s with pc := resume events } else none
    | _ => none
  | .exec =>
    match s.pc with
    | .executing fd bytes events => some (exec api s fd bytes events)
    | _ => none
  | .send result =>
    match s.pc with
    | .sending fd response events =>
      -- send_message looks the descriptor up in the table and is silent when it is not there
      if fd ≠ -1 ∧ fd ∈ s.clientFds then
        some { s with
          pc := if result = .sigpipe then .killed else resume events
          log := .sent fd response :: s.log }
      else some { s with pc := resume events }
    | _ => none
  | .sigterm =>
    match s.pc with
    | .left | .exited | .killed => none
    | _ => some { s with running := false }

/-! ## What a step does -/

def Pc.client : Pc → Option Int
  | .executing fd _ _ | .sending fd _ _ => some fd
  | _ => none

@[simp] theorem resume_client (events : List Ready) : (resume events).client = none := by
  unfold resume
  split <;> rfl

theorem exec_client (s : State σ) (fd : Int) (bytes : List UInt8) (events : List Ready) :
    (exec api s fd bytes events).pc.client = some fd := rfl

inductive Branch (s : State σ) : Action → State σ → Prop
  | poll (hpc : s.pc = .polling) : Branch s .poll { s with pc := .waiting }
  | ready (events : List Ready) (hpc : s.pc = .waiting) :
      Branch s (.epollWait (some events)) { s with pc := resume events }
  | waitFailed (hpc : s.pc = .waiting) : Branch s (.epollWait none) { s with pc := .exited }
  | leave (hpc : s.pc = .polling) (hrunning : s.running = false) :
      Branch s .leave { s with pc := .left }
  | acceptFailed (registered : Bool) (e : Ready) (events : List Ready)
      (hpc : s.pc = .handling (e :: events)) :
      Branch s (.accept none registered) { s with pc := .exited }
  | refused (fd : Int) (e : Ready) (events : List Ready) (hpc : s.pc = .handling (e :: events)) :
      Branch s (.accept (some fd) false) { s with pc := resume events }
  | accepted (fd : Int) (e : Ready) (events : List Ready) (hpc : s.pc = .handling (e :: events)) :
      Branch s (.accept (some fd) true) { s with
        epollFds := fd :: s.epollFds
        clientFds := addClient s.clientFds fd
        pc := resume events
        log := .accepted fd :: s.log }
  | dropped (result : Recv) (e : Ready) (events : List Ready)
      (hpc : s.pc = .handling (e :: events)) (hfd : e.fd ≠ serverFd) :
      Branch s (.recv result) (drop s e.fd events)
  | received (bytes : List UInt8) (e : Ready) (events : List Ready)
      (hpc : s.pc = .handling (e :: events)) (hfd : e.fd ≠ serverFd) :
      Branch s (.recv (.data bytes)) { s with
        pc := .executing e.fd bytes events
        log := .received e.fd bytes :: s.log }
  | skipped (e : Ready) (events : List Ready) (hpc : s.pc = .handling (e :: events)) :
      Branch s .skip { s with pc := resume events }
  | executed (fd : Int) (bytes : List UInt8) (events : List Ready)
      (hpc : s.pc = .executing fd bytes events) : Branch s .exec (exec api s fd bytes events)
  | sent (result : Send) (fd : Int) (response : CText) (events : List Ready)
      (hpc : s.pc = .sending fd response events) (hfd : fd ≠ -1 ∧ fd ∈ s.clientFds) :
      Branch s (.send result) { s with
        pc := if result = .sigpipe then .killed else resume events
        log := .sent fd response :: s.log }
  | unsent (result : Send) (fd : Int) (response : CText) (events : List Ready)
      (hpc : s.pc = .sending fd response events) (hfd : ¬ (fd ≠ -1 ∧ fd ∈ s.clientFds)) :
      Branch s (.send result) { s with pc := resume events }
  | sigterm (hpc : s.pc ≠ .left ∧ s.pc ≠ .exited ∧ s.pc ≠ .killed) :
      Branch s .sigterm { s with running := false }

inductive Effect (s t : State σ) : Prop
  | quiet (hpc : t.pc = s.pc ∨ s.pc.client = none ∧ t.pc.client = none) (hlog : t.log = s.log)
      (hfds : t.clientFds = s.clientFds) (hdevice : t.device = s.device)
  | accepted (fd : Int) (hpc : s.pc.client = none ∧ t.pc.client = none)
      (hlog : t.log = .accepted fd :: s.log) (hfds : t.clientFds = addClient s.clientFds fd)
      (hdevice : t.device = s.device)
  | closed (fd : Int) (hpc : s.pc.client = none ∧ t.pc.client = none)
      (hlog : t.log = .closed fd :: s.log) (hfds : t.clientFds = removeClient s.clientFds fd)
      (hdevice : t.device = s.device)
  | received (fd : Int) (bytes : List UInt8) (events : List Ready) (hpc : s.pc.client = none)
      (hpc' : t.pc = .executing fd bytes events) (hlog : t.log = .received fd bytes :: s.log)
      (hfds : t.clientFds = s.clientFds) (hdevice : t.device = s.device)
  | executed (fd : Int) (bytes : List UInt8) (events : List Ready)
      (hpc : s.pc = .executing fd bytes events) (ht : t = exec api s fd bytes events)
  | sent (fd : Int) (response : CText) (events : List Ready)
      (hpc : s.pc = .sending fd response events) (hpc' : t.pc.client = none)
      (hlog : t.log = if fd ≠ -1 ∧ fd ∈ s.clientFds then .sent fd response :: s.log else s.log)
      (hfds : t.clientFds = s.clientFds) (hdevice : t.device = s.device)

variable {api serverFd} {s t : State σ} {a : Action}

theorem step_branch (h : step api serverFd s a = some t) : Branch api serverFd s a t := by
  cases a with
  | poll =>
    simp only [step, Option.ite_none_right_eq_some] at h
    obtain ⟨⟨hpc, -⟩, h⟩ := h
    cases h
    exact .poll hpc
  | epollWait events =>
    simp only [step] at h
    split at h <;> cases h
    · exact .ready _ ‹_›
    · exact .waitFailed ‹_›
  | leave =>
    simp only [step, Option.ite_none_right_eq_some] at h
    obtain ⟨⟨hpc, hrunning⟩, h⟩ := h
    cases h
    exact .leave hpc hrunning
  | accept client registered =>
    simp only [step] at h
    split at h
    case h_2 => cases h
    next e events hpc =>
    split at h
    case isFalse => cases h
    cases client with
    | none =>
      cases h
      exact .acceptFailed registered e events hpc
    | some fd =>
      cases registered <;> cases h
      · exact .refused fd e events hpc
      · exact .accepted fd e events hpc
  | recv result =>
    simp only [step] at h
    split at h
    case h_2 => cases h
    next e events hpc =>
    split at h
    case isFalse => cases h
    next hfd =>
    cases result with
    | error | closed =>
      cases h
      exact .dropped _ e events hpc hfd.1
    | data bytes =>
      simp only [Option.ite_none_right_eq_some] at h
      cases h.2
      exact .received bytes e events hpc hfd.1
  | skip =>
    simp only [step] at h
    split at h
    case h_2 => cases h
    next e events hpc =>
    simp only [Option.ite_none_right_eq_some] at h
    cases h.2
    exact .skipped e events hpc
  | exec =>
    simp only [step] at h
    split at h <;> cases h
    exact .executed _ _ _ ‹_›
  | send result =>
    simp only [step] at h
    split at h
    case h_2 => cases h
    next fd response events hpc =>
    split at h <;> cases h
    · exact .sent result fd response events hpc ‹_›
    · exact .unsent result fd response events hpc ‹_›
  | sigterm =>
    simp only [step] at h
    split at h <;> cases h
    exact .sigterm ⟨‹_›, ‹_›, ‹_›⟩

theorem step_effect (h : step api serverFd s a = some t) : Effect api s t := by
  have hpending : ∀ {pc : Pc}, s.pc = pc → pc.client = none → s.pc.client = none :=
    fun hpc hclient => (congrArg Pc.client hpc).trans hclient
  cases step_branch h with
  | poll hpc | leave hpc | waitFailed hpc | acceptFailed _ _ _ hpc =>
    exact .quiet (.inr ⟨hpending hpc rfl, rfl⟩) rfl rfl rfl
  | ready events hpc | refused _ _ events hpc | skipped _ events hpc =>
    exact .quiet (.inr ⟨hpending hpc rfl, resume_client events⟩) rfl rfl rfl
  | accepted fd e events hpc =>
    exact .accepted fd ⟨hpending hpc rfl, resume_client events⟩ rfl rfl rfl
  | dropped result e events hpc =>
    exact .closed e.fd ⟨hpending hpc rfl, resume_client events⟩ rfl rfl rfl
  | received bytes e events hpc =>
    exact .received e.fd bytes events (hpending hpc rfl) rfl rfl rfl rfl
  | executed fd bytes events hpc => exact .executed fd bytes events hpc rfl
  | sent result fd response events hpc hfd =>
    -- killed by the signal or not, nothing is left to be answered
    refine .sent fd response events hpc ?_ (if_pos hfd).symm rfl rfl
    cases result with
    | sigpipe => rfl
    | sent | failed => exact resume_client events
  | unsent result fd response events hpc hfd =>
    exact .sent fd response events hpc (resume_client events) (if_neg hfd).symm rfl rfl
  | sigterm => exact .quiet (.inl rfl) rfl rfl rfl

end RemoteDevice.Server
