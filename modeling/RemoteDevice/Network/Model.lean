import Mathlib.Logic.Function.Basic
import RemoteDevice.Client.Commands
import RemoteDevice.Server.Replies

/-! Any number of clients and the server on a network: a connection carries a stream of bytes each way,
and what is read from a stream are some of the bytes at its head. The server accepts every client, but
has a place in its table for `MAX_CLIENTS` of them only. -/

namespace RemoteDevice.Network
open CText

inductive Port
  | unused
  | waiting
  | accepted (fd : Int)
  | closed
  deriving DecidableEq

/-- The streams hold what is on its way. `chunks` is what the server has read from the connection and
`replies` what it has written to it, oldest first. -/
structure Connection where
  client : Client.State := {}
  port : Port := .unused
  toServer : List UInt8 := []
  toClient : List UInt8 := []
  chunks : List (List UInt8) := []
  replies : List CText := []
  deriving DecidableEq

structure State (σ : Type) where
  server : Server.State σ
  connection : Nat → Connection := fun _ => {}

variable {σ : Type}

def State.set (s : State σ) (i : Nat) (c : Connection) : State σ :=
  { s with connection := Function.update s.connection i c }

def Connection.gone (c : Connection) : Bool := c.client.pc = .left || c.client.pc = .exited

inductive Action
  | connect (i : Nat)
  | client (i : Nat) (a : Client.Action)
  | accept (i : Nat) (fd : Int)
  | recv (i : Nat) (result : Server.Recv)
  | send (i : Nat) (result : Server.Send)
  | server (a : Server.Action)
  deriving DecidableEq

def isLocal : Server.Action → Bool
  | .accept (some _) _ | .recv _ | .send _ => false
  | _ => true

def clientStep (c : Connection) (a : Client.Action) : Option Connection :=
  (Client.step c.client a).bind fun client =>
    match a with
    | .recv (.data bytes) =>
      if bytes <+: c.toClient then some { c with client, toClient := c.toClient.drop bytes.length }
      else none
    | .send true => some { c with client, toServer := c.toServer ++ client.sent.headD [] }
    | _ => some { c with client }

variable (api : DeviceApi σ) (serverFd : Int)

/-- The kernel is as in `Server.kernelOk`, and only a client that has gone makes a `send` fail. A client
that is not in the table of the server is sent nothing. -/
def step (s : State σ) : Action → Option (State σ)
  | .connect i =>
    if (s.connection i).port = .unused then some (s.set i { s.connection i with port := .waiting })
    else none
  | .client i a =>
    if (s.connection i).port = .unused then none else (clientStep (s.connection i) a).map (s.set i)
  | .accept i fd =>
    if (s.connection i).port = .waiting ∧
        Server.kernelOk serverFd s.server (.accept (some fd) true) = true then
      (Server.step api serverFd s.server (.accept (some fd) true)).map fun server =>
        { s with server }.set i { s.connection i with port := .accepted fd }
    else none
  | .recv i result =>
    match s.server.pc with
    | .handling (e :: _) =>
      if (s.connection i).port = .accepted e.fd then
        (Server.step api serverFd s.server (.recv result)).bind fun server =>
          match result with
          | .data bytes =>
            if bytes <+: (s.connection i).toServer then
              some ({ s with server }.set i { s.connection i with
                toServer := (s.connection i).toServer.drop bytes.length
                chunks := (s.connection i).chunks ++ [bytes] })
            else none
          | .error | .closed => some ({ s with server }.set i { s.connection i with port := .closed })
      else none
    | _ => none
  | .send i result =>
    match s.server.pc with
    | .sending fd response _ =>
      if (s.connection i).port = .accepted fd ∧ (result = .sent ∨ (s.connection i).gone) then
        (Server.step api serverFd s.server (.send result)).map fun server =>
          if fd ∈ s.server.clientFds then
            { s with server }.set i { s.connection i with
              toClient := (s.connection i).toClient ++ response
              replies := (s.connection i).replies ++ [response] }
          else { s with server }
      else none
    | _ => none
  | .server a =>
    if isLocal a ∧ Server.kernelOk serverFd s.server a = true then
      (Server.step api serverFd s.server a).map fun server => { s with server }
    else none

def hasRoom (s : State σ) : Action → Bool
  | .accept _ fd => Server.hasRoom s.server (.accept (some fd) true)
  | _ => true

/-- The runs with at most `MAX_CLIENTS` accepted clients at a time. -/
abbrev Uncrowded (d : σ) : State σ → Prop :=
  Runs.Reachable (· = { server := { device := d } })
    (Runs.guarded (fun s a => hasRoom s a = true) (step api serverFd))

/-! ## What a step does -/

inductive Effect (s : State σ) : Action → State σ → Prop
  | connect (i : Nat) (hport : (s.connection i).port = .unused) :
      Effect s (.connect i) (s.set i { s.connection i with port := .waiting })
  | client (i : Nat) (a : Client.Action) (c : Connection) (hc : clientStep (s.connection i) a = some c) :
      Effect s (.client i a) (s.set i c)
  | accept (i : Nat) (fd : Int) (server : Server.State σ) (hport : (s.connection i).port = .waiting)
      (hkernel : Server.kernelOk serverFd s.server (.accept (some fd) true) = true)
      (hserver : Server.step api serverFd s.server (.accept (some fd) true) = some server) :
      Effect s (.accept i fd) ({ s with server }.set i { s.connection i with port := .accepted fd })
  | recv (i : Nat) (e : Server.Ready) (events : List Server.Ready) (bytes : List UInt8)
      (server : Server.State σ) (hpc : s.server.pc = .handling (e :: events))
      (hport : (s.connection i).port = .accepted e.fd)
      (hserver : Server.step api serverFd s.server (.recv (.data bytes)) = some server)
      (hbytes : bytes <+: (s.connection i).toServer) :
      Effect s (.recv i (.data bytes)) ({ s with server }.set i { s.connection i with
        toServer := (s.connection i).toServer.drop bytes.length
        chunks := (s.connection i).chunks ++ [bytes] })
  | hangup (i : Nat) (e : Server.Ready) (events : List Server.Ready) (result : Server.Recv)
      (server : Server.State σ) (hpc : s.server.pc = .handling (e :: events))
      (hport : (s.connection i).port = .accepted e.fd) (hresult : ∀ bytes, result ≠ .data bytes)
      (hserver : Server.step api serverFd s.server (.recv result) = some server) :
      Effect s (.recv i result) ({ s with server }.set i { s.connection i with port := .closed })
  | send (i : Nat) (fd : Int) (response : CText) (events : List Server.Ready) (result : Server.Send)
      (server : Server.State σ) (hpc : s.server.pc = .sending fd response events)
      (hport : (s.connection i).port = .accepted fd) (hfd : fd ∈ s.server.clientFds)
      (hserver : Server.step api serverFd s.server (.send result) = some server) :
      Effect s (.send i result) ({ s with server }.set i { s.connection i with
        toClient := (s.connection i).toClient ++ response
        replies := (s.connection i).replies ++ [response] })
  | unsent (i : Nat) (fd : Int) (response : CText) (events : List Server.Ready) (result : Server.Send)
      (server : Server.State σ) (hpc : s.server.pc = .sending fd response events)
      (hfd : fd ∉ s.server.clientFds) : Effect s (.send i result) { s with server }
  | server (a : Server.Action) (server : Server.State σ) (hlocal : isLocal a = true)
      (hkernel : Server.kernelOk serverFd s.server a = true)
      (hserver : Server.step api serverFd s.server a = some server) :
      Effect s (.server a) { s with server }

variable {api serverFd} {s t : State σ}

theorem step_effect {a : Action} (h : step api serverFd s a = some t) : Effect api serverFd s a t := by
  cases a with
  | connect i =>
    obtain ⟨hport, h⟩ := Option.ite_none_right_eq_some.mp h
    cases h
    exact .connect i hport
  | client i a =>
    obtain ⟨-, h⟩ := Option.ite_none_left_eq_some.mp h
    obtain ⟨c, hc, rfl⟩ := Option.map_eq_some_iff.mp h
    exact .client i a c hc
  | accept i fd =>
    obtain ⟨⟨hport, hkernel⟩, h⟩ := Option.ite_none_right_eq_some.mp h
    obtain ⟨server, hserver, rfl⟩ := Option.map_eq_some_iff.mp h
    exact .accept i fd server hport hkernel hserver
  | recv i result =>
    simp only [step] at h
    split at h
    case h_2 => cases h
    next e events hpc =>
    obtain ⟨hport, h⟩ := Option.ite_none_right_eq_some.mp h
    obtain ⟨server, hserver, h⟩ := Option.bind_eq_some_iff.mp h
    cases result with
    | error | closed =>
      cases h
      exact .hangup i e events _ server hpc hport (fun _ heq => by cases heq) hserver
    | data bytes =>
      obtain ⟨hbytes, h⟩ := Option.ite_none_right_eq_some.mp h
      cases h
      exact .recv i e events bytes server hpc hport hserver hbytes
  | send i result =>
    simp only [step] at h
    split at h
    case h_2 => cases h
    next fd response events hpc =>
    obtain ⟨⟨hport, -⟩, h⟩ := Option.ite_none_right_eq_some.mp h
    obtain ⟨server, hserver, rfl⟩ := Option.map_eq_some_iff.mp h
    split
    · next hfd => exact .send i fd response events result server hpc hport hfd hserver
    · next hfd => exact .unsent i fd response events result server hpc hfd
  | server a =>
    obtain ⟨⟨hlocal, hkernel⟩, h⟩ := Option.ite_none_right_eq_some.mp h
    obtain ⟨server, hserver, rfl⟩ := Option.map_eq_some_iff.mp h
    exact .server a server hlocal hkernel hserver

theorem set_connection (s : State σ) (i j : Nat) (c : Connection) :
    (s.set i c).connection j = if j = i then c else s.connection j := Function.update_apply ..

theorem set_same (s : State σ) (i : Nat) (c : Connection) : (s.set i c).connection i = c :=
  Function.update_self ..

theorem forall_set {P : Connection → Prop} {i : Nat} {c : Connection} (h : ∀ j, P (s.connection j))
    (hc : P c) : ∀ j, P ((s.set i c).connection j) := by
  intro j
  rw [set_connection]
  split
  · exact hc
  · exact h j

end RemoteDevice.Network
