import RemoteDevice.Command.Program
import RemoteDevice.Lamp.Plugins
import RemoteDevice.Worker.Solo

/-! The server in service: the event-loop thread executes one command after the other on the
device manager, whose LED and light workers run their plugins. The event-loop thread is in
`exec_command` between the calls of the manager and in the manager during them. -/

namespace RemoteDevice.System
open Worker (DeviceTask)
open Manager (TaskFn Cleanup Context Request WorkerId WorkerAction)
open Buzzer (Reading)

/-- Where the event-loop thread stands; `inside` a program it is in the call the program begins
with. -/
inductive ExecPc
  | idle
  | at (p : ExecProgram)
  | inside (p : ExecProgram)

def ExecPc.isIdle : ExecPc → Bool
  | .idle => true
  | _ => false

theorem ExecPc.isIdle_iff {pc : ExecPc} : pc.isIdle = true ↔ pc = .idle := by
  cases pc <;> simp [ExecPc.isIdle]

/-- A command that has been answered, and what happened meanwhile: whether an allocation, or an
initialiser in `create_task`, failed, what `digitalRead` returned, the newest first, and how many
ticks of the countdown there had been before the request and before the reply. -/
structure Exchange where
  request : CText
  reply : CText
  starved : Bool
  readings : List Int
  began : Nat
  ended : Nat
  deriving DecidableEq

structure State (π : Type) where
  manager : Manager.State
  exec : ExecPc
  request : CText
  /-- The local variables `light_value` of `exec_command` and `status` of `device_get_status`. -/
  lightValue : Int
  status : DeviceStatus
  /-- `starved` and `readings` are about the time since the request came, before which there had been
  `began` of the `ticks`. -/
  starved : Bool
  readings : List Int
  began : Nat
  ticks : Nat
  led : Led.State π
  light : Light.State
  /-- Newest exchange first. -/
  history : List Exchange

variable {π : Type} (w : Led.WiringPi π)

def startStatus (initialized : Bool) : DeviceStatus where
  initialized := initialized
  ledOn := false
  buzzerOn := false
  lightValue := if initialized then 0 else -1
  segmentEnabled := false
  segmentValue := 0

def deviceInit (pin : π) : State π where
  manager := Manager.deviceInit
  exec := .idle
  request := []
  lightValue := 0
  status := startStatus false
  starved := false
  readings := []
  began := 0
  ticks := 0
  led := (Led.ledInit w 0 ⟨false, false, pin⟩).2
  light := (Light.lightInit 0 ⟨-1⟩).2
  history := []

/-- All plugins are loaded from `device_init` on. -/
def pluginGetStatus : PluginStatus where
  ledLoaded := true
  buzzerLoaded := true
  lightLoaded := true
  segmentLoaded := true

/-! ## The plugin functions of the LED and light workers -/

def runLed (task : DeviceTask TaskFn Cleanup Context) (created : Int) (l : Led.State π) :
    Option (Int × Led.State π) :=
  match task.run, task.context with
  | some .ledOn, _ => some (Led.ledOn w l)
  | some .ledOnBright, some (.int brightness) => some (Led.ledOnBright w brightness created l)
  | some .ledOff, _ => some (Led.ledOff w l)
  | _, _ => none

def runLight (task : DeviceTask TaskFn Cleanup Context) (reading : Int) (l : Light.State) :
    Option (Int × Light.State × Int) :=
  match task.run, task.context with
  | some .lightRead, some .lightValue => some (Light.lightRead reading l)
  | _, _ => none

/-! ## Steps -/

/-- The step is a failing allocation of the call that the event-loop thread is in. -/
def starves (m : Manager.State) : Manager.Action → Bool
  | .main mallocOk =>
    match m.main with
    | .called (.submit j) => j.allocates && !mallocOk
    | _ => false
  | .worker v a =>
    match m.main with
    | .submitting j c => v = j.worker && a.starves (m.worker v) c
    | _ => false
  | _ => false

/-- The step is the section of `segment_refresh_loop` that counts down. -/
def countsDown (m : Manager.State) (a : Manager.Action) : Bool :=
  a = .refresh && m.seg.refresh = .tick

def managerStep (s : State π) (a : Manager.Action) : Option (State π) :=
  (Manager.step s.manager a).map fun m =>
    { s with
      manager := m
      starved := s.starved || starves s.manager a
      ticks := s.ticks + (countsDown s.manager a).toNat }

def observe (s : State π) : DeviceStatus :=
  match s.manager.main with
  | .called .getStatus => startStatus s.manager.initialized
  | .reading ((.led, .isOn) :: _) => { s.status with ledOn := Led.ledIsOn s.led }
  | .reading ((.buzzer, .isOn) :: _) => { s.status with buzzerOn := s.manager.output.buzzerState }
  | .reading ((.light, .getLastValue) :: _) =>
    { s.status with lightValue := Light.lightGetLastValue s.light }
  | .reading [] =>
    { s.status with segmentEnabled := s.manager.seg.enabled, segmentValue := s.manager.seg.value }
  | _ => s.status

def returnTo (lightValue : Int) (status : DeviceStatus) (result : Int) : ExecPc → ExecPc
  | .inside (.call _ next) => .at (next result)
  | .inside (.lightRead next) => .at (next result lightValue)
  | .inside (.getStatus next) => .at (next status)
  | pc => pc

def answered (m : Manager.State) : Option Int :=
  match m.main, m.log with
  | .idle, .returned _ result :: _ => some result
  | _, _ => none

def mainStep (s : State π) (mallocOk : Bool) : Option (State π) :=
  (managerStep { s with status := observe s } (.main mallocOk)).map fun t =>
    match answered t.manager with
    | some result => { t with exec := returnTo t.lightValue t.status result t.exec }
    | none => t

def State.receive (s : State π) (text : CText) : State π :=
  { s with
    exec := .at (execProgram (commandParse text))
    request := text
    starved := false
    readings := []
    began := s.ticks }

def State.reply (s : State π) (text : CText) : State π :=
  { s with
    exec := .idle
    history := ⟨s.request, text, s.starved, s.readings, s.began, s.ticks⟩ :: s.history }

def execStep (s : State π) : Option (State π) :=
  match s.exec with
  | .idle | .inside _ => none
  | .at (.reply text) => some (s.reply text)
  | .at (.pluginStatus next) => some { s with exec := .at (next pluginGetStatus) }
  -- a call of the manager: from here on the request is the manager's
  | .at p =>
    p.request.bind fun r =>
      (managerStep s (.request r)).map fun t => { t with exec := .inside p }

/-- The task of the LED worker runs; `created` is what `softPwmCreate` returns. -/
def ledStep (s : State π) (created : Int) : Option (State π) :=
  match (s.manager.worker .led).loop with
  | .running c =>
    (runLed w ((s.manager.worker .led).heap c) created s.led).bind fun (r, led) =>
      (managerStep s (.worker .led (.runReturn r))).map fun t => { t with led := led }
  | _ => none

/-- The task of the light worker runs; `reading` is what `digitalRead` returns, 0 or 1. -/
def lightStep (s : State π) (reading : Int) : Option (State π) :=
  match (s.manager.worker .light).loop with
  | .running c =>
    if reading = 0 ∨ reading = 1 then
      (runLight ((s.manager.worker .light).heap c) reading s.light).bind fun (r, light, lightValue) =>
        (managerStep s (.worker .light (.runReturn r))).map fun t =>
          { t with light := light, lightValue := lightValue, readings := reading :: t.readings }
    else none
  | _ => none

def pluginReturns : WorkerId → WorkerAction → Bool
  -- the buzzer plugin runs inside the manager model
  | .led, .runReturn _ | .light, .runReturn _ => true
  | _, _ => false

inductive Action
  | request (text : CText)
  | exec
  | main (mallocOk : Bool)
  | beeper (mallocOk : Bool)
  | refresh
  | worker (v : WorkerId) (a : WorkerAction)
  | tune (x : Reading)
  | led (created : Int)
  | light (reading : Int)
  deriving DecidableEq

def step (s : State π) : Action → Option (State π)
  | .request text =>
    match s.exec with
    | .idle => some (s.receive text)
    | _ => none
  | .exec => execStep s
  | .main mallocOk => mainStep s mallocOk
  | .beeper mallocOk => managerStep s (.beeper mallocOk)
  | .refresh => managerStep s .refresh
  | .worker v a => if pluginReturns v a then none else managerStep s (.worker v a)
  | .tune x => managerStep s (.tune x)
  | .led created => ledStep w s created
  | .light reading => lightStep s reading

/-- Initially no PWM runs on the LED pin. -/
abbrev Reachable : State π → Prop :=
  Runs.Reachable (fun s => ∃ pin, w.duty pin = none ∧ s = deviceInit w pin) (step w)

end RemoteDevice.System
