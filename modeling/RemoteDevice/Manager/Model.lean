import RemoteDevice.Buzzer.Plugin
import RemoteDevice.Segment.Model
import RemoteDevice.Worker.Model

/-! The device manager with all its threads: the event-loop thread in the `device_*` functions and
in `device_cleanup`, the segment thread in `segment_refresh_loop` and in its call of
`device_buzzer_beep`, and the three worker threads, the buzzer worker inside the plugin function
that its task runs. -/

namespace RemoteDevice.Manager
open Function (update)
open Worker (TaskId CancelId SubmitArgs DeviceTask)
open Buzzer (Output RunPc RunEvent Reading stopOutput)

inductive PluginId
  | led
  | buzzer
  | light
  | segment
  deriving DecidableEq

inductive WorkerId
  | led
  | buzzer
  | light
  deriving DecidableEq

def WorkerId.plugin : WorkerId → PluginId
  | led => .led
  | buzzer => .buzzer
  | light => .light

inductive TaskFn
  | ledOn
  | ledOnBright
  | ledOff
  | buzzerMusic
  | buzzerOn
  | buzzerBeep
  | lightRead
  deriving DecidableEq

inductive Cleanup
  | freeContext
  deriving DecidableEq

/-- An `IntTaskContext`, a copied path, or the caller's `int` for the light value. -/
inductive Context
  | int (value : Int)
  | path (filePath : CText)
  | lightValue
  deriving DecidableEq

abbrev WorkerState := Worker.State TaskFn Cleanup Context
abbrev WorkerAction := Worker.Action TaskFn Cleanup Context
abbrev Args := SubmitArgs TaskFn Cleanup Context

inductive Job
  | ledOn
  | ledOnBright (brightness : Int)
  | ledOff
  | buzzerMusic (filePath : CText)
  | buzzerOn
  | buzzerBeep (durationMs : Int)
  | lightRead
  deriving DecidableEq

def Job.worker : Job → WorkerId
  | ledOn | ledOnBright _ | ledOff => .led
  | buzzerMusic _ | buzzerOn | buzzerBeep _ => .buzzer
  | lightRead => .light

def Job.args : Job → Args
  | ledOn => ⟨some .ledOn, none, none, true⟩
  | ledOnBright brightness =>
    ⟨some .ledOnBright, some .freeContext, some (.int brightness), true⟩
  | ledOff => ⟨some .ledOff, none, none, true⟩
  | buzzerMusic filePath => ⟨some .buzzerMusic, some .freeContext, some (.path filePath), false⟩
  | buzzerOn => ⟨some .buzzerOn, none, none, true⟩
  | buzzerBeep durationMs => ⟨some .buzzerBeep, some .freeContext, some (.int durationMs), false⟩
  | lightRead => ⟨some .lightRead, none, some .lightValue, true⟩

def Job.inRange : Job → Bool
  | ledOnBright brightness => 0 ≤ brightness && brightness ≤ 255
  | buzzerMusic filePath => filePath ≠ []
  | buzzerBeep durationMs => 0 < durationMs && durationMs ≤ 10000
  | _ => true

def Job.allocates (j : Job) : Bool := j.args.cleanup.isSome

inductive Request
  | submit (j : Job)
  | buzzerOff
  | segmentDisplay (value : Int)
  | segmentClear
  | getStatus
  | cleanup
  deriving DecidableEq

/-- The plugin functions that the event-loop thread calls itself, apart from the cleanups. -/
inductive PluginFn
  | off
  | isOn
  | getLastValue
  deriving DecidableEq

/-- Where `device_cleanup` stands: in `stop_segment_thread`, before or inside the
`device_worker_stop` of a worker, at the stop of the buzzer, at the cleanup of a plugin or at
`plugin_registry_close`. -/
inductive Stage
  | stopSegment
  | joinSegment
  | stop (w : WorkerId)
  | stopping (w : WorkerId)
  | offBuzzer
  | cancelBuzzer
  | cancelling (k : CancelId)
  | cleanup (p : PluginId)
  | close
  deriving DecidableEq

/-- Where the event-loop thread stands; `reading` are the plugin calls of `device_get_status`. -/
inductive MainPc
  | idle
  | called (r : Request)
  | submitting (j : Job) (c : TaskId)
  | cancelling (k : CancelId)
  | off
  | segmentClearing
  | reading (rest : List (PluginId × PluginFn))
  | cleanup (stage : Stage)
  deriving DecidableEq

inductive BeeperPc
  | idle
  | checked
  | submitting (c : TaskId)
  deriving DecidableEq

inductive Entry
  | called (r : Request)
  | returned (r : Request) (result : Int)
  | worker (w : WorkerId) (e : Worker.Event)
  | run (c : TaskId) (e : RunEvent)
  | segment (e : Segment.Event)
  | plugin (p : PluginId) (f : PluginFn)
  | pluginCleanup (p : PluginId)
  | close
  deriving DecidableEq

structure State where
  initialized : Bool
  main : MainPc
  beeper : BeeperPc
  seg : Segment.State
  worker : WorkerId → WorkerState
  /-- The buzzer plugin function that the running task of the buzzer worker is in. -/
  tune : Option RunPc
  output : Output
  /-- The number of the next call of a worker. -/
  calls : Nat
  /-- Newest entry first. -/
  log : List Entry

def deviceInit : State where
  initialized := true
  main := .idle
  beeper := .idle
  seg := Segment.startSegmentThread
  worker := fun _ => Worker.deviceWorkerStart _ _ _
  tune := none
  output := Buzzer.buzzerInit
  calls := 0
  log := []

def State.note (s : State) (e : Entry) : State := { s with log := e :: s.log }

def State.goto (s : State) (pc : MainPc) : State := { s with main := pc }

def State.setBeeper (s : State) (pc : BeeperPc) : State := { s with beeper := pc }

def State.answer (s : State) (r : Request) (result : Int) : State :=
  (s.note (.returned r result)).goto .idle

/-! ## Steps of the components -/

def newEvents {α : Type} (old new : List α) : List α := new.take (new.length - old.length)

def enterPlugin (task : DeviceTask TaskFn Cleanup Context) : Option RunPc :=
  match task.run, task.context with
  | some .buzzerMusic, some (.path filePath) => some (Buzzer.buzzerMusic filePath)
  | some .buzzerBeep, some (.int durationMs) => some (Buzzer.buzzerBeep durationMs)
  | some .buzzerOn, _ => some Buzzer.buzzerOn
  | _, _ => none

def nextTune (tune : Option RunPc) (x : WorkerState) : WorkerAction → Option RunPc
  | .loop =>
    match x.loop with
    | .taken t => enterPlugin (x.heap t)
    | _ => tune
  | .runReturn _ => none
  | _ => tune

def State.setWorker (s : State) (w : WorkerId) (a : WorkerAction) (x : WorkerState) : State :=
  { s with
    worker := update s.worker w x
    tune := if w = .buzzer then nextTune s.tune (s.worker w) a else s.tune
    log := (newEvents (s.worker w).log x.log).map (.worker w) ++ s.log }

def workerStep (s : State) (w : WorkerId) (a : WorkerAction) : Option State :=
  (Worker.step (s.worker w) a).map (s.setWorker w a)

def State.setSegment (s : State) (x : Segment.State) : State :=
  { s with seg := x, log := (newEvents s.seg.log x.log).map .segment ++ s.log }

def segmentStep (s : State) (a : Segment.Action) : Option State :=
  (Segment.step s.seg a).map s.setSegment

def State.setTune (s : State) (c : TaskId) (r : Output × RunPc × List RunEvent) : State :=
  { s with
    output := r.1
    tune := some r.2.1
    log := (r.2.2.map (.run c)).reverse ++ s.log }

def tuneStep (s : State) (x : Reading) : Option State :=
  match s.tune, (s.worker .buzzer).loop with
  | some pc, .running c => (Buzzer.runStep s.output pc x).map (s.setTune c)
  | _, _ => none

def State.buzzerOff (s : State) : State :=
  { s.note (.plugin .buzzer .off) with output := stopOutput s.output true }

def State.count (s : State) : State := { s with calls := s.calls + 1 }

def submitCall (s : State) (j : Job) : Option State :=
  (workerStep s j.worker (.submitCall s.calls j.args)).map State.count

def cancelCall (s : State) : Option State :=
  (workerStep s .buzzer (.cancelCall s.calls DeviceResult.cancelled)).map State.count

/-! ## The event-loop thread -/

/-- What a `device_*` function does up to its first call that can wait. -/
def enterRequest (s : State) (r : Request) (mallocOk : Bool) : Option State :=
  if !s.initialized then some (s.answer r DeviceResult.notInitialized)
  else match r with
  | .submit j =>
    if !j.inRange then some (s.answer r DeviceResult.invalidValue)
    else if j.allocates && !mallocOk then some (s.answer r DeviceResult.deviceFailed)
    else (submitCall s j).map (·.goto (.submitting j s.calls))
  | .buzzerOff => (cancelCall s).map (·.goto (.cancelling s.calls))
  | .segmentDisplay v =>
    (segmentStep s (.displayCall v)).map (·.answer r (Segment.deviceSegmentDisplay s.seg v).2)
  | .segmentClear => (segmentStep s .clearCall).map (·.goto .segmentClearing)
  | .getStatus =>
    some (s.goto (.reading [(.led, .isOn), (.buzzer, .isOn), (.light, .getLastValue)]))
  | .cleanup => some ({ s with initialized := false }.goto (.cleanup .stopSegment))

def WorkerId.afterStop : WorkerId → Stage
  | light => .offBuzzer
  | buzzer => .stop .led
  | led => .cleanup .segment

def PluginId.afterCleanup : PluginId → Stage
  | segment => .cleanup .light
  | light => .cleanup .buzzer
  | buzzer => .cleanup .led
  | led => .close

/-- `buzzer_cleanup` stops the output; the other cleanup functions do not touch it. -/
def State.pluginCleanup (s : State) (p : PluginId) : State :=
  { s.note (.pluginCleanup p) with
    output := if p = .buzzer then stopOutput s.output true else s.output }

def cleanupStep (s : State) : Stage → Option State
  | .stopSegment => (segmentStep s .stopCall).map (·.goto (.cleanup .joinSegment))
  | .joinSegment =>
    if s.seg.caller = .stopped then some (s.goto (.cleanup (.stop .light))) else segmentStep s .join
  | .stop w => (workerStep s w .stopCall).map (·.goto (.cleanup (.stopping w)))
  | .stopping w =>
    if (s.worker w).stop = .returned then some (s.goto (.cleanup w.afterStop)) else none
  | .offBuzzer => some (s.buzzerOff.goto (.cleanup .cancelBuzzer))
  | .cancelBuzzer => (cancelCall s).map (·.goto (.cleanup (.cancelling s.calls)))
  | .cancelling k =>
    if (s.worker .buzzer).cancels k = .returned then some (s.goto (.cleanup (.stop .buzzer)))
    else none
  | .cleanup p => some ((s.pluginCleanup p).goto (.cleanup p.afterCleanup))
  | .close => some ((s.note .close).answer .cleanup DeviceResult.ok)

def mainStep (s : State) (mallocOk : Bool) : Option State :=
  match s.main with
  | .idle => none
  | .called r => enterRequest s r mallocOk
  | .submitting j c =>
    match (s.worker j.worker).submits c with
    | .returned result => some (s.answer (.submit j) result)
    | _ => none
  | .cancelling k =>
    if (s.worker .buzzer).cancels k = .returned then some (s.goto .off) else none
  | .off => some (s.buzzerOff.answer .buzzerOff DeviceResult.ok)
  | .segmentClearing =>
    (segmentStep s .clearPlugin).map (·.answer .segmentClear DeviceResult.ok)
  | .reading [] => some (s.answer .getStatus DeviceResult.ok)
  | .reading ((p, f) :: rest) => some ((s.note (.plugin p f)).goto (.reading rest))
  | .cleanup stage => cleanupStep s stage

/-! ## The segment thread -/

def beeperStep (s : State) (mallocOk : Bool) : Option State :=
  if s.seg.refresh ≠ .alarm then none
  else match s.beeper with
  | .idle => if s.initialized then some (s.setBeeper .checked) else segmentStep s .refresh
  | .checked =>
    if mallocOk then (submitCall s (.buzzerBeep 200)).map (·.setBeeper (.submitting s.calls))
    else (segmentStep s .refresh).map (·.setBeeper .idle)
  | .submitting c =>
    match (s.worker .buzzer).submits c with
    | .returned _ => (segmentStep s .refresh).map (·.setBeeper .idle)
    | _ => none

/-! ## The whole system -/

inductive Action
  | request (r : Request)
  | main (mallocOk : Bool)
  | beeper (mallocOk : Bool)
  | refresh
  | worker (w : WorkerId) (a : WorkerAction)
  | tune (x : Reading)
  deriving DecidableEq

/-- Steps that the worker thread and the calls in progress make by themselves. The task of the
buzzer worker returns what the plugin function returned. -/
def ofThread (s : State) (w : WorkerId) : WorkerAction → Bool
  | .submitCall _ _ | .cancelCall _ _ | .stopCall => false
  | .runReturn r => w ≠ .buzzer || s.tune = some (.done r)
  | _ => true

def step (s : State) : Action → Option State
  | .request r =>
    if s.main = .idle then some ((s.note (.called r)).goto (.called r)) else none
  | .main mallocOk => mainStep s mallocOk
  | .beeper mallocOk => beeperStep s mallocOk
  | .refresh => if s.seg.refresh = .alarm then none else segmentStep s .refresh
  | .worker w a => if ofThread s w a then workerStep s w a else none
  | .tune x => tuneStep s x

abbrev Reachable : State → Prop := Runs.Reachable (· = deviceInit) step

end RemoteDevice.Manager
