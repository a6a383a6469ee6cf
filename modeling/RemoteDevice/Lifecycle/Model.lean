import RemoteDevice.Lib.Attempt
import RemoteDevice.Manager.Model

/-! `device_init` and `device_cleanup` with the plugin registry, the plugin loader and the start
and stop of the threads under them. Each call of the system or of a plugin that can fail has an
outcome of its own. -/

namespace RemoteDevice.Lifecycle
open Function (update)
open Manager (PluginId WorkerId)
open Attempt (andThen inOrder within)

structure Outcomes where
  /-- `PLUGIN_LIB_DIR`, `DEVICE_LIB_DIR` and the result of `get_executable_dir`. -/
  pluginBaseDir : Option String
  legacyBaseDir : Option String
  exeDir : Option String
  /-- The handle of a plugin at the `i`-th attempt, which is with this path. -/
  dlopen : PluginId → Nat → String → Option Nat
  dlsym : PluginId → String → Bool
  init : PluginId → Int
  mutexInit : WorkerId → Bool
  condInit : WorkerId → Bool
  workerThread : WorkerId → Bool
  segmentThread : Bool

/-! ## The plugin loader -/

def tryOpenFromBaseDir (baseDir : Option String) (name : String) : List String :=
  match baseDir with
  | none => []
  | some dir =>
    if dir = "" then []
    else [dir ++ "/lib" ++ name ++ ".so", dir ++ "/" ++ name ++ "/lib" ++ name ++ ".so"]

def searchPaths (o : Outcomes) (name : String) : List String :=
  tryOpenFromBaseDir o.pluginBaseDir name ++ tryOpenFromBaseDir o.legacyBaseDir name ++
    (match o.exeDir with
    | none => []
    | some dir =>
      [dir ++ "/lib" ++ name ++ ".so", dir ++ "/device/" ++ name ++ "/lib" ++ name ++ ".so"]) ++
    ["./lib" ++ name ++ ".so", "./device/" ++ name ++ "/lib" ++ name ++ ".so",
      "lib" ++ name ++ ".so"]

def pluginLoaderOpen (o : Outcomes) (p : PluginId) (name : String) : Option Nat :=
  if name = "" then none
  else (searchPaths o name).zipIdx.findSome? fun x => o.dlopen p x.2 x.1

structure Plugin where
  handle : Option Nat
  symbols : List String

/-- What happens to a plugin; `off` is the call of `buzzer.off` in `stop_device_workers`. -/
inductive Note
  | opened (handle : Nat)
  | init (result : Int)
  | off
  | cleanup
  | closed (handle : Nat)
  deriving DecidableEq

/-- A `DeviceWorker` and how many locks, condition variables and threads exist for it. -/
structure DeviceWorker where
  name : String
  running : Bool
  started : Bool
  locks : Nat
  conds : Nat
  threads : Nat

structure SegmentThread where
  started : Bool
  running : Bool
  countdownEnabled : Bool
  countdownValue : Int
  threads : Nat

structure State where
  initialized : Bool
  plugins : PluginId → Plugin
  worker : WorkerId → DeviceWorker
  segment : SegmentThread
  /-- Oldest entry first. -/
  log : List (PluginId × Note)

def start : State where
  initialized := false
  plugins := fun _ => ⟨none, []⟩
  worker := fun _ => ⟨"", false, false, 0, 0, 0⟩
  segment := ⟨false, false, false, 0, 0⟩
  log := []

abbrev Op := State → Int × State

def ok : Int := DeviceResult.ok

def State.note (s : State) (p : PluginId) (e : Note) : State := { s with log := s.log ++ [(p, e)] }

def State.setPlugin (s : State) (p : PluginId) (x : Plugin) : State :=
  { s with plugins := update s.plugins p x }

/-! ## The plugin registry -/

def openPlugin (o : Outcomes) (p : PluginId) (name : String) : Op := fun s =>
  match pluginLoaderOpen o p name with
  | none => (DeviceResult.pluginLoadFailed, s.setPlugin p { s.plugins p with handle := none })
  | some h => (ok, (s.setPlugin p { s.plugins p with handle := some h }).note p (.opened h))

def pluginLoaderSymbol (o : Outcomes) (p : PluginId) (symbol : String) : Op := fun s =>
  if (s.plugins p).handle.isSome && o.dlsym p symbol then
    (ok, s.setPlugin p { s.plugins p with symbols := (s.plugins p).symbols ++ [symbol] })
  else (DeviceResult.symbolLoadFailed, s)

def loadPlugin (o : Outcomes) (p : PluginId) (name : String) (symbols : List String) : Op :=
  andThen ok (openPlugin o p name) id (inOrder ok (symbols.map (pluginLoaderSymbol o p)))

def loadLedPlugin (o : Outcomes) : Op :=
  loadPlugin o .led "led"
    ["led_init", "led_cleanup", "led_on", "led_on_bright", "led_off", "led_is_on"]

def loadBuzzerPlugin (o : Outcomes) : Op :=
  loadPlugin o .buzzer "buzzer"
    ["buzzer_init", "buzzer_cleanup", "buzzer_music", "buzzer_on", "buzzer_off", "buzzer_beep",
      "buzzer_is_on"]

def loadLightPlugin (o : Outcomes) : Op :=
  loadPlugin o .light "light" ["light_init", "light_cleanup", "light_read", "light_get_last_value"]

def loadSegmentPlugin (o : Outcomes) : Op :=
  loadPlugin o .segment "segment"
    ["segment_init", "segment_cleanup", "segment_display", "segment_clear", "segment_is_enabled",
      "segment_get_value"]

def pluginLoaderClose (p : PluginId) (s : State) : State :=
  match (s.plugins p).handle with
  | none => s
  | some h => (s.note p (.closed h)).setPlugin p { s.plugins p with handle := none }

def pluginRegistryClose (s : State) : State :=
  pluginLoaderClose .led (pluginLoaderClose .buzzer (pluginLoaderClose .light
    (pluginLoaderClose .segment s)))

def loadPlugins (o : Outcomes) : Op :=
  andThen ok (loadLedPlugin o) pluginRegistryClose
    (andThen ok (loadBuzzerPlugin o) pluginRegistryClose
      (andThen ok (loadLightPlugin o) pluginRegistryClose
        (andThen ok (loadSegmentPlugin o) pluginRegistryClose fun s => (ok, s))))

def pluginRegistryLoad (o : Outcomes) : Op := fun s =>
  loadPlugins o { s with plugins := fun _ => ⟨none, []⟩ }

/-! ## The threads -/

def create {τ : Type} (succeeds : Bool) (make : τ → τ) : τ → Int × τ := fun x =>
  if succeeds then (ok, make x) else (DeviceResult.threadFailed, x)

def DeviceWorker.lockDestroy (x : DeviceWorker) : DeviceWorker := { x with locks := x.locks - 1 }

def DeviceWorker.condDestroy (x : DeviceWorker) : DeviceWorker := { x with conds := x.conds - 1 }

def makeWorker (o : Outcomes) (w : WorkerId) : DeviceWorker → Int × DeviceWorker :=
  andThen ok (create (o.mutexInit w) fun x => { x with locks := x.locks + 1 }) id
    (andThen ok (create (o.condInit w) fun x => { x with conds := x.conds + 1 })
      DeviceWorker.lockDestroy
      (andThen ok (create (o.workerThread w) fun x => { x with threads := x.threads + 1 })
        (fun x => x.condDestroy.lockDestroy) fun x => (ok, { x with started := true })))

def deviceWorkerStart (o : Outcomes) (w : WorkerId) (name : String) :
    DeviceWorker → Int × DeviceWorker := fun x =>
  makeWorker o w { x with name := name, running := true, started := false }

/-- `device_worker_stop`; the join returns when the thread has ended. -/
def deviceWorkerStop (x : DeviceWorker) : DeviceWorker :=
  if !x.started then x
  else
    let joined := { x with running := false, threads := x.threads - 1 }
    { joined.condDestroy.lockDestroy with started := false }

def makeSegmentThread (o : Outcomes) : SegmentThread → Int × SegmentThread :=
  andThen ok (create o.segmentThread fun x => { x with threads := x.threads + 1 })
    (fun x => { x with running := false }) fun x => (ok, { x with started := true })

def startSegmentThread (o : Outcomes) : SegmentThread → Int × SegmentThread := fun x =>
  makeSegmentThread o { x with running := true, countdownEnabled := false, countdownValue := 0 }

def stopSegmentThread (x : SegmentThread) : SegmentThread :=
  { x with
    running := false
    countdownEnabled := false
    started := false
    threads := if x.started then x.threads - 1 else x.threads }

def State.setWorker (s : State) (w : WorkerId) (x : DeviceWorker) : State :=
  { s with worker := update s.worker w x }

def State.setSegment (s : State) (x : SegmentThread) : State := { s with segment := x }

def startWorker (o : Outcomes) (w : WorkerId) (name : String) : Op :=
  within (fun s => s.worker w) (fun s => s.setWorker w) (deviceWorkerStart o w name)

def stopWorker (w : WorkerId) (s : State) : State := s.setWorker w (deviceWorkerStop (s.worker w))

def startDeviceWorkers (o : Outcomes) : Op :=
  andThen ok (startWorker o .led "led") id
    (andThen ok (startWorker o .buzzer "buzzer") (stopWorker .led)
      (andThen ok (startWorker o .light "light") (fun s => stopWorker .led (stopWorker .buzzer s))
        (andThen ok (within State.segment State.setSegment (startSegmentThread o))
          (fun s => stopWorker .led (stopWorker .buzzer (stopWorker .light s)))
          fun s => (ok, s))))

/-- The second check of `stop_device_workers` is for a resolved `buzzer_off`; the queue that
`device_worker_cancel_pending` empties is no part of this state. -/
def stopDeviceWorkers (s : State) : State :=
  let s := stopWorker .light (s.setSegment (stopSegmentThread s.segment))
  let s := if "buzzer_off" ∈ (s.plugins .buzzer).symbols then s.note .buzzer .off else s
  stopWorker .led (stopWorker .buzzer s)

/-! ## The device manager -/

def initPlugin (o : Outcomes) (p : PluginId) : Op := fun s => (o.init p, s.note p (.init (o.init p)))

def unwind (cleanups : List PluginId) (s : State) : State :=
  pluginRegistryClose (cleanups.foldl (fun s p => s.note p .cleanup) s)

def initDevices (o : Outcomes) : Op :=
  andThen ok (pluginRegistryLoad o) id
    (andThen ok (initPlugin o .led) (unwind [])
      (andThen ok (initPlugin o .buzzer) (unwind [.led])
        (andThen ok (initPlugin o .light) (unwind [.buzzer, .led])
          (andThen ok (initPlugin o .segment) (unwind [.light, .buzzer, .led])
            (andThen ok (startDeviceWorkers o) (unwind [.segment, .light, .buzzer, .led])
              fun s => (ok, { s with initialized := true }))))))

def deviceInit (o : Outcomes) : Op := fun s => if s.initialized then (ok, s) else initDevices o s

def deviceCleanup (s : State) : State :=
  if !s.initialized then s
  else unwind [.segment, .light, .buzzer, .led] (stopDeviceWorkers { s with initialized := false })

inductive Call
  | init (o : Outcomes)
  | cleanup

def State.perform (s : State) : Call → State
  | .init o => (deviceInit o s).2
  | .cleanup => deviceCleanup s

def after (calls : List Call) : State := calls.foldl State.perform start

end RemoteDevice.Lifecycle
