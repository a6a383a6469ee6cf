import Mathlib.Logic.Function.Basic
import RemoteDevice.DeviceResult
import RemoteDevice.Lib.Runs

/-! One `DeviceWorker` with its thread, any number of concurrent `device_worker_submit` and
`device_worker_cancel_pending` calls and one `device_worker_stop`, at the granularity of the
mutex-protected sections and the callback calls.

Every call is a process of its own; a thread making several calls is the case where they do
not overlap. A submit call creates at most one task, which carries the number of the call. -/

namespace RemoteDevice.Worker
open Function (update)

abbrev TaskId := Nat
abbrev CancelId := Nat

variable (ρ κ χ : Type)

/-- `struct DeviceTask`; pointers are options, and the default value is what `calloc` returns. -/
structure DeviceTask where
  run : Option ρ := none
  cleanup : Option κ := none
  context : Option χ := none
  wait : Bool := false
  done : Bool := false
  result : Int := 0
  next : Option TaskId := none
  deriving DecidableEq

instance : Inhabited (DeviceTask ρ κ χ) := ⟨{}⟩

structure SubmitArgs where
  run : Option ρ
  cleanup : Option κ
  context : Option χ
  wait : Bool
  deriving DecidableEq

instance : Inhabited (SubmitArgs ρ κ χ) := ⟨⟨none, none, none, false⟩⟩

inductive CreateOutcome
  | ok
  | callocFails
  | mutexInitFails
  | condInitFails
  deriving DecidableEq

inductive SubmitPc
  | idle
  | called
  | creating
  | rejecting (r : Int)
  | created
  | refused
  | refusedClean
  | waiting
  | asleep
  | finished (r : Int)
  | finishedClean (r : Int)
  | returned (r : Int)
  deriving DecidableEq

inductive LoopPc
  | top
  | asleep
  | taken (t : TaskId)
  | running (t : TaskId)
  | ran (t : TaskId) (r : Int)
  | cleaned (t : TaskId)
  | exited
  deriving DecidableEq

/-- Where a call of `device_worker_cancel_pending` stands; `task` is its loop variable. -/
inductive CancelPc
  | idle
  | called (code : Int)
  | locking (code : Int)
  | next (task : Option TaskId) (code : Int)
  | cleaned (task : TaskId) (next : Option TaskId) (code : Int)
  | returned
  deriving DecidableEq

inductive StopPc
  | idle
  | called
  | locking
  | joining
  | destroying
  | clearing
  | returned
  deriving DecidableEq

/-- What the threads do to tasks and contexts, in program order. `cleanup c b` is the statement
`if (cleanup != NULL) cleanup(context)` with `b` telling whether the callback was called. -/
inductive Event
  | submit (c : TaskId)
  | create (c : TaskId)
  | refuse (c : TaskId)
  | append (c : TaskId)
  | dequeue (c : TaskId)
  | runCall (c : TaskId)
  | runReturn (c : TaskId) (r : Int)
  | detach (k : CancelId) (code : Int)
  | cancel (k : CancelId) (c : TaskId) (code : Int)
  | settle (c : TaskId)
  | cleanup (c : TaskId) (called : Bool)
  | destroy (c : TaskId)
  | touch (c : TaskId)
  deriving DecidableEq

structure State where
  running : Bool
  started : Bool
  head : Option TaskId
  tail : Option TaskId
  /-- `worker->lock` has not been destroyed. -/
  lockAlive : Bool
  /-- Task memory. A destroyed task keeps its last contents, reading it is still an error. -/
  heap : TaskId → DeviceTask ρ κ χ
  loop : LoopPc
  args : TaskId → SubmitArgs ρ κ χ
  submits : TaskId → SubmitPc
  cancels : CancelId → CancelPc
  stop : StopPc
  /-- Newest event first. -/
  log : List Event

def deviceWorkerStart : State ρ κ χ where
  running := true
  started := true
  head := none
  tail := none
  lockAlive := true
  heap := fun _ => {}
  loop := .top
  args := fun _ => default
  submits := fun _ => .idle
  cancels := fun _ => .idle
  stop := .idle
  log := []

variable {ρ κ χ}

namespace State

def emit (s : State ρ κ χ) (e : Event) : State ρ κ χ := { s with log := e :: s.log }

def setSubmit (s : State ρ κ χ) (c : TaskId) (pc : SubmitPc) : State ρ κ χ :=
  { s with submits := update s.submits c pc }

def setCancel (s : State ρ κ χ) (k : CancelId) (pc : CancelPc) : State ρ κ χ :=
  { s with cancels := update s.cancels k pc }

def setLoop (s : State ρ κ χ) (pc : LoopPc) : State ρ κ χ := { s with loop := pc }

def setTask (s : State ρ κ χ) (t : TaskId) (task : DeviceTask ρ κ χ) : State ρ κ χ :=
  { s with heap := update s.heap t task }

/-- `pthread_cond_signal(&worker->cond)`: only the worker thread waits there. -/
def signalWorker (s : State ρ κ χ) : State ρ κ χ :=
  if s.loop = .asleep then s.setLoop .top else s

/-- `pthread_cond_signal(&task->cond)`: only the submitter of the task waits there. -/
def signalTask (s : State ρ κ χ) (t : TaskId) : State ρ κ χ :=
  if s.submits t = .asleep then s.setSubmit t .waiting else s

end State

def createTask (a : SubmitArgs ρ κ χ) : CreateOutcome → Option (DeviceTask ρ κ χ)
  | .ok => a.run.map fun f =>
      { run := some f, cleanup := a.cleanup, context := a.context, wait := a.wait,
        result := DeviceResult.ok }
  | .callocFails | .mutexInitFails | .condInitFails => none

def linkTask (s : State ρ κ χ) (t : TaskId) : State ρ κ χ :=
  match s.tail with
  | none => { s with head := some t, tail := some t }
  | some l =>
    { (s.setTask l { s.heap l with next := some t }).emit (.touch l) with tail := some t }

def settleTask (s : State ρ κ χ) (t : TaskId) (r : Int) : State ρ κ χ :=
  ((s.setTask t { s.heap t with result := r, done := true }).signalTask t).emit (.settle t)

def cleanupTask (s : State ρ κ χ) (t : TaskId) : State ρ κ χ :=
  s.emit (.cleanup t (s.heap t).cleanup.isSome)

theorem State.signalWorker_eq (s : State ρ κ χ) :
    s.signalWorker = s.setLoop (if s.loop = .asleep then .top else s.loop) := by
  unfold signalWorker
  split <;> rfl

@[simp] theorem linkTask_args (s : State ρ κ χ) (t : TaskId) : (linkTask s t).args = s.args := by
  unfold linkTask; split <;> rfl

@[simp] theorem linkTask_submits (s : State ρ κ χ) (t : TaskId) :
    (linkTask s t).submits = s.submits := by
  unfold linkTask; split <;> rfl

@[simp] theorem linkTask_cancels (s : State ρ κ χ) (t : TaskId) :
    (linkTask s t).cancels = s.cancels := by
  unfold linkTask; split <;> rfl

@[simp] theorem linkTask_loop (s : State ρ κ χ) (t : TaskId) : (linkTask s t).loop = s.loop := by
  unfold linkTask; split <;> rfl

@[simp] theorem settleTask_args (s : State ρ κ χ) (t : TaskId) (r : Int) :
    (settleTask s t r).args = s.args := by
  unfold settleTask State.signalTask; split <;> rfl

@[simp] theorem settleTask_cancels (s : State ρ κ χ) (t : TaskId) (r : Int) :
    (settleTask s t r).cancels = s.cancels := by
  unfold settleTask State.signalTask; split <;> rfl

@[simp] theorem settleTask_loop (s : State ρ κ χ) (t : TaskId) (r : Int) :
    (settleTask s t r).loop = s.loop := by
  unfold settleTask State.signalTask; split <;> rfl

@[simp] theorem settleTask_log (s : State ρ κ χ) (t : TaskId) (r : Int) :
    (settleTask s t r).log = .settle t :: s.log := by
  unfold settleTask State.signalTask; split <;> rfl

@[simp] theorem settleTask_heap_self (s : State ρ κ χ) (t : TaskId) (r : Int) :
    (settleTask s t r).heap t = { s.heap t with result := r, done := true } := by
  unfold settleTask State.signalTask
  split <;> simp [State.setTask, State.emit, State.setSubmit]

/-- One step of the call `c` of `device_worker_submit`. A locked section is enabled only while
`worker->lock` exists: no run takes the lock after it was destroyed. -/
def deviceWorkerSubmit (s : State ρ κ χ) (c : TaskId) (o : CreateOutcome) : Option (State ρ κ χ) :=
  match s.submits c with
  | .idle | .asleep | .returned _ => none
  | .called =>
    if s.started then some (s.setSubmit c .creating)
    else some (s.setSubmit c (.rejecting DeviceResult.threadFailed))
  | .creating =>
    match createTask (s.args c) o with
    | some task => some (((s.setTask c task).emit (.create c)).setSubmit c .created)
    | none => some (s.setSubmit c (.rejecting DeviceResult.deviceFailed))
  | .rejecting r =>
    some ((s.emit (.cleanup c (s.args c).cleanup.isSome)).setSubmit c (.returned r))
  | .created =>
    if !s.lockAlive then none
    else if !s.running then some ((s.emit (.refuse c)).setSubmit c .refused)
    else
      let s' := ((linkTask s c).emit (.append c)).signalWorker
      some (s'.setSubmit c (if (s.args c).wait then .waiting else .returned DeviceResult.ok))
  | .refused =>
    some ((s.emit (.cleanup c (s.args c).cleanup.isSome)).setSubmit c .refusedClean)
  | .refusedClean =>
    some ((s.emit (.destroy c)).setSubmit c (.returned DeviceResult.threadFailed))
  | .waiting =>
    -- `while (!task->done) pthread_cond_wait(..)` under `task->lock`
    if (s.heap c).done then some ((s.emit (.touch c)).setSubmit c (.finished (s.heap c).result))
    else some ((s.emit (.touch c)).setSubmit c .asleep)
  | .finished r => some ((cleanupTask s c).setSubmit c (.finishedClean r))
  | .finishedClean r => some ((s.emit (.destroy c)).setSubmit c (.returned r))

/-- One step of the worker thread, apart from the return of a `run` callback. -/
def deviceWorkerLoop (s : State ρ κ χ) : Option (State ρ κ χ) :=
  match s.loop with
  | .asleep | .running _ | .exited => none
  | .top =>
    if !s.lockAlive then none
    else if s.running && s.head.isNone then some (s.setLoop .asleep)
    else match s.head with
      | none => some (s.setLoop .exited)
      | some t =>
        let next := (s.heap t).next
        some (({ s with head := next, tail := if next = none then none else s.tail }.emit
          (.dequeue t)).setLoop (.taken t))
  | .taken t => some ((s.emit (.runCall t)).setLoop (.running t))
  | .ran t r =>
    if (s.heap t).wait then some ((settleTask s t r).setLoop .top)
    else some ((cleanupTask s t).setLoop (.cleaned t))
  | .cleaned t => some ((s.emit (.destroy t)).setLoop .top)

def runReturn (s : State ρ κ χ) (r : Int) : Option (State ρ κ χ) :=
  match s.loop with
  | .running t => some ((s.emit (.runReturn t r)).setLoop (.ran t r))
  | _ => none

def cancelTask (s : State ρ κ χ) (k : CancelId) (t : TaskId) (next : Option TaskId) (code : Int) :
    State ρ κ χ :=
  if (s.heap t).wait then (settleTask s t code).setCancel k (.next next code)
  else (cleanupTask s t).setCancel k (.cleaned t next code)

def deviceWorkerCancelPending (s : State ρ κ χ) (k : CancelId) : Option (State ρ κ χ) :=
  match s.cancels k with
  | .idle | .returned => none
  | .called code => some (s.setCancel k (if s.started then .locking code else .returned))
  | .locking code =>
    if !s.lockAlive then none
    else some (({ s with head := none, tail := none }.emit (.detach k code)).setCancel k
      (.next s.head code))
  | .next none _ => some (s.setCancel k .returned)
  | .next (some t) code =>
    let next := (s.heap t).next
    some (cancelTask ((s.setTask t { s.heap t with next := none }).emit (.cancel k t code)) k t next code)
  | .cleaned t next code => some ((s.emit (.destroy t)).setCancel k (.next next code))

def deviceWorkerStop (s : State ρ κ χ) : Option (State ρ κ χ) :=
  match s.stop with
  | .idle | .returned => none
  | .called => some { s with stop := if s.started then .locking else .returned }
  | .locking =>
    if !s.lockAlive then none
    else some { ({ s with running := false }.signalWorker) with stop := .joining }
  | .joining => if s.loop = .exited then some { s with stop := .destroying } else none
  | .destroying => some { s with lockAlive := false, stop := .clearing }
  | .clearing => some { s with started := false, stop := .returned }

inductive Action (ρ κ χ : Type)
  | submitCall (c : TaskId) (a : SubmitArgs ρ κ χ)
  | submit (c : TaskId) (o : CreateOutcome)
  | submitWake (c : TaskId)
  | loop
  | loopWake
  | runReturn (r : Int)
  | cancelCall (k : CancelId) (code : Int)
  | cancel (k : CancelId)
  | stopCall
  | stop
  deriving DecidableEq

/-- The wake actions are the spurious wakeups that `pthread_cond_wait` allows. -/
def step (s : State ρ κ χ) : Action ρ κ χ → Option (State ρ κ χ)
  | .submitCall c a =>
    if s.submits c = .idle then
      some (({ s with args := update s.args c a }.emit (.submit c)).setSubmit c .called)
    else none
  | .submit c o => deviceWorkerSubmit s c o
  | .submitWake c => if s.submits c = .asleep then some (s.setSubmit c .waiting) else none
  | .loop => deviceWorkerLoop s
  | .loopWake => if s.loop = .asleep then some (s.setLoop .top) else none
  | .runReturn r => runReturn s r
  | .cancelCall k code =>
    if s.cancels k = .idle then some (s.setCancel k (.called code)) else none
  | .cancel k => deviceWorkerCancelPending s k
  | .stopCall => if s.stop = .idle then some { s with stop := .called } else none
  | .stop => deviceWorkerStop s

abbrev Reachable : State ρ κ χ → Prop := Runs.Reachable (· = deviceWorkerStart ρ κ χ) step

end RemoteDevice.Worker
