import RemoteDevice.Worker.Model

/-! What one step of each function of the worker can do: every branch with the place it leaves. -/

namespace RemoteDevice.Worker
open Function (update)

variable {ρ κ χ : Type} {s s' : State ρ κ χ}

inductive SubmitBranch (s : State ρ κ χ) (c : TaskId) (o : CreateOutcome) : State ρ κ χ → Prop
  | enters (hpc : s.submits c = .called) (hstarted : s.started = true) :
      SubmitBranch s c o (s.setSubmit c .creating)
  | unstarted (hpc : s.submits c = .called) (hstarted : s.started = false) :
      SubmitBranch s c o (s.setSubmit c (.rejecting DeviceResult.threadFailed))
  | creates (task : DeviceTask ρ κ χ) (hpc : s.submits c = .creating)
      (htask : createTask (s.args c) o = some task) :
      SubmitBranch s c o (((s.setTask c task).emit (.create c)).setSubmit c .created)
  | starves (hpc : s.submits c = .creating) (htask : createTask (s.args c) o = none) :
      SubmitBranch s c o (s.setSubmit c (.rejecting DeviceResult.deviceFailed))
  | rejects (r : Int) (hpc : s.submits c = .rejecting r) : SubmitBranch s c o
      ((s.emit (.cleanup c (s.args c).cleanup.isSome)).setSubmit c (.returned r))
  | refuses (hpc : s.submits c = .created) (hlock : s.lockAlive = true)
      (hrunning : s.running = false) : SubmitBranch s c o ((s.emit (.refuse c)).setSubmit c .refused)
  | appends (hpc : s.submits c = .created) (hlock : s.lockAlive = true) (hrunning : s.running = true) :
      SubmitBranch s c o ((((linkTask s c).emit (.append c)).signalWorker).setSubmit c
        (if (s.args c).wait then .waiting else .returned DeviceResult.ok))
  | refusedCleans (hpc : s.submits c = .refused) : SubmitBranch s c o
      ((s.emit (.cleanup c (s.args c).cleanup.isSome)).setSubmit c .refusedClean)
  | refusedDestroys (hpc : s.submits c = .refusedClean) : SubmitBranch s c o
      ((s.emit (.destroy c)).setSubmit c (.returned DeviceResult.threadFailed))
  | finishes (hpc : s.submits c = .waiting) (hdone : (s.heap c).done = true) : SubmitBranch s c o
      ((s.emit (.touch c)).setSubmit c (.finished (s.heap c).result))
  | sleeps (hpc : s.submits c = .waiting) (hdone : (s.heap c).done = false) :
      SubmitBranch s c o ((s.emit (.touch c)).setSubmit c .asleep)
  | cleans (r : Int) (hpc : s.submits c = .finished r) :
      SubmitBranch s c o ((cleanupTask s c).setSubmit c (.finishedClean r))
  | destroys (r : Int) (hpc : s.submits c = .finishedClean r) :
      SubmitBranch s c o ((s.emit (.destroy c)).setSubmit c (.returned r))

theorem submit_branch {c : TaskId} {o : CreateOutcome} (hs : deviceWorkerSubmit s c o = some s') :
    SubmitBranch s c o s' := by
  unfold deviceWorkerSubmit at hs
  cases hpc : s.submits c <;> rw [hpc] at hs
  case idle | asleep | returned => cases hs
  case called =>
    simp only at hs
    split at hs <;> cases hs
    · exact .enters hpc ‹_›
    · next hstopped => exact .unstarted hpc (Bool.eq_false_iff.mpr hstopped)
  case creating =>
    simp only at hs
    split at hs <;> cases hs
    · exact .creates _ hpc ‹_›
    · exact .starves hpc ‹_›
  case rejecting r => cases hs; exact .rejects r hpc
  case created =>
    simp only at hs
    split at hs
    · cases hs
    next hlock =>
    have hlock : s.lockAlive = true := by simpa using hlock
    split at hs <;> cases hs
    · next hstopped => exact .refuses hpc hlock (by simpa using hstopped)
    · next hrunning => exact .appends hpc hlock (by simpa using hrunning)
  case refused => cases hs; exact .refusedCleans hpc
  case refusedClean => cases hs; exact .refusedDestroys hpc
  case waiting =>
    simp only at hs
    split at hs <;> cases hs
    · exact .finishes hpc ‹_›
    · next hundone => exact .sleeps hpc (Bool.eq_false_iff.mpr hundone)
  case finished r => cases hs; exact .cleans r hpc
  case finishedClean r => cases hs; exact .destroys r hpc

inductive LoopBranch (s : State ρ κ χ) : State ρ κ χ → Prop
  | sleeps (hpc : s.loop = .top) (hlock : s.lockAlive = true) (hrunning : s.running = true)
      (hhead : s.head = none) : LoopBranch s (s.setLoop .asleep)
  | exits (hpc : s.loop = .top) (hlock : s.lockAlive = true) (hrunning : s.running = false)
      (hhead : s.head = none) : LoopBranch s (s.setLoop .exited)
  | dequeues (t : TaskId) (hpc : s.loop = .top) (hlock : s.lockAlive = true)
      (hhead : s.head = some t) : LoopBranch s
      (({ s with head := (s.heap t).next, tail := if (s.heap t).next = none then none else s.tail }.emit
        (.dequeue t)).setLoop (.taken t))
  | calls (t : TaskId) (hpc : s.loop = .taken t) :
      LoopBranch s ((s.emit (.runCall t)).setLoop (.running t))
  | settles (t : TaskId) (r : Int) (hpc : s.loop = .ran t r) (hwait : (s.heap t).wait = true) :
      LoopBranch s ((settleTask s t r).setLoop .top)
  | cleans (t : TaskId) (r : Int) (hpc : s.loop = .ran t r) (hwait : (s.heap t).wait = false) :
      LoopBranch s ((cleanupTask s t).setLoop (.cleaned t))
  | destroys (t : TaskId) (hpc : s.loop = .cleaned t) :
      LoopBranch s ((s.emit (.destroy t)).setLoop .top)

theorem loop_branch (hs : deviceWorkerLoop s = some s') : LoopBranch s s' := by
  unfold deviceWorkerLoop at hs
  cases hpc : s.loop <;> rw [hpc] at hs
  case asleep | running | exited => cases hs
  case top =>
    simp only at hs
    split at hs
    · cases hs
    next hlock =>
    have hlock : s.lockAlive = true := by simpa using hlock
    split at hs
    · next hidle =>
      cases hs
      rw [Bool.and_eq_true, Option.isNone_iff_eq_none] at hidle
      exact .sleeps hpc hlock hidle.1 hidle.2
    next hbusy =>
    split at hs <;> cases hs
    · next hhead => exact .exits hpc hlock (by simpa [hhead] using hbusy) hhead
    · next t hhead => exact .dequeues t hpc hlock hhead
  case taken t => cases hs; exact .calls t hpc
  case ran t r =>
    simp only at hs
    split at hs <;> cases hs
    · exact .settles t r hpc ‹_›
    · next hwait => exact .cleans t r hpc (Bool.eq_false_iff.mpr hwait)
  case cleaned t => cases hs; exact .destroys t hpc

inductive CancelBranch (s : State ρ κ χ) (k : CancelId) : State ρ κ χ → Prop
  | enters (code : Int) (hpc : s.cancels k = .called code) (hstarted : s.started = true) :
      CancelBranch s k (s.setCancel k (.locking code))
  | unstarted (code : Int) (hpc : s.cancels k = .called code) (hstarted : s.started = false) :
      CancelBranch s k (s.setCancel k .returned)
  | detaches (code : Int) (hpc : s.cancels k = .locking code) (hlock : s.lockAlive = true) :
      CancelBranch s k (({ s with head := none, tail := none }.emit (.detach k code)).setCancel k
        (.next s.head code))
  | returns (code : Int) (hpc : s.cancels k = .next none code) :
      CancelBranch s k (s.setCancel k .returned)
  | settles (t : TaskId) (code : Int) (hpc : s.cancels k = .next (some t) code)
      (hwait : (s.heap t).wait = true) : CancelBranch s k
      ((settleTask ((s.setTask t { s.heap t with next := none }).emit (.cancel k t code)) t code).setCancel
        k (.next (s.heap t).next code))
  | cleans (t : TaskId) (code : Int) (hpc : s.cancels k = .next (some t) code)
      (hwait : (s.heap t).wait = false) : CancelBranch s k
      ((cleanupTask ((s.setTask t { s.heap t with next := none }).emit (.cancel k t code)) t).setCancel
        k (.cleaned t (s.heap t).next code))
  | destroys (t : TaskId) (next : Option TaskId) (code : Int) (hpc : s.cancels k = .cleaned t next code) :
      CancelBranch s k ((s.emit (.destroy t)).setCancel k (.next next code))

theorem cancel_branch {k : CancelId} (hs : deviceWorkerCancelPending s k = some s') :
    CancelBranch s k s' := by
  unfold deviceWorkerCancelPending at hs
  cases hpc : s.cancels k <;> rw [hpc] at hs
  case idle | returned => cases hs
  case called code =>
    cases hs
    split
    · exact .enters code hpc ‹_›
    · next hstopped => exact .unstarted code hpc (Bool.eq_false_iff.mpr hstopped)
  case locking code =>
    simp only at hs
    split at hs <;> cases hs
    next hlock => exact .detaches code hpc (by simpa using hlock)
  case next cur code =>
    cases cur with
    | none => cases hs; exact .returns code hpc
    | some t =>
      cases hs
      have hheap : ((s.setTask t { s.heap t with next := none }).emit (.cancel k t code)).heap t =
          { s.heap t with next := none } := Function.update_self ..
      unfold cancelTask
      rw [hheap]
      split
      · exact .settles t code hpc ‹_›
      · next hwait => exact .cleans t code hpc (Bool.eq_false_iff.mpr hwait)
  case cleaned t next code => cases hs; exact .destroys t next code hpc

inductive StopBranch (s : State ρ κ χ) : State ρ κ χ → Prop
  | enters (hpc : s.stop = .called) (hstarted : s.started = true) :
      StopBranch s { s with stop := .locking }
  | unstarted (hpc : s.stop = .called) (hstarted : s.started = false) :
      StopBranch s { s with stop := .returned }
  | stops (hpc : s.stop = .locking) (hlock : s.lockAlive = true) :
      StopBranch s { ({ s with running := false }.signalWorker) with stop := .joining }
  | joins (hpc : s.stop = .joining) (hexited : s.loop = .exited) :
      StopBranch s { s with stop := .destroying }
  | destroys (hpc : s.stop = .destroying) :
      StopBranch s { s with lockAlive := false, stop := .clearing }
  | clears (hpc : s.stop = .clearing) : StopBranch s { s with started := false, stop := .returned }

theorem stop_branch (hs : deviceWorkerStop s = some s') : StopBranch s s' := by
  unfold deviceWorkerStop at hs
  split at hs
  · cases hs
  · cases hs
  · next hpc =>
    cases hs
    split
    · exact .enters hpc ‹_›
    · next hstopped => exact .unstarted hpc (Bool.eq_false_iff.mpr hstopped)
  · next hpc =>
    split at hs <;> cases hs
    next hlock => exact .stops hpc (by simpa using hlock)
  · next hpc =>
    split at hs <;> cases hs
    exact .joins hpc ‹_›
  · next hpc =>
    cases hs
    exact .destroys hpc
  · next hpc =>
    cases hs
    exact .clears hpc

theorem runReturn_eq {r : Int} (hs : runReturn s r = some s') :
    ∃ t, s.loop = .running t ∧ s' = (s.emit (.runReturn t r)).setLoop (.ran t r) := by
  unfold runReturn at hs
  split at hs <;> cases hs
  exact ⟨_, ‹_›, rfl⟩

end RemoteDevice.Worker
