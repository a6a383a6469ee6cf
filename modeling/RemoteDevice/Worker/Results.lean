import RemoteDevice.Worker.Hands

/-! What `device_worker_submit` can return: a property that the worker's own codes have, the code of
every cancelling call, and what `run` returns for a task that its submitter waits for. -/

namespace RemoteDevice.Worker
open Function (update)

variable {ρ κ χ : Type} {s s' : State ρ κ χ} {P : Int → Prop}

def SubmitPc.result : SubmitPc → Option Int
  | .rejecting r | .finished r | .finishedClean r | .returned r => some r
  | _ => none

def CancelPc.code : CancelPc → Option Int
  | .called code | .locking code | .next _ code | .cleaned _ _ code => some code
  | .idle | .returned => none

structure Results (P : Int → Prop) (s : State ρ κ χ) : Prop where
  submits : ∀ c r, (s.submits c).result = some r → P r
  heap : ∀ c, (s.heap c).done = true → P (s.heap c).result
  loop : ∀ c r, s.loop = .ran c r → (s.heap c).wait = true → P r
  cancels : ∀ k code, (s.cancels k).code = some code → P code

structure OwnCodes (P : Int → Prop) : Prop where
  ok : P DeviceResult.ok
  threadFailed : P DeviceResult.threadFailed
  deviceFailed : P DeviceResult.deviceFailed

theorem results_start : Results P (deviceWorkerStart ρ κ χ) where
  submits := by rintro c r ⟨⟩
  heap := by rintro c ⟨⟩
  loop := by rintro c r ⟨⟩
  cancels := by rintro k code ⟨⟩

/-! ## The parts of a step -/

theorem Results.congr (h : Results P s) (hsubmits : s'.submits = s.submits)
    (hheap : s'.heap = s.heap) (hloop : ∀ c r, s'.loop = .ran c r → s.loop = .ran c r)
    (hcancels : s'.cancels = s.cancels) : Results P s' where
  submits := hsubmits ▸ h.submits
  heap := hheap ▸ h.heap
  loop := fun c r hl hw => h.loop c r (hloop c r hl) (hheap ▸ hw)
  cancels := hcancels ▸ h.cancels

theorem Results.emit (h : Results P s) (e : Event) : Results P (s.emit e) :=
  h.congr rfl rfl (fun _ _ => id) rfl

theorem Results.setLoop (h : Results P s) {pc : LoopPc}
    (hpc : ∀ c r, pc = .ran c r → (s.heap c).wait = true → P r) : Results P (s.setLoop pc) :=
  ⟨h.submits, h.heap, hpc, h.cancels⟩

theorem Results.setSubmit (h : Results P s) (c : TaskId) {pc : SubmitPc}
    (hpc : ∀ r, pc.result = some r → P r) : Results P (s.setSubmit c pc) := by
  refine ⟨fun d r hd => ?_, h.heap, h.loop, h.cancels⟩
  by_cases hdc : d = c
  · exact hpc r (by simpa [State.setSubmit, hdc] using hd)
  · exact h.submits d r (by simpa [State.setSubmit, hdc] using hd)

theorem Results.setCancel (h : Results P s) (k : CancelId) {pc : CancelPc}
    (hpc : ∀ code, pc.code = some code → P code) : Results P (s.setCancel k pc) := by
  refine ⟨h.submits, h.heap, h.loop, fun k' code hk => ?_⟩
  by_cases hkk : k' = k
  · exact hpc code (by simpa [State.setCancel, hkk] using hk)
  · exact h.cancels k' code (by simpa [State.setCancel, hkk] using hk)

theorem Results.setTask (h : Results P s) (t : TaskId) {task : DeviceTask ρ κ χ}
    (hdone : task.done = true → P task.result)
    (hloop : ∀ r, s.loop = .ran t r → task.wait = true → P r) : Results P (s.setTask t task) := by
  refine ⟨h.submits, fun c hc => ?_, fun c r hl hw => ?_, h.cancels⟩
  · by_cases hct : c = t
    · subst hct
      simp only [State.setTask, Function.update_self] at hc ⊢
      exact hdone hc
    · simp only [State.setTask, Function.update_of_ne hct] at hc ⊢
      exact h.heap c hc
  · by_cases hct : c = t
    · subst hct
      exact hloop r hl (by simpa [State.setTask] using hw)
    · exact h.loop c r hl (by simpa [State.setTask, hct] using hw)

theorem Results.relink (h : Results P s) (t : TaskId) (n : Option TaskId) :
    Results P (s.setTask t { s.heap t with next := n }) :=
  h.setTask t (h.heap t) fun r => h.loop t r

theorem Results.linkTask (h : Results P s) (t : TaskId) : Results P (linkTask s t) := by
  unfold Worker.linkTask
  split
  · exact h.congr rfl rfl (fun _ _ => id) rfl
  · next l _ => exact ((h.relink l (some t)).emit (.touch l)).congr rfl rfl (fun _ _ => id) rfl

theorem Results.settleTask (h : Results P s) (t : TaskId) {r : Int} (hr : P r) :
    Results P (settleTask s t r) := by
  have hset : Results P (s.setTask t { s.heap t with result := r, done := true }) :=
    h.setTask t (fun _ => hr) fun r' => h.loop t r'
  unfold Worker.settleTask State.signalTask
  split
  · exact (hset.setSubmit t (by rintro r' ⟨⟩)).emit _
  · exact hset.emit _

theorem Results.signalWorker (h : Results P s) : Results P s.signalWorker := by
  rw [State.signalWorker_eq]
  refine h.setLoop fun c r hpc hw => ?_
  split at hpc
  · cases hpc
  · exact h.loop c r hpc hw

/-! ## Steps -/

theorem Reachable.not_ran_of_creating (h : Reachable s) {c : TaskId} (hc : s.submits c = .creating)
    (r : Int) : s.loop ≠ .ran c r := by
  intro hl
  obtain ⟨A, -, href⟩ := h.traced
  have hsub := href.submit c
  rw [hc] at hsub
  cases hsub.symm.trans (((href.loop c).ran r).mp hl)

theorem Results.submit (h : Results P s) (hreach : Reachable s) (hown : OwnCodes P) {c : TaskId}
    {o : CreateOutcome} (hs : deviceWorkerSubmit s c o = some s') : Results P s' := by
  -- a step of the call either leaves its result open or fixes it
  have hquiet : ∀ {u : State ρ κ χ} {pc : SubmitPc}, Results P u → pc.result = none →
      Results P (u.setSubmit c pc) := by
    intro u pc hu hpc
    exact hu.setSubmit c fun r hr => by rw [hpc] at hr; cases hr
  have hcode : ∀ {u : State ρ κ χ} {pc : SubmitPc} {r : Int}, Results P u → pc.result = some r →
      P r → Results P (u.setSubmit c pc) := by
    intro u pc r hu hpc hr
    exact hu.setSubmit c fun r' hr' => by rw [hpc] at hr'; cases hr'; exact hr
  cases submit_branch hs with
  | enters => exact hquiet h rfl
  | unstarted => exact hcode h rfl hown.threadFailed
  | creates task hpc htask =>
    have hundone := (createTask_fields htask).undone (.inl rfl)
    have hdone : task.done = true → P task.result := fun hd => by
      rw [hundone] at hd
      cases hd
    have hset := h.setTask c hdone fun r hl => (hreach.not_ran_of_creating hpc r hl).elim
    exact hquiet (hset.emit _) rfl
  | starves => exact hcode h rfl hown.deviceFailed
  | appends =>
    have hlink := ((h.linkTask c).emit (.append c)).signalWorker
    split
    · exact hquiet hlink rfl
    · exact hcode hlink rfl hown.ok
  | refusedDestroys => exact hcode (h.emit _) rfl hown.threadFailed
  | refuses | refusedCleans | sleeps => exact hquiet (h.emit _) rfl
  | finishes _ hdone => exact hcode (h.emit _) rfl (h.heap c hdone)
  | rejects r hpc | cleans r hpc | destroys r hpc =>
    exact hcode (h.emit _) rfl (h.submits c r (by rw [hpc]; rfl))

theorem Results.workerLoop (h : Results P s) (hs : deviceWorkerLoop s = some s') : Results P s' := by
  cases loop_branch hs with
  | sleeps | exits => exact h.setLoop (by rintro c r ⟨⟩)
  | dequeues => exact h.congr rfl rfl (by rintro c r ⟨⟩) rfl
  | settles t r hpc hwait => exact (h.settleTask t (h.loop t r hpc hwait)).setLoop (by rintro c r ⟨⟩)
  | calls | cleans | destroys => exact (h.emit _).setLoop (by rintro c r ⟨⟩)

theorem Results.cancelPending (h : Results P s) {k : CancelId}
    (hs : deviceWorkerCancelPending s k = some s') : Results P s' := by
  have hcode := h.cancels k
  have hmove : ∀ {u : State ρ κ χ} {pc : CancelPc}, Results P u →
      (∀ code, pc.code = some code → (s.cancels k).code = some code) →
      Results P (u.setCancel k pc) := fun hu hpc =>
    hu.setCancel k fun code hc => hcode code (hpc code hc)
  cases cancel_branch hs with
  | enters code hpc =>
    rw [hpc] at hmove
    exact hmove h fun _ => id
  | unstarted | returns => exact hmove h (by rintro code' ⟨⟩)
  | detaches code hpc =>
    rw [hpc] at hmove
    have hqueue : Results P { s with head := none, tail := none } :=
      h.congr rfl rfl (fun _ _ => id) rfl
    exact hmove (hqueue.emit _) fun _ => id
  | settles t code hpc =>
    rw [hpc] at hmove hcode
    exact hmove (((h.relink t none).emit (.cancel k t code)).settleTask t (hcode code rfl)) fun _ => id
  | cleans t code hpc =>
    rw [hpc] at hmove
    exact hmove (((h.relink t none).emit (.cancel k t code)).emit _) fun _ => id
  | destroys t next code hpc =>
    rw [hpc] at hmove
    exact hmove (h.emit _) fun _ => id

theorem Results.workerStop (h : Results P s) (hs : deviceWorkerStop s = some s') : Results P s' := by
  cases stop_branch hs with
  | stops =>
    have hrunning : Results P { s with running := false } := h.congr rfl rfl (fun _ _ => id) rfl
    exact hrunning.signalWorker.congr rfl rfl (fun _ _ => id) rfl
  | enters | unstarted | joins | destroys | clears => exact h.congr rfl rfl (fun _ _ => id) rfl

theorem Results.step (h : Results P s) (hreach : Reachable s) (hown : OwnCodes P)
    {a : Action ρ κ χ} (hs : step s a = some s') (hcancel : ∀ k code, a = .cancelCall k code → P code)
    (hrun : ∀ c r, a = .runReturn r → s.loop = .running c → (s.heap c).wait = true → P r) :
    Results P s' := by
  cases a <;> simp only [Worker.step] at hs
  case submitCall c g =>
    split at hs <;> cases hs
    have hargs : Results P { s with args := update s.args c g } := h.congr rfl rfl (fun _ _ => id) rfl
    exact (hargs.emit _).setSubmit c (by rintro r ⟨⟩)
  case submit c o => exact h.submit hreach hown hs
  case submitWake c => split at hs <;> cases hs; exact h.setSubmit c (by rintro r ⟨⟩)
  case loop => exact h.workerLoop hs
  case loopWake => split at hs <;> cases hs; exact h.setLoop (by rintro c r ⟨⟩)
  case runReturn r =>
    obtain ⟨t, hl, rfl⟩ := runReturn_eq hs
    refine (h.emit _).setLoop ?_
    rintro c r' ⟨⟩ hw
    exact hrun t r rfl hl hw
  case cancelCall k code =>
    split at hs <;> cases hs
    refine h.setCancel k ?_
    rintro code' ⟨⟩
    exact hcancel k code rfl
  case cancel k => exact h.cancelPending hs
  case stopCall => split at hs <;> cases hs; exact h.congr rfl rfl (fun _ _ => id) rfl
  case stop => exact h.workerStop hs

/-! ## The task of a call -/

theorem step_args {a : Action ρ κ χ} (hs : Worker.step s a = some s') {c : TaskId}
    (hc : s.submits c ≠ .idle) : s'.args c = s.args c := by
  cases ha : a.calls with
  | false => rw [(step_continues hs ha).args]
  | true =>
    cases a with
    | submitCall d g =>
      have hd : s.submits d = .idle := by
        simp only [Worker.step, Option.ite_none_right_eq_some] at hs
        exact hs.1
      have hne : c ≠ d := fun e => hc (e ▸ hd)
      rw [submitCall_eq hs]
      exact Function.update_of_ne hne ..
    | cancelCall k code => rw [cancelCall_eq hs]; rfl
    | _ => cases ha

theorem Reachable.running_task (h : Reachable s) {c : TaskId} (hl : s.loop = .running c) :
    s.submits c ≠ .idle ∧ (s.heap c).run = (s.args c).run ∧
      (s.heap c).context = (s.args c).context ∧ (s.heap c).wait = (s.args c).wait := by
  obtain ⟨A, -, href⟩ := h.traced
  have hlife : A.life c = .running := (href.loop c).running.mp hl
  obtain ⟨hrun, -, hcontext, hwait⟩ := (href.task c).fields (by rw [hlife]; rfl)
  refine ⟨fun hc => ?_, hrun, hcontext, hwait⟩
  have hsub := href.submit c
  rw [hc] at hsub
  cases hlife.symm.trans hsub

end RemoteDevice.Worker
