import RemoteDevice.Worker.Calls

/-! A worker in service whose callers come one at a time and wait for their tasks: where the task
of the one call in progress is, and what its `run` has returned. -/

namespace RemoteDevice.Worker
open Function (update)

variable {ρ κ χ : Type} {s s' : State ρ κ χ}

structure InService (s : State ρ κ χ) : Prop where
  started : s.started = true
  running : s.running = true
  lockAlive : s.lockAlive = true
  stop : s.stop = .idle
  cancels : ∀ k, (s.cancels k).active = false

structure Vacant (s : State ρ κ χ) : Prop where
  loop : s.loop = .top ∨ s.loop = .asleep
  head : s.head = none
  tail : s.tail = none

structure AtRest (s : State ρ κ χ) : Prop where
  vacant : Vacant s
  submits : ∀ c, (s.submits c).active = false

/-- Where the task of the call in progress is; `ran` and `settled` know what `run` returned. -/
inductive Place
  | arriving
  | refused (r : Int)
  | queued
  | taken
  | running
  | ran (r : Int)
  | settled (r : Int)
  deriving DecidableEq

def Place.result : Place → Option Int
  | .ran r | .settled r => some r
  | _ => none

structure Created (s : State ρ κ χ) (c : TaskId) : Prop where
  run : (s.heap c).run = (s.args c).run
  context : (s.heap c).context = (s.args c).context
  wait : (s.heap c).wait = true
  done : (s.heap c).done = false
  next : (s.heap c).next = none

structure Awaited (s : State ρ κ χ) (c : TaskId) : Prop extends Created s c where
  pc : s.submits c = .waiting ∨ s.submits c = .asleep

def Here (s : State ρ κ χ) (c : TaskId) : Place → Prop
  | .arriving =>
    Vacant s ∧ (s.submits c = .called ∨ s.submits c = .creating ∨
      s.submits c = .created ∧ Created s c)
  | .refused r =>
    Vacant s ∧ r ≠ DeviceResult.ok ∧ (s.submits c = .rejecting r ∨ s.submits c = .returned r)
  | .queued => s.loop = .top ∧ s.head = some c ∧ s.tail = some c ∧ Awaited s c
  | .taken => s.loop = .taken c ∧ s.head = none ∧ s.tail = none ∧ Awaited s c
  | .running => s.loop = .running c ∧ s.head = none ∧ s.tail = none ∧ Awaited s c
  | .ran r => s.loop = .ran c r ∧ s.head = none ∧ s.tail = none ∧ Awaited s c
  | .settled r =>
    Vacant s ∧ (s.submits c = .waiting ∧ (s.heap c).done = true ∧ (s.heap c).result = r ∨
      s.submits c = .finished r ∨ s.submits c = .finishedClean r ∨ s.submits c = .returned r)

structure Solo (s : State ρ κ χ) (c : TaskId) (p : Place) : Prop where
  others : ∀ d ≠ c, (s.submits d).active = false
  wait : (s.args c).wait = true
  run : (s.args c).run.isSome = true
  here : Here s c p

/-- An allocation or an initialiser of `create_task` fails in the call `c`. -/
def Action.starves (s : State ρ κ χ) (c : TaskId) : Action ρ κ χ → Bool
  | .submit d o => d = c && (s.submits c = .creating && o ≠ .ok)
  | _ => false

inductive Place.Next (s : State ρ κ χ) (c : TaskId) (a : Action ρ κ χ) : Place → Place → Prop
  | within {p q : Place} : (∀ r, a ≠ .runReturn r) → q.result = p.result →
      (∀ r, q = .refused r → p = .refused r ∨ a.starves s c = true) → Next s c a p q
  | ran {r : Int} : a = .runReturn r → Next s c a .running (.ran r)

/-! ## A worker at rest -/

theorem submit_inactive {c : TaskId} (h : (s.submits c).active = false) (o : CreateOutcome) :
    deviceWorkerSubmit s c o = none := by
  refine Option.eq_none_iff_forall_ne_some.mpr fun t ht => ?_
  cases h.symm.trans (submit_active ht)

theorem cancel_inactive {k : CancelId} (h : (s.cancels k).active = false) :
    deviceWorkerCancelPending s k = none := by
  refine Option.eq_none_iff_forall_ne_some.mpr fun t ht => ?_
  cases h.symm.trans (cancel_active ht)

theorem Vacant.loop_step (hv : Vacant s) (hs : InService s) (h : deviceWorkerLoop s = some s') :
    s' = s.setLoop .asleep := by
  have hloop : ∀ {pc : LoopPc}, s.loop = pc → pc = .top ∨ pc = .asleep := by
    rintro pc rfl
    exact hv.loop
  cases loop_branch h with
  | sleeps => rfl
  | exits _ _ hstopped => cases hs.running.symm.trans hstopped
  | dequeues t _ _ hhead => cases hv.head.symm.trans hhead
  | calls t hpc | settles t r hpc | cleans t r hpc | destroys t hpc => rcases hloop hpc with hl | hl <;> cases hl

theorem Vacant.setLoop (hv : Vacant s) {pc : LoopPc} (hpc : pc = .top ∨ pc = .asleep) :
    Vacant (s.setLoop pc) := ⟨hpc, hv.head, hv.tail⟩

theorem Vacant.not_running (hv : Vacant s) (r : Int) : runReturn s r = none := by
  unfold runReturn
  rcases hv.loop with hl | hl <;> rw [hl]

theorem AtRest.step {a : Action ρ κ χ} (h : AtRest s) (hs : InService s) (hx : step s a = some s')
    (ha : a.calls = false) (hstop : a ≠ .stopCall) : AtRest s' ∧ ∀ r, a ≠ .runReturn r := by
  cases a with
  | submitCall | cancelCall => cases ha
  | stopCall => exact absurd rfl hstop
  | submit c o =>
    rw [Worker.step, submit_inactive (h.submits c)] at hx
    cases hx
  | submitWake c =>
    simp only [Worker.step, Option.ite_none_right_eq_some] at hx
    have hc := h.submits c
    rw [hx.1] at hc
    cases hc
  | loop =>
    rw [h.vacant.loop_step hs hx]
    exact ⟨⟨h.vacant.setLoop (.inr rfl), h.submits⟩, by rintro r ⟨⟩⟩
  | loopWake =>
    simp only [Worker.step, Option.ite_none_right_eq_some] at hx
    obtain rfl := Option.some.inj hx.2
    exact ⟨⟨h.vacant.setLoop (.inl rfl), h.submits⟩, by rintro r ⟨⟩⟩
  | runReturn r =>
    rw [Worker.step, h.vacant.not_running] at hx
    cases hx
  | cancel k =>
    rw [Worker.step, cancel_inactive (hs.cancels k)] at hx
    cases hx
  | stop =>
    simp only [Worker.step, deviceWorkerStop, hs.stop, reduceCtorEq] at hx

theorem AtRest.submitCall {c : TaskId} {g : SubmitArgs ρ κ χ} (h : AtRest s)
    (hx : Worker.step s (.submitCall c g) = some s') (hwait : g.wait = true)
    (hrun : g.run.isSome = true) : Solo s' c .arriving ∧ s'.args c = g := by
  obtain rfl := submitCall_eq hx
  have hargs : (({ s with args := update s.args c g }.emit (.submit c)).setSubmit c .called).args c = g :=
    Function.update_self ..
  refine ⟨⟨?_, by rw [hargs, hwait], by rw [hargs, hrun],
    ⟨h.vacant.loop, h.vacant.head, h.vacant.tail⟩, .inl (Function.update_self ..)⟩, hargs⟩
  intro d hd
  exact (congrArg SubmitPc.active (Function.update_of_ne hd ..)).trans (h.submits d)

theorem Solo.running {c d : TaskId} {p : Place} (h : Solo s c p) (hl : s.loop = .running d) :
    d = c ∧ p = .running ∧ (s.heap c).run = (s.args c).run ∧ (s.heap c).context = (s.args c).context := by
  have hhere := h.here
  have hvacant : ¬ Vacant s := fun hv => by
    rcases hv.loop with hl' | hl' <;> cases hl'.symm.trans hl
  cases p with
  | arriving | refused | settled => exact (hvacant hhere.1).elim
  | queued | taken | ran => cases hhere.1.symm.trans hl
  | running =>
    obtain ⟨hl', -, -, hawaited⟩ := hhere
    cases hl'.symm.trans hl
    exact ⟨rfl, rfl, hawaited.run, hawaited.context⟩

theorem AtRest.not_running (h : AtRest s) (d : TaskId) : s.loop ≠ .running d := by
  intro hl
  rcases h.vacant.loop with hl' | hl' <;> cases hl'.symm.trans hl

theorem Solo.atRest {c : TaskId} {p : Place} (h : Solo s c p) {r : Int}
    (hc : s.submits c = .returned r) :
    AtRest s ∧ (p = .settled r ∨ p = .refused r ∧ r ≠ DeviceResult.ok) := by
  have hsubmits : ∀ d, (s.submits d).active = false := by
    intro d
    by_cases hd : d = c
    · rw [hd, hc]
      rfl
    · exact h.others d hd
  have hwaited : ¬ Awaited s c := by
    intro hw
    rcases hw.pc with hpc | hpc <;> rw [hc] at hpc <;> cases hpc
  have hhere := h.here
  cases p with
  | arriving =>
    obtain ⟨-, hpc | hpc | ⟨hpc, -⟩⟩ := hhere <;> rw [hc] at hpc <;> cases hpc
  | refused r' =>
    obtain ⟨hv, hne, hpc | hpc⟩ := hhere <;> rw [hc] at hpc <;> cases hpc
    exact ⟨⟨hv, hsubmits⟩, .inr ⟨rfl, hne⟩⟩
  | queued | taken | running | ran r' => exact absurd hhere.2.2.2 hwaited
  | settled r' =>
    obtain ⟨hv, ⟨hpc, -⟩ | hpc | hpc | hpc⟩ := hhere <;> rw [hc] at hpc <;> cases hpc
    exact ⟨⟨hv, hsubmits⟩, .inl rfl⟩

/-! ## The steps of the call in progress -/

theorem Created.congr {c : TaskId} (h : Created s c) (hheap : s'.heap c = s.heap c)
    (hargs : s'.args = s.args) : Created s' c := by
  refine ⟨?_, ?_, ?_, ?_, ?_⟩
  · rw [hheap, hargs, h.run]
  · rw [hheap, hargs, h.context]
  · rw [hheap, h.wait]
  · rw [hheap, h.done]
  · rw [hheap, h.next]

theorem Awaited.congr {c : TaskId} (h : Awaited s c) (hheap : s'.heap c = s.heap c)
    (hargs : s'.args = s.args) (hsubmits : s'.submits c = s.submits c) : Awaited s' c :=
  ⟨h.toCreated.congr hheap hargs, by rw [hsubmits]; exact h.pc⟩

theorem Solo.move {c : TaskId} {p q : Place} (h : Solo s c p) (hargs : s'.args = s.args)
    (hsubmits : s'.submits = s.submits) (hhere : Here s' c q) : Solo s' c q :=
  ⟨fun d hd => by rw [hsubmits]; exact h.others d hd, by rw [hargs]; exact h.wait,
    by rw [hargs]; exact h.run, hhere⟩

theorem Solo.moveCall {c : TaskId} {p q : Place} (h : Solo s c p) (hargs : s'.args = s.args)
    (hsubmits : ∀ d ≠ c, s'.submits d = s.submits d) (hhere : Here s' c q) : Solo s' c q :=
  ⟨fun d hd => by rw [hsubmits d hd]; exact h.others d hd, by rw [hargs]; exact h.wait,
    by rw [hargs]; exact h.run, hhere⟩

theorem settleTask_submits (s : State ρ κ χ) (c : TaskId) (r : Int) :
    (∀ d ≠ c, (settleTask s c r).submits d = s.submits d) ∧
      (s.submits c = .waiting ∨ s.submits c = .asleep → (settleTask s c r).submits c = .waiting) := by
  unfold settleTask State.signalTask
  split
  · next hasleep => exact ⟨fun d hd => Function.update_of_ne hd .., fun _ => Function.update_self ..⟩
  · next hawake => exact ⟨fun _ _ => rfl, fun hpc => hpc.resolve_right hawake⟩

theorem settleTask_queue (s : State ρ κ χ) (c : TaskId) (r : Int) :
    (settleTask s c r).head = s.head ∧ (settleTask s c r).tail = s.tail := by
  unfold settleTask State.signalTask
  split <;> exact ⟨rfl, rfl⟩

theorem Solo.loop {c : TaskId} {p : Place} (h : Solo s c p) (hs : InService s)
    (hx : deviceWorkerLoop s = some s') :
    ∃ q, Solo s' c q ∧ q.result = p.result ∧ ∀ r, q = .refused r → p = .refused r := by
  have hhere := h.here
  cases p with
  | arriving =>
    obtain ⟨hv, hpc⟩ := hhere
    obtain rfl := hv.loop_step hs hx
    refine ⟨.arriving, h.move rfl rfl ⟨hv.setLoop (.inr rfl), ?_⟩, rfl, nofun⟩
    exact hpc.imp_right fun hpc => hpc.imp_right fun ⟨hpc, hcreated⟩ => ⟨hpc, hcreated.congr rfl rfl⟩
  | refused r =>
    obtain ⟨hv, hpc⟩ := hhere
    obtain rfl := hv.loop_step hs hx
    exact ⟨.refused r, h.move rfl rfl ⟨hv.setLoop (.inr rfl), hpc⟩, rfl, fun _ => id⟩
  | queued =>
    obtain ⟨hl, hhead, htail, hawaited⟩ := hhere
    simp only [deviceWorkerLoop, hl, hs.lockAlive, hs.running, hhead, Bool.not_true,
      Bool.false_eq_true, if_false, Option.isNone_some, Bool.and_false, hawaited.next, if_true,
      Option.some.injEq] at hx
    obtain rfl := hx
    exact ⟨.taken, h.move rfl rfl ⟨rfl, rfl, rfl, hawaited.congr rfl rfl rfl⟩, rfl, nofun⟩
  | taken =>
    obtain ⟨hl, hhead, htail, hawaited⟩ := hhere
    simp only [deviceWorkerLoop, hl, Option.some.injEq] at hx
    obtain rfl := hx
    exact ⟨.running, h.move rfl rfl ⟨rfl, hhead, htail, hawaited.congr rfl rfl rfl⟩, rfl, nofun⟩
  | running =>
    rw [deviceWorkerLoop, hhere.1] at hx
    cases hx
  | ran r =>
    obtain ⟨hl, hhead, htail, hawaited⟩ := hhere
    simp only [deviceWorkerLoop, hl, hawaited.wait, if_true, Option.some.injEq] at hx
    obtain rfl := hx
    -- the submitter is woken with `done` set, and the queue is empty again
    obtain ⟨hothers, hwaiting⟩ := settleTask_submits s c r
    obtain ⟨hhead', htail'⟩ := settleTask_queue s c r
    have htask : ((settleTask s c r).heap c).done = true ∧ ((settleTask s c r).heap c).result = r := by
      rw [settleTask_heap_self]
      exact ⟨rfl, rfl⟩
    exact ⟨.settled r, h.moveCall (settleTask_args s c r) hothers
      ⟨⟨.inl rfl, hhead'.trans hhead, htail'.trans htail⟩, .inl ⟨hwaiting hawaited.pc, htask⟩⟩, rfl, nofun⟩
  | settled r =>
    obtain ⟨hv, hpc⟩ := hhere
    obtain rfl := hv.loop_step hs hx
    exact ⟨.settled r, h.move rfl rfl ⟨hv.setLoop (.inr rfl), hpc⟩, rfl, nofun⟩

theorem Solo.loopWake {c : TaskId} {p : Place} (h : Solo s c p) (hl : s.loop = .asleep) :
    Solo (s.setLoop .top) c p := by
  have hhere := h.here
  -- the thread sleeps only while there is no task
  have hnot : ∀ {pc : LoopPc}, s.loop = pc → pc ≠ .asleep → False := fun hpc hne => hne (hpc.symm.trans hl)
  cases p with
  | arriving =>
    obtain ⟨hv, hpc⟩ := hhere
    refine h.move rfl rfl ⟨hv.setLoop (.inl rfl), ?_⟩
    exact hpc.imp_right fun hpc => hpc.imp_right fun ⟨hpc, hcreated⟩ => ⟨hpc, hcreated.congr rfl rfl⟩
  | refused r => exact h.move rfl rfl ⟨hhere.1.setLoop (.inl rfl), hhere.2⟩
  | settled r => exact h.move rfl rfl ⟨hhere.1.setLoop (.inl rfl), hhere.2⟩
  | queued | taken | running | ran r => exact (hnot hhere.1 (by rintro ⟨⟩)).elim

theorem createTask_ok {a : SubmitArgs ρ κ χ} (h : a.run.isSome = true) :
    ∃ task, createTask a .ok = some task ∧ task.run = a.run ∧ task.context = a.context ∧
      task.wait = a.wait ∧ task.done = false ∧ task.next = none := by
  obtain ⟨f, hf⟩ := Option.isSome_iff_exists.mp h
  rw [createTask, hf, Option.map_some]
  exact ⟨_, rfl, rfl, rfl, rfl, rfl, rfl⟩

theorem createTask_starved (a : SubmitArgs ρ κ χ) {o : CreateOutcome} (h : o ≠ .ok) :
    createTask a o = none := by
  cases o with
  | ok => exact (h rfl).elim
  | callocFails | mutexInitFails | condInitFails => rfl

theorem Solo.create {c : TaskId} {p : Place} (h : Solo s c p) (hv : Vacant s)
    (hpc : s.submits c = .creating) {o : CreateOutcome} (hx : deviceWorkerSubmit s c o = some s') :
    Solo s' c .arriving ∨ o ≠ .ok ∧ Solo s' c (.refused DeviceResult.deviceFailed) := by
  simp only [deviceWorkerSubmit, hpc] at hx
  by_cases ho : o = .ok
  · obtain ⟨task, htask, hrun, hcontext, hwait, hdone, hnext⟩ := createTask_ok h.run
    rw [ho, htask] at hx
    obtain rfl := Option.some.inj hx
    have hheap : (((s.setTask c task).emit (.create c)).setSubmit c .created).heap c = task :=
      Function.update_self ..
    have hcreated : Created (((s.setTask c task).emit (.create c)).setSubmit c .created) c :=
      ⟨by rw [hheap]; exact hrun, by rw [hheap]; exact hcontext,
        by rw [hheap, hwait]; exact h.wait, by rw [hheap]; exact hdone, by rw [hheap]; exact hnext⟩
    exact .inl (h.moveCall rfl (fun d hd => Function.update_of_ne hd ..)
      ⟨⟨hv.loop, hv.head, hv.tail⟩, .inr (.inr ⟨Function.update_self .., hcreated⟩)⟩)
  · rw [createTask_starved _ ho] at hx
    obtain rfl := Option.some.inj hx
    exact .inr ⟨ho, h.moveCall rfl (fun d hd => Function.update_of_ne hd ..)
      ⟨⟨hv.loop, hv.head, hv.tail⟩, by decide, .inl (Function.update_self ..)⟩⟩

theorem Solo.link {c : TaskId} {p : Place} (h : Solo s c p) (hs : InService s) (hv : Vacant s)
    (hpc : s.submits c = .created) (hcreated : Created s c) {o : CreateOutcome}
    (hx : deviceWorkerSubmit s c o = some s') : Solo s' c .queued := by
  simp only [deviceWorkerSubmit, hpc, hs.lockAlive, hs.running, Bool.not_true, Bool.false_eq_true,
    if_false, h.wait, if_true, Option.some.injEq, linkTask, hv.tail] at hx
  rw [State.signalWorker_eq] at hx
  obtain rfl := hx
  have hloop : (if s.loop = .asleep then LoopPc.top else s.loop) = .top := by
    rcases hv.loop with hl | hl <;> simp [hl]
  exact h.moveCall rfl (fun d hd => Function.update_of_ne hd ..)
    ⟨hloop, rfl, rfl, hcreated.congr rfl rfl, .inl (Function.update_self ..)⟩

theorem Awaited.submit {c : TaskId} (h : Awaited s c) {o : CreateOutcome}
    (hx : deviceWorkerSubmit s c o = some s') : s' = (s.emit (.touch c)).setSubmit c .asleep := by
  rcases h.pc with hpc | hpc
  · simp only [deviceWorkerSubmit, hpc, h.done, Bool.false_eq_true, if_false, Option.some.injEq] at hx
    exact hx.symm
  · rw [deviceWorkerSubmit, hpc] at hx
    cases hx

theorem Awaited.asleep {c : TaskId} (h : Awaited s c) :
    Awaited ((s.emit (.touch c)).setSubmit c .asleep) c :=
  ⟨h.toCreated.congr rfl rfl, .inr (Function.update_self ..)⟩

theorem Solo.take {c : TaskId} {r : Int} (h : Solo s c (.settled r)) {o : CreateOutcome}
    (hx : deviceWorkerSubmit s c o = some s') : Solo s' c (.settled r) := by
  obtain ⟨hv, ⟨hpc, hdone, hresult⟩ | hpc | hpc | hpc⟩ := h.here
  · simp only [deviceWorkerSubmit, hpc, hdone, if_true, Option.some.injEq, hresult] at hx
    obtain rfl := hx
    exact h.moveCall rfl (fun d hd => Function.update_of_ne hd ..)
      ⟨⟨hv.loop, hv.head, hv.tail⟩, .inr (.inl (Function.update_self ..))⟩
  · simp only [deviceWorkerSubmit, hpc, Option.some.injEq] at hx
    obtain rfl := hx
    exact h.moveCall rfl (fun d hd => Function.update_of_ne hd ..)
      ⟨⟨hv.loop, hv.head, hv.tail⟩, .inr (.inr (.inl (Function.update_self ..)))⟩
  · simp only [deviceWorkerSubmit, hpc, Option.some.injEq] at hx
    obtain rfl := hx
    exact h.moveCall rfl (fun d hd => Function.update_of_ne hd ..)
      ⟨⟨hv.loop, hv.head, hv.tail⟩, .inr (.inr (.inr (Function.update_self ..)))⟩
  · rw [deviceWorkerSubmit, hpc] at hx
    cases hx

theorem Solo.submit {c : TaskId} {p : Place} (h : Solo s c p) (hs : InService s) {o : CreateOutcome}
    (hx : deviceWorkerSubmit s c o = some s') :
    ∃ q, Solo s' c q ∧ q.result = p.result ∧
      ∀ r, q = .refused r → p = .refused r ∨ s.submits c = .creating ∧ o ≠ .ok := by
  have hhere := h.here
  cases p with
  | arriving =>
    obtain ⟨hv, hpc | hpc | ⟨hpc, hcreated⟩⟩ := hhere
    · simp only [deviceWorkerSubmit, hpc, hs.started, if_true, Option.some.injEq] at hx
      obtain rfl := hx
      exact ⟨.arriving, h.moveCall rfl (fun d hd => Function.update_of_ne hd ..)
        ⟨⟨hv.loop, hv.head, hv.tail⟩, .inr (.inl (Function.update_self ..))⟩, rfl, nofun⟩
    · rcases h.create hv hpc hx with hsolo | ⟨ho, hsolo⟩
      · exact ⟨.arriving, hsolo, rfl, nofun⟩
      · exact ⟨.refused _, hsolo, rfl, fun _ _ => .inr ⟨hpc, ho⟩⟩
    · exact ⟨.queued, h.link hs hv hpc hcreated hx, rfl, nofun⟩
  | refused r =>
    obtain ⟨hv, hr, hpc | hpc⟩ := hhere
    · simp only [deviceWorkerSubmit, hpc, Option.some.injEq] at hx
      obtain rfl := hx
      exact ⟨.refused r, h.moveCall rfl (fun d hd => Function.update_of_ne hd ..)
        ⟨⟨hv.loop, hv.head, hv.tail⟩, hr, .inr (Function.update_self ..)⟩, rfl, fun _ => .inl⟩
    · rw [deviceWorkerSubmit, hpc] at hx
      cases hx
  -- from here on the submitter sleeps until its task is settled
  | queued =>
    obtain ⟨hl, hhead, htail, hawaited⟩ := hhere
    obtain rfl := hawaited.submit hx
    exact ⟨.queued, h.moveCall rfl (fun d hd => Function.update_of_ne hd ..)
      ⟨hl, hhead, htail, hawaited.asleep⟩, rfl, nofun⟩
  | taken =>
    obtain ⟨hl, hhead, htail, hawaited⟩ := hhere
    obtain rfl := hawaited.submit hx
    exact ⟨.taken, h.moveCall rfl (fun d hd => Function.update_of_ne hd ..)
      ⟨hl, hhead, htail, hawaited.asleep⟩, rfl, nofun⟩
  | running =>
    obtain ⟨hl, hhead, htail, hawaited⟩ := hhere
    obtain rfl := hawaited.submit hx
    exact ⟨.running, h.moveCall rfl (fun d hd => Function.update_of_ne hd ..)
      ⟨hl, hhead, htail, hawaited.asleep⟩, rfl, nofun⟩
  | ran r =>
    obtain ⟨hl, hhead, htail, hawaited⟩ := hhere
    obtain rfl := hawaited.submit hx
    exact ⟨.ran r, h.moveCall rfl (fun d hd => Function.update_of_ne hd ..)
      ⟨hl, hhead, htail, hawaited.asleep⟩, rfl, nofun⟩
  | settled r => exact ⟨.settled r, h.take hx, rfl, nofun⟩

theorem Solo.submitWake {c : TaskId} {p : Place} (h : Solo s c p) (hpc : s.submits c = .asleep) :
    Solo (s.setSubmit c .waiting) c p := by
  have hawake : Awaited s c → Awaited (s.setSubmit c .waiting) c := fun hw =>
    ⟨hw.toCreated.congr rfl rfl, .inl (Function.update_self ..)⟩
  have hhere := h.here
  refine h.moveCall rfl (fun d hd => Function.update_of_ne hd ..) ?_
  cases p with
  | arriving => obtain ⟨-, h' | h' | ⟨h', -⟩⟩ := hhere <;> rw [hpc] at h' <;> cases h'
  | refused r => obtain ⟨-, -, h' | h'⟩ := hhere <;> rw [hpc] at h' <;> cases h'
  | settled r => obtain ⟨-, ⟨h', -⟩ | h' | h' | h'⟩ := hhere <;> rw [hpc] at h' <;> cases h'
  | queued | taken | running | ran r => exact hhere.imp id (.imp id (.imp id hawake))

theorem Solo.runReturn {c : TaskId} {p : Place} (h : Solo s c p) {r : Int}
    (hx : Worker.runReturn s r = some s') : p = .running ∧ Solo s' c (.ran r) := by
  have hvacant : Vacant s → False := fun hv => by
    rw [hv.not_running] at hx
    cases hx
  have hhere := h.here
  cases p with
  | arriving | refused | settled => exact (hvacant hhere.1).elim
  | running =>
    obtain ⟨hl, hhead, htail, hawaited⟩ := hhere
    simp only [Worker.runReturn, hl, Option.some.injEq] at hx
    obtain rfl := hx
    exact ⟨rfl, h.move rfl rfl ⟨rfl, hhead, htail, hawaited.congr rfl rfl rfl⟩⟩
  | queued | taken | ran =>
    rw [Worker.runReturn, hhere.1] at hx
    cases hx

theorem Solo.step {c : TaskId} {p : Place} (h : Solo s c p) (hs : InService s) {a : Action ρ κ χ}
    (hx : Worker.step s a = some s') (ha : a.calls = false) (hstop : a ≠ .stopCall) :
    ∃ q, Solo s' c q ∧ Place.Next s c a p q := by
  cases a with
  | submitCall | cancelCall => cases ha
  | stopCall => exact absurd rfl hstop
  | submit d o =>
    by_cases hd : d = c
    · subst hd
      obtain ⟨q, hsolo, hresult, hrefused⟩ := h.submit hs hx
      refine ⟨q, hsolo, .within (by rintro r ⟨⟩) hresult fun r hr => ?_⟩
      exact (hrefused r hr).imp_right fun ho => by simp [Action.starves, ho]
    · rw [Worker.step, submit_inactive (h.others d hd)] at hx
      cases hx
  | submitWake d =>
    simp only [Worker.step, Option.ite_none_right_eq_some] at hx
    obtain ⟨hasleep, hx⟩ := hx
    obtain rfl := Option.some.inj hx
    by_cases hd : d = c
    · subst hd
      exact ⟨p, h.submitWake hasleep, .within (by rintro r ⟨⟩) rfl fun _ => .inl⟩
    · have hinactive := h.others d hd
      rw [hasleep] at hinactive
      cases hinactive
  | loop =>
    obtain ⟨q, hsolo, hresult, hrefused⟩ := h.loop hs hx
    exact ⟨q, hsolo, .within (by rintro r ⟨⟩) hresult fun r hr => .inl (hrefused r hr)⟩
  | loopWake =>
    simp only [Worker.step, Option.ite_none_right_eq_some] at hx
    obtain ⟨hasleep, hx⟩ := hx
    obtain rfl := Option.some.inj hx
    exact ⟨p, h.loopWake hasleep, .within (by rintro r ⟨⟩) rfl fun _ => .inl⟩
  | runReturn r =>
    obtain ⟨rfl, hsolo⟩ := h.runReturn hx
    exact ⟨.ran r, hsolo, .ran rfl⟩
  | cancel k =>
    rw [Worker.step, cancel_inactive (hs.cancels k)] at hx
    cases hx
  | stop => simp only [Worker.step, deviceWorkerStop, hs.stop, reduceCtorEq] at hx

end RemoteDevice.Worker
