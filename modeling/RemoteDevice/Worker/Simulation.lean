import RemoteDevice.Worker.Branches
import RemoteDevice.Worker.Refinement

/-! Every run of the worker writes a history that the ledger allows. -/

namespace RemoteDevice.Worker
open Function (update)

variable {ρ κ χ : Type} {s s' : State ρ κ χ} {A : Ledger}

def Traced (s : State ρ κ χ) : Prop := ∃ A, Admits s.log A ∧ Refines s A

theorem Refines.setSubmit {c : TaskId} {pc : SubmitPc} (h : Refines s A)
    (hpc : SubmitOk (s.args c) (s.heap c) (A.life c) pc) : Refines (s.setSubmit c pc) A where
  queue := h.queue
  pending_iff := h.pending_iff
  hand := h.hand
  asleep := h.asleep
  exited := h.exited
  submit := fun t => by
    show SubmitOk _ _ _ (update s.submits c pc t)
    by_cases ht : t = c
    · subst t; rw [Function.update_self]; exact hpc
    · rw [Function.update_of_ne ht]; exact h.submit t
  task := h.task
  loop := h.loop
  cancel := h.cancel
  rest := h.rest

theorem Refines.emit (h : Refines s A) (e : Event) : Refines (s.emit e) A :=
  ⟨h.queue, h.pending_iff, h.hand, h.asleep, h.exited, h.submit, h.task, h.loop, h.cancel, h.rest⟩

theorem sameOutside_setSubmit (s : State ρ κ χ) (c : TaskId) (e : Event) (pc : SubmitPc) :
    SameOutside s ((s.emit e).setSubmit c pc) c :=
  ⟨rfl, rfl, rfl, fun _ _ => rfl, fun _ _ => rfl, fun _ ht => Function.update_of_ne ht ..⟩

theorem Refines.submit_move {c : TaskId} {e : Event} {pc : SubmitPc} {l : Life} (h : Refines s A)
    (ha : Admits s.log A) (he : A.step e = some (A.move c l))
    (hl : (A.life c).atSubmitter (s.args c).wait) (hl' : l.atSubmitter (s.args c).wait)
    (hpc : SubmitOk (s.args c) (s.heap c) l pc) (ht : TaskOk (s.args c) (s.heap c) l) :
    Traced ((s.emit e).setSubmit c pc) :=
  ⟨_, .cons e ha he, h.submit_step (sameOutside_setSubmit s c e pc) rfl rfl hl hl'
    (by simpa [State.setSubmit, State.emit] using hpc) ht⟩

theorem TaskOk.of_allocated {a : SubmitArgs ρ κ χ} {task : DeviceTask ρ κ χ} {l l' : Life}
    (h : TaskOk a task l) (hl : l.allocated) (hc : l' ≠ .created) (hp : ¬ l'.posted) :
    TaskOk a task l' :=
  ⟨fun _ => h.fields hl, fun e => (hc e).elim, fun e => (e.elim hc hp).elim⟩

theorem TaskOk.of_not_allocated {a : SubmitArgs ρ κ χ} {task : DeviceTask ρ κ χ} {l : Life}
    (hl : ¬ l.allocated) : TaskOk a task l :=
  ⟨fun e => (hl e).elim, by rintro rfl; exact (hl rfl).elim,
    fun e => (hl (e.elim (fun e => e ▸ rfl) Life.posted.allocated)).elim⟩

theorem TaskOk.cleaned {a : SubmitArgs ρ κ χ} {task : DeviceTask ρ κ χ} {l : Life} {f : Fate}
    (h : TaskOk a task l) (hl : l.allocated) : TaskOk a task (.cleaned f) :=
  h.of_allocated hl nofun id

theorem TaskOk.gone {a : SubmitArgs ρ κ χ} {task : DeviceTask ρ κ χ} {l : Life} {f : Fate}
    (h : TaskOk a task l) (hl : l.allocated) : TaskOk a task (.gone f) :=
  h.of_allocated hl nofun id

theorem submitCall_traced {c : TaskId} {a : SubmitArgs ρ κ χ} (h : Refines s A)
    (ha : Admits s.log A) (hc : s.submits c = .idle) :
    Traced (({ s with args := update s.args c a }.emit (.submit c)).setSubmit c .called) := by
  have hl : A.life c = .unborn := by simpa [hc, SubmitOk] using h.submit c
  refine ⟨A.move c .offered, .cons _ ha (by simp [Ledger.step, hl]), ?_⟩
  refine h.submit_step ⟨rfl, rfl, rfl, fun _ _ => rfl, fun t ht => Function.update_of_ne ht ..,
    fun t ht => Function.update_of_ne ht ..⟩ rfl rfl (by rw [hl]; trivial) trivial ?_
    (.of_not_allocated (by rintro ⟨⟩))
  simp [State.setSubmit, State.emit, SubmitOk]

theorem createTask_fields {a : SubmitArgs ρ κ χ} {o : CreateOutcome} {task : DeviceTask ρ κ χ}
    (h : createTask a o = some task) : TaskOk a task .created := by
  cases o with
  | ok =>
    simp only [createTask, Option.map_eq_some_iff] at h
    obtain ⟨f, hf, rfl⟩ := h
    exact ⟨fun _ => ⟨hf.symm, rfl, rfl, rfl⟩, fun _ => rfl, fun _ => rfl⟩
  | callocFails | mutexInitFails | condInitFails => cases h

theorem Ledger.step_touch {c : TaskId} (h : (A.life c).posted) : A.step (.touch c) = some A := by
  cases hl : A.life c <;> simp_all [Ledger.step, Life.posted]

theorem linkTask_admits (h : Refines s A) (ha : Admits s.log A) (c : TaskId) :
    Admits (linkTask s c).log A := by
  unfold linkTask
  cases ht : s.tail with
  | none => exact ha
  | some l =>
    exact .cons _ ha (Ledger.step_touch (by rw [h.tail_queued ht]; trivial))

theorem touch_admits {c : TaskId} (ha : Admits s.log A)
    (hc : (A.life c).posted ∨ ∃ f, A.life c = .settled f) : Admits (.touch c :: s.log) A := by
  refine .cons _ ha ?_
  rcases hc with hp | ⟨f, hl⟩
  · exact Ledger.step_touch hp
  · simp [Ledger.step, hl]

theorem deviceWorkerSubmit_traced {c : TaskId} {o : CreateOutcome} (h : Refines s A)
    (ha : Admits s.log A) (hs : deviceWorkerSubmit s c o = some s') : Traced s' := by
  have hsub := h.submit c
  have htask := h.task c
  cases submit_branch hs with
  | enters hpc =>
    rw [hpc] at hsub
    exact ⟨A, ha, h.setSubmit hsub⟩
  | unstarted hpc =>
    rw [hpc] at hsub
    exact ⟨A, ha, h.setSubmit ⟨hsub, .inl rfl⟩⟩
  | creates task hpc ht =>
    rw [hpc] at hsub
    have hl : A.life c = .offered := hsub
    refine ⟨A.move c .created, .cons _ ha (by simp [Ledger.step, hl]), ?_⟩
    -- only the record and the arguments of the new task are written
    refine h.submit_step ⟨rfl, rfl, rfl, fun t ht => Function.update_of_ne ht ..,
      fun _ _ => rfl, fun t ht => Function.update_of_ne ht ..⟩ rfl rfl (by rw [hl]; trivial)
      trivial ?_ ?_
    · simp [State.setSubmit, SubmitOk]
    · simpa [State.setSubmit, State.emit, State.setTask] using createTask_fields ht
  | starves hpc =>
    rw [hpc] at hsub
    exact ⟨A, ha, h.setSubmit ⟨hsub, .inr rfl⟩⟩
  | rejects r hpc =>
    rw [hpc] at hsub
    obtain ⟨hl, hr⟩ := hsub
    exact h.submit_move (l := .rejected) ha (by simp [Ledger.step, hl]) (by rw [hl]; trivial)
      trivial (.inl ⟨rfl, hr⟩) (.of_not_allocated (by rintro ⟨⟩))
  | refuses hpc =>
    rw [hpc] at hsub
    have hl : A.life c = .created := hsub
    have hnot : ¬ (Life.ended .refused).posted := fun hp => hp rfl
    exact h.submit_move (l := .ended .refused) ha (by simp [Ledger.step, hl])
      (by rw [hl]; trivial) rfl rfl (htask.of_allocated (by rw [hl]; trivial) (by rintro ⟨⟩) hnot)
  | appends hpc _ hrunning =>
    rw [hpc] at hsub
    have hl : A.life c = .created := hsub
    refine ⟨_, ?_, h.append hl hrunning rfl⟩
    have hlink := linkTask_admits h ha c
    rw [State.signalWorker_eq]
    exact .cons (.append c) hlink (by simp [Ledger.step, hl])
  | refusedCleans hpc =>
    rw [hpc] at hsub
    have hl : A.life c = .ended .refused := hsub
    exact h.submit_move (l := .cleaned .refused) ha (by simp [Ledger.step, hl]) (by rw [hl]; rfl)
      (.inl rfl) rfl (htask.cleaned (by rw [hl]; trivial))
  | refusedDestroys hpc =>
    rw [hpc] at hsub
    have hl : A.life c = .cleaned .refused := hsub
    exact h.submit_move (l := .gone .refused) ha (by simp [Ledger.step, hl])
      (by rw [hl]; exact .inl rfl) trivial (.inr (.inl ⟨rfl, rfl⟩)) (htask.gone (by rw [hl]; trivial))
  | finishes hpc hdone =>
    rw [hpc] at hsub
    obtain ⟨hw, hsub⟩ := hsub
    have hadm := touch_admits ha (hsub.imp_right (Exists.imp fun _ hf => hf.2.1))
    refine ⟨A, hadm, (h.emit _).setSubmit ⟨hw, ?_⟩⟩
    -- a task that is still with the worker is not done yet
    rcases hsub with hp | ⟨f, hf, hl, -, hr⟩
    · exact absurd (htask.undone (.inr hp)) (by simp [hdone])
    · exact ⟨f, hf, hl, hr⟩
  | sleeps hpc hdone =>
    rw [hpc] at hsub
    obtain ⟨hw, hsub⟩ := hsub
    have hadm := touch_admits ha (hsub.imp_right (Exists.imp fun _ hf => hf.2.1))
    refine ⟨A, hadm, (h.emit _).setSubmit ⟨hw, ?_⟩⟩
    rcases hsub with hp | ⟨f, -, -, hd, -⟩
    · exact hp
    · cases hdone.symm.trans hd
  | cleans r hpc =>
    rw [hpc] at hsub
    obtain ⟨hw, f, hf, hl, rfl⟩ := hsub
    exact h.submit_move (l := .cleaned f) ha (by simp [Ledger.step, hl]) (by rw [hl]; trivial)
      (.inr hw) ⟨hw, f, hf, rfl, rfl⟩ (htask.cleaned (by rw [hl]; trivial))
  | destroys r hpc =>
    rw [hpc] at hsub
    obtain ⟨hw, f, hf, hl, rfl⟩ := hsub
    exact h.submit_move (l := .gone f) ha (by simp [Ledger.step, hl]) (by rw [hl]; exact .inr hw)
      trivial (.inr (.inr (.inl ⟨hw, f, hf, rfl, rfl⟩))) (htask.gone (by rw [hl]; trivial))

/-! ## The worker thread -/

theorem sameOutside_setLoop (s : State ρ κ χ) (c : TaskId) (e : Event) (pc : LoopPc) :
    SameOutside s ((s.emit e).setLoop pc) c :=
  ⟨rfl, rfl, rfl, fun _ _ => rfl, fun _ _ => rfl, fun _ _ => rfl⟩

theorem settleTask_submitOk {c : TaskId} {r : Int} {f : Fate} {l : Life}
    (h : SubmitOk (s.args c) (s.heap c) l (s.submits c)) (hl : l.posted)
    (hwait : (s.args c).wait = true) (hf : f.disposed) (hr : r = f.result) :
    SubmitOk (s.args c) ((settleTask s c r).heap c) (.settled f) ((settleTask s c r).submits c) := by
  have hpc := (SubmitOk.posted_iff hl).mp h
  have hwaiting : (settleTask s c r).submits c = .waiting := by
    obtain ⟨-, hp | hp⟩ | ⟨hw', -⟩ := hpc
    · simp [settleTask, State.signalTask, State.setTask, State.emit, hp]
    · simp [settleTask, State.signalTask, State.setTask, State.emit, State.setSubmit, hp]
    · simp [hwait] at hw'
  rw [hwaiting]
  refine ⟨hwait, .inr ⟨f, hf, rfl, ?_⟩⟩
  unfold settleTask State.signalTask
  split <;> simp [State.setTask, State.emit, State.setSubmit, hr]

theorem settleTask_taskOk {c : TaskId} {r : Int} {f : Fate} {l : Life}
    (h : TaskOk (s.args c) (s.heap c) l) (hl : l.allocated) :
    TaskOk (s.args c) ((settleTask s c r).heap c) (.settled f) := by
  rw [settleTask_heap_self]
  exact ⟨fun _ => h.fields hl, nofun, fun e => (e.resolve_left nofun).elim⟩

theorem settleTask_sameOutside (s : State ρ κ χ) (c : TaskId) (r : Int) :
    SameOutside s (settleTask s c r) c := by
  unfold settleTask State.signalTask
  split
  · exact ⟨rfl, rfl, rfl, fun t ht => Function.update_of_ne ht .., fun _ _ => rfl,
      fun t ht => Function.update_of_ne ht ..⟩
  · exact ⟨rfl, rfl, rfl, fun t ht => Function.update_of_ne ht .., fun _ _ => rfl, fun _ _ => rfl⟩

theorem Refines.setLoop {pc : LoopPc} (h : Refines s A) (hold : s.loop.task = none)
    (hnew : pc.task = none) (hasleep : pc = .asleep → s.running = true ∧ A.pending = [])
    (hexited : pc = .exited → s.running = false ∧ A.pending = []) : Refines (s.setLoop pc) A where
  queue := h.queue
  pending_iff := h.pending_iff
  hand := by
    have hh : ∀ pc : LoopPc, pc.task = none → pc.hand = none := fun pc e => by
      cases pc <;> first | rfl | cases e
    rw [h.hand, hh _ hold]
    exact (hh _ hnew).symm
  asleep := hasleep
  exited := hexited
  submit := h.submit
  task := h.task
  loop := fun t => (h.loop t).of_ne (by rw [hold]; nofun) (by show pc.task ≠ _; rw [hnew]; nofun)
  cancel := h.cancel
  rest := h.rest

theorem Refines.worker_admits {t : TaskId} {l : Life} {e : Event} {pc : LoopPc} (h : Refines s A)
    (ha : Admits s.log A) (hloop : s.loop.hand = none) (hpc : pc.hand = none)
    (he : A.step e = some (A.move t l)) :
    Admits (e :: s.log) { A.move t l with hand := pc.hand } := by
  have hhand : (A.move t l).hand = pc.hand := by rw [hpc, ← hloop]; exact h.hand
  rw [← hhand]
  exact .cons e ha he

theorem deviceWorkerLoop_traced (h : Refines s A) (ha : Admits s.log A)
    (hs : deviceWorkerLoop s = some s') : Traced s' := by
  have hnone : s.loop = .top → s.loop.task = none := fun hpc => by
    rw [hpc]
    rfl
  cases loop_branch hs with
  | sleeps hpc _ hrunning hhead =>
    exact ⟨A, ha, h.setLoop (hnone hpc) rfl (fun _ => ⟨hrunning, h.queue.head_none.mp hhead⟩)
      (by rintro ⟨⟩)⟩
  | exits hpc _ hrunning hhead =>
    exact ⟨A, ha, h.setLoop (hnone hpc) rfl (by rintro ⟨⟩)
      fun _ => ⟨hrunning, h.queue.head_none.mp hhead⟩⟩
  | dequeues t hpc _ hhead =>
    -- the head of the linked list is the oldest task of the queue
    obtain ⟨q, hq⟩ : ∃ q, A.pending = t :: q := by
      rw [h.queue.head_eq, List.head?_eq_some_iff] at hhead
      exact hhead
    refine ⟨_, .cons _ ha ?_, h.dequeue hq hpc⟩
    have hhand : A.hand = none := by rw [h.hand, hpc]; rfl
    have hlife : A.life t = .queued := (h.pending_iff t).mp (by simp [hq])
    simp [Ledger.step, hq, hhand, hlife]
  | calls t hpc =>
    have hlife := (h.loop t).taken.mp hpc
    have hp : (A.life t).posted := by rw [hlife]; trivial
    refine ⟨_, .cons (.runCall t) ha (by simp [Ledger.step, hlife, State.setLoop, LoopPc.hand]),
      h.worker_step (l := .running) (sameOutside_setLoop s t _ _) rfl rfl (by rw [hpc]; rfl)
        (.inl rfl) (by rintro ⟨⟩) ?_ (fun _ => id) ((h.submit t).of_posted hp trivial)
        ((h.task t).of_posted hp (show Life.posted .running from trivial) _)⟩
    constructor <;> simp [State.setLoop]
  | settles t r hpc hw =>
    have hlife := ((h.loop t).ran r).mp hpc
    have hf := Fate.ran_disposed r
    have hp : (A.life t).posted := by rw [hlife]; exact hf
    have hwait : (s.heap t).wait = (s.args t).wait := ((h.task t).fields hp.allocated).2.2.2
    -- from here on the result and the clean-up are the waiting submitter's
    have hso := settleTask_sameOutside s t r
    refine ⟨_, ?_, h.worker_step (l := .settled (.ran r))
      ⟨hso.head, hso.tail, hso.running, hso.heap, hso.args, hso.submits⟩ (settleTask_args s t r)
      (settleTask_cancels s t r) (by rw [hpc]; rfl) (.inr rfl) (by rintro ⟨⟩)
      (.of_not_atWorker id (by rintro ⟨⟩))
      (fun _ => id) (settleTask_submitOk (h.submit t) hp (hwait ▸ hw) hf rfl) ?_⟩
    · show Admits (settleTask s t r).log _
      rw [settleTask_log]
      exact h.worker_admits ha (by rw [hpc]; rfl) rfl (by simp [Ledger.step, hlife])
    · exact settleTask_taskOk (h.task t) hp.allocated
  | cleans t r hpc hw =>
    have hlife := ((h.loop t).ran r).mp hpc
    have hf := Fate.ran_disposed r
    have hp : (A.life t).posted := by rw [hlife]; exact hf
    have hwait : (s.heap t).wait = (s.args t).wait := ((h.task t).fields hp.allocated).2.2.2
    have hw' : (s.args t).wait = false := hwait.symm.trans hw
    refine ⟨_, ?_, h.worker_step (l := .cleaned (.ran r))
      (sameOutside_setLoop s t _ (.cleaned t)) rfl rfl (by rw [hpc]; rfl) (.inl rfl) (by rintro ⟨⟩) ?_
      (fun _ => id) ((h.submit t).cleaned hp hw' hf) ((h.task t).cleaned hp.allocated)⟩
    · exact h.worker_admits ha (by rw [hpc]; rfl) rfl (by simp [Ledger.step, hlife])
    · constructor <;> simp [State.setLoop, hw']
  | destroys t hpc =>
    obtain ⟨hw, r, hlife⟩ := (h.loop t).cleaned.mp hpc
    refine ⟨_, ?_, h.worker_step (l := .gone (.ran r)) (sameOutside_setLoop s t (.destroy t) .top)
      rfl rfl (by rw [hpc]; rfl) (.inr rfl) (by rintro ⟨⟩)
        (.of_not_atWorker id (by rintro ⟨⟩)) (fun _ => id)
      ((hlife ▸ h.submit t).gone hw (Fate.ran_disposed r)) ((h.task t).gone (by rw [hlife]; trivial))⟩
    exact h.worker_admits ha (by rw [hpc]; rfl) rfl (by simp [Ledger.step, hlife])

theorem runReturn_traced {r : Int} (h : Refines s A) (ha : Admits s.log A)
    (hs : runReturn s r = some s') : Traced s' := by
  obtain ⟨t, hl, rfl⟩ := runReturn_eq hs
  have hlife := (h.loop t).running.mp hl
  have hp : (A.life t).posted := by rw [hlife]; trivial
  have hf : Life.posted (.ended (.ran r)) := (nofun : Fate.ran r ≠ .refused)
  refine ⟨_, ?_, h.worker_step (l := .ended (.ran r))
    (sameOutside_setLoop s t (.runReturn t r) (.ran t r)) rfl rfl (by rw [hl]; rfl)
    (.inl rfl) nofun ?_ (fun _ => id) ((h.submit t).of_posted hp hf) ((h.task t).of_posted hp hf _)⟩
  · exact h.worker_admits ha (by rw [hl]; rfl) rfl (by simp [Ledger.step, hlife])
  · constructor <;> simp [State.setLoop]

/-! ## The cancelling calls and the stop -/

theorem Refines.setCancel {k : CancelId} {pc : CancelPc} (h : Refines s A)
    (hrest : ∀ cur code, pc.rest = some (cur, code) → (s.cancels k).rest = some (cur, code))
    (hdet : ∀ t code, A.life t = .detached k code → ∃ cur, pc.rest = some (cur, code))
    (hold : ∀ t n code, s.cancels k ≠ .cleaned t n code)
    (hnew : ∀ t n code, pc ≠ .cleaned t n code) : Refines (s.setCancel k pc) A where
  queue := h.queue
  pending_iff := h.pending_iff
  hand := h.hand
  asleep := h.asleep
  exited := h.exited
  submit := h.submit
  task := h.task
  loop := h.loop
  cancel := fun k' t => by
    show CancelOk (update s.cancels k pc k') _ _ _ _
    by_cases hk : k' = k
    · subst k'
      rw [Function.update_self]
      obtain ⟨h1, h2, -⟩ := h.cancel k t
      refine ⟨fun code => ⟨fun ⟨n, hn⟩ => (hnew _ _ _ hn).elim, fun hc => ?_⟩, h2, hdet t⟩
      obtain ⟨n, hn⟩ := (h1 code).mpr hc
      exact (hold _ _ _ hn).elim
    · rw [Function.update_of_ne hk]; exact h.cancel k' t
  rest := fun k' cur code hk' => by
    change (update s.cancels k pc k').rest = _ at hk'
    by_cases hk : k' = k
    · subst k'
      rw [Function.update_self] at hk'
      exact h.rest k cur code (hrest cur code hk')
    · rw [Function.update_of_ne hk] at hk'; exact h.rest k' cur code hk'

theorem Refines.cancel_released {k k' : CancelId} {c : TaskId} {l : Life} {pc : CancelPc}
    (h : Refines s A) (hlife : (A.life c).atCanceller k (s.args c).wait)
    (hl : ∀ k', ¬ l.atCanceller k' (s.args c).wait) (hpc : ∀ n code, pc ≠ .cleaned c n code) :
    CancelOk (update s.cancels k pc k') k' (s.args c).wait c l := by
  refine .of_not_atCanceller (hl k') fun n code => ?_
  by_cases hk : k' = k
  · subst k'
    rw [Function.update_self]
    exact hpc n code
  · rw [Function.update_of_ne hk]
    exact (h.cancel k' c).not_cleaned (fun e => hk (e.canceller_unique hlife)) n code

structure Unlinked (s s₁ : State ρ κ χ) (k : CancelId) (t : TaskId) (code : Int) : Prop where
  same : SameOutside s s₁ t
  heap : s₁.heap t = { s.heap t with next := none }
  args : s₁.args = s.args
  submits : s₁.submits = s.submits
  cancels : s₁.cancels = s.cancels
  loop : s₁.loop = s.loop
  log : s₁.log = .cancel k t code :: s.log

theorem unlinked (s : State ρ κ χ) (k : CancelId) (t : TaskId) (code : Int) :
    Unlinked s ((s.setTask t { s.heap t with next := none }).emit (.cancel k t code)) k t code :=
  ⟨⟨rfl, rfl, rfl, fun _ hu => Function.update_of_ne hu .., fun _ _ => rfl, fun _ _ => rfl⟩,
    Function.update_self .., rfl, rfl, rfl, rfl, rfl⟩

section CancelTask

variable {s₁ : State ρ κ χ} {k : CancelId} {t : TaskId} {code : Int}

theorem Refines.next_detached (h : Refines s A) (hk : s.cancels k = .next (some t) code) :
    A.life t = .detached k code := by
  rcases (h.cancel_holds (.inl ⟨hk, rfl⟩)).1 with hl | ⟨hw, hl⟩
  · exact hl
  · obtain ⟨n, hn⟩ := ((h.cancel k t).cleaned code).mpr ⟨hw, hl⟩
    rw [hk] at hn
    cases hn

/-- The `cancel` event and the `settle` or `cleanup` event after it, as one move. -/
theorem cancel_admits {e : Event} {l : Life} (ha : Admits s.log A)
    (hlife : A.life t = .detached k code) (he : (A.move t (.ended (.cancelled k code))).step e =
      some ((A.move t (.ended (.cancelled k code))).move t l)) :
    Admits (e :: .cancel k t code :: s.log) (A.move t l) := by
  have hmove : (A.move t (.ended (.cancelled k code))).move t l = A.move t l := by
    simp [Ledger.move]
  rw [← hmove]
  exact .cons e (.cons _ ha (by simp [Ledger.step, hlife])) he

theorem cancelTask_settled (h : Refines s A) (ha : Admits s.log A)
    (hk : s.cancels k = .next (some t) code) (hu : Unlinked s s₁ k t code)
    (hwait : (s.args t).wait = true) :
    Traced ((settleTask s₁ t code).setCancel k (.next (s.next t) code)) := by
  have hlife := h.next_detached hk
  have hp : (A.life t).posted := by rw [hlife]; trivial
  have hso := hu.same.trans (settleTask_sameOutside s₁ t code)
  refine ⟨A.move t (.settled (.cancelled k code)), ?_, ?_⟩
  · show Admits (settleTask s₁ t code).log _
    rw [settleTask_log, hu.log]
    exact cancel_admits ha hlife (by simp [Ledger.step])
  refine h.cancel_step (p := .next (s.next t) code)
    ⟨hso.head, hso.tail, hso.running, hso.heap, hso.args, hso.submits⟩
    ((settleTask_args ..).trans hu.args) ((settleTask_loop ..).trans hu.loop) ?_ (.inl ⟨hk, rfl⟩)
    (.inl rfl) id (by rintro ⟨⟩) (by rintro _ _ ⟨⟩) ?_ ?_ ?_
  · exact congrArg (fun f => update f k _) ((settleTask_cancels ..).trans hu.cancels)
  · exact fun k' => h.cancel_released (by rw [hlife]; exact rfl) (fun _ => id) (by rintro _ _ ⟨⟩)
  · have hsub : SubmitOk (s₁.args t) (s₁.heap t) (A.life t) (s₁.submits t) := by
      rw [hu.args, hu.heap, hu.submits]
      exact (h.submit t).relink none
    rw [← hu.args]
    exact settleTask_submitOk hsub hp (hu.args ▸ hwait) (Fate.cancelled_disposed k code) rfl
  · have htask : TaskOk (s₁.args t) (s₁.heap t) (A.life t) := by
      rw [hu.args, hu.heap]
      exact (h.task t).relink (by rw [hlife]; rintro ⟨⟩) none
    rw [← hu.args]
    exact settleTask_taskOk htask hp.allocated

theorem cancelTask_cleaned (h : Refines s A) (ha : Admits s.log A)
    (hk : s.cancels k = .next (some t) code) (hu : Unlinked s s₁ k t code)
    (hwait : (s.args t).wait = false) :
    Traced ((cleanupTask s₁ t).setCancel k (.cleaned t (s.next t) code)) := by
  have hlife := h.next_detached hk
  have hp : (A.life t).posted := by rw [hlife]; trivial
  have hso := hu.same
  refine ⟨A.move t (.cleaned (.cancelled k code)), ?_, ?_⟩
  · show Admits (cleanupTask s₁ t).log _
    unfold cleanupTask State.emit
    rw [hu.log]
    exact cancel_admits ha hlife (by simp [Ledger.step])
  refine h.cancel_step (p := .cleaned t (s.next t) code)
    ⟨hso.head, hso.tail, hso.running, hso.heap, hso.args, hso.submits⟩ hu.args hu.loop
    (congrArg (fun f => update f k _) hu.cancels) (.inl ⟨hk, rfl⟩) (.inr rfl) id (by rintro ⟨⟩)
    (by rintro _ _ ⟨⟩) ?_ ?_ ?_
  · intro k'
    by_cases hk' : k' = k
    · subst k'
      rw [Function.update_self]
      constructor <;> simp [hwait]
    · rw [Function.update_of_ne hk']
      have hold : ¬ (A.life t).atCanceller k' (s.args t).wait := by
        rw [hlife]; exact Ne.symm hk'
      exact .of_not_atCanceller (fun e => hk' e.1.symm) ((h.cancel k' t).not_cleaned hold)
  · show SubmitOk _ (s₁.heap t) _ (s₁.submits t)
    rw [hu.heap, hu.submits]
    exact (h.submit t).cleaned hp hwait (Fate.cancelled_disposed k code)
  · show TaskOk _ (s₁.heap t) _
    rw [hu.heap]
    exact ((h.task t).relink (by rw [hlife]; rintro ⟨⟩) none).cleaned hp.allocated

theorem Refines.detached_wait (h : Refines s A) (hk : s.cancels k = .next (some t) code) :
    (s.heap t).wait = (s.args t).wait := by
  have hp : (A.life t).posted := by rw [h.next_detached hk]; trivial
  exact ((h.task t).fields hp.allocated).2.2.2

end CancelTask

theorem deviceWorkerCancelPending_traced {k : CancelId} (h : Refines s A) (ha : Admits s.log A)
    (hs : deviceWorkerCancelPending s k = some s') : Traced s' := by
  -- nothing is detached for a call that has not taken the queue, or has come to its end
  have hnone : ∀ {pc : CancelPc}, s.cancels k = pc → (∀ cur code, pc.rest = some (cur, code) →
      cur = none) → ∀ t code, A.life t ≠ .detached k code := by
    rintro pc hpc hrest t code hlife
    obtain ⟨cur, hr⟩ := (h.cancel k t).detached code hlife
    rw [hpc] at hr
    obtain rfl := hrest cur code hr
    obtain ⟨q, hch, hmem⟩ := h.rest k none code (by rw [hpc]; exact hr)
    obtain rfl : q = [] := hch.unique rfl
    exact absurd ((hmem t).mpr hlife) List.not_mem_nil
  cases cancel_branch hs with
  | enters code hpc | unstarted code hpc =>
    have hfree := hnone hpc (by rintro cur code' ⟨⟩)
    refine ⟨A, ha, h.setCancel (by rintro cur code' ⟨⟩) (fun t code' e => (hfree t code' e).elim)
      (by simp [hpc]) (by rintro _ _ _ ⟨⟩)⟩
  | detaches code hpc => exact ⟨_, .cons (.detach k code) ha rfl, h.detach hpc⟩
  | returns code hpc =>
    have hfree := hnone hpc (by rintro cur code' ⟨⟩; rfl)
    refine ⟨A, ha, h.setCancel (by rintro cur code' ⟨⟩) (fun t code' e => (hfree t code' e).elim)
      (by simp [hpc]) (by rintro _ _ _ ⟨⟩)⟩
  | settles t code hpc hw => exact cancelTask_settled h ha hpc (unlinked s k t code) (h.detached_wait hpc ▸ hw)
  | cleans t code hpc hw => exact cancelTask_cleaned h ha hpc (unlinked s k t code) (h.detached_wait hpc ▸ hw)
  | destroys t n code hpc =>
    obtain ⟨hw, hlife⟩ := ((h.cancel k t).cleaned code).mp ⟨n, hpc⟩
    have hdestroy : A.step (.destroy t) = some (A.move t (.gone (.cancelled k code))) := by
      simp [Ledger.step, hlife]
    refine ⟨A.move t (.gone (.cancelled k code)), .cons _ ha hdestroy, ?_⟩
    refine h.cancel_step (p := .next n code) ⟨rfl, rfl, rfl, fun _ _ => rfl, fun _ _ => rfl,
      fun _ _ => rfl⟩ rfl rfl rfl (.inr hpc) (.inl rfl) id (by rintro ⟨⟩) (by rintro _ _ ⟨⟩) (fun k' => ?_)
      ((hlife ▸ h.submit t).gone hw (Fate.cancelled_disposed k code)) ((h.task t).gone (by rw [hlife]; trivial))
    exact h.cancel_released (by rw [hlife]; exact ⟨rfl, hw⟩) (fun _ => id) (by rintro _ _ ⟨⟩)

theorem Refines.stopRunning (h : Refines s A) (pc : StopPc) :
    Refines { ({ s with running := false }.signalWorker) with stop := pc } A := by
  unfold State.signalWorker
  split
  · next hl =>
    have hl' : s.loop = .asleep := hl
    have htask : s.loop.task = none := by rw [hl']; rfl
    have htop : Refines (s.setLoop .top) A := h.setLoop htask rfl nofun nofun
    exact ⟨htop.queue, htop.pending_iff, htop.hand, nofun, nofun, htop.submit, htop.task, htop.loop,
      htop.cancel, htop.rest⟩
  · next hl =>
    exact ⟨h.queue, h.pending_iff, h.hand, fun e => (hl e).elim, fun e => ⟨rfl, (h.exited e).2⟩,
      h.submit, h.task, h.loop, h.cancel, h.rest⟩

theorem deviceWorkerStop_traced (h : Refines s A) (ha : Admits s.log A)
    (hs : deviceWorkerStop s = some s') : Traced s' := by
  have hother : ∀ pc started alive,
      Traced { s with stop := pc, started := started, lockAlive := alive } := fun _ _ _ =>
    ⟨A, ha, h.queue, h.pending_iff, h.hand, h.asleep, h.exited, h.submit, h.task, h.loop, h.cancel,
      h.rest⟩
  cases stop_branch hs with
  | stops =>
    refine ⟨A, ?_, h.stopRunning .joining⟩
    rw [State.signalWorker_eq]
    exact ha
  | enters | unstarted | joins | destroys | clears => exact hother _ _ _

theorem step_traced {a : Action ρ κ χ} (h : Traced s) (hs : step s a = some s') : Traced s' := by
  obtain ⟨A, ha, h⟩ := h
  cases a <;> simp only [step] at hs
  case submitCall c a =>
    split at hs <;> cases hs
    next hc => exact submitCall_traced h ha hc
  case submit c o => exact deviceWorkerSubmit_traced h ha hs
  case submitWake c =>
    split at hs <;> cases hs
    next hc =>
    obtain ⟨hw, hp⟩ : SubmitOk _ _ _ .asleep := hc ▸ h.submit c
    exact ⟨A, ha, h.setSubmit ⟨hw, .inl hp⟩⟩
  case loop => exact deviceWorkerLoop_traced h ha hs
  case loopWake =>
    split at hs <;> cases hs
    next hl => exact ⟨A, ha, h.setLoop (by rw [hl]; rfl) rfl nofun nofun⟩
  case runReturn r => exact runReturn_traced h ha hs
  case cancelCall k code =>
    split at hs <;> cases hs
    next hk =>
    refine ⟨A, ha, h.setCancel nofun (fun t code' e => ?_) (by simp [hk]) nofun⟩
    obtain ⟨cur, hr⟩ := (h.cancel k t).detached code' e
    rw [hk] at hr; cases hr
  case cancel k => exact deviceWorkerCancelPending_traced h ha hs
  case stopCall =>
    split at hs <;> cases hs
    exact ⟨A, ha, h.queue, h.pending_iff, h.hand, h.asleep, h.exited, h.submit, h.task, h.loop,
      h.cancel, h.rest⟩
  case stop => exact deviceWorkerStop_traced h ha hs

theorem Reachable.traced (h : Reachable s) : Traced s :=
  h.invariant (by rintro _ rfl; exact ⟨_, .nil, refines_start⟩) fun _ _ _ => step_traced

end RemoteDevice.Worker
