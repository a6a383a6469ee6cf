import RemoteDevice.Worker.Control

/-! The calls in progress across the steps of a worker: a step begins none but the one it names,
it only adds to the history, and a task is run only from the hands of the worker thread. -/

namespace RemoteDevice.Worker
open Function (update)

variable {ρ κ χ : Type} {s s' : State ρ κ χ}

def SubmitPc.active : SubmitPc → Bool
  | .idle | .returned _ => false
  | _ => true

def CancelPc.active : CancelPc → Bool
  | .idle | .returned => false
  | _ => true

def Event.isOwned : Event → Bool
  | .append _ | .runCall _ => true
  | _ => false

def Adds (P : Event → Prop) (old new : List Event) : Prop :=
  ∃ es, new = es ++ old ∧ ∀ e ∈ es, P e

structure Continues (P : Event → Prop) (s s' : State ρ κ χ) : Prop where
  submits : ∀ c, (s'.submits c).active = true → (s.submits c).active = true
  cancels : ∀ k, (s'.cancels k).active = true → (s.cancels k).active = true
  submitsIdle : ∀ c, s.submits c = .idle → s'.submits c = .idle
  cancelsIdle : ∀ k, s.cancels k = .idle → s'.cancels k = .idle
  args : s'.args = s.args
  log : Adds P s.log s'.log

variable {P : Event → Prop}

theorem Adds.refl (log : List Event) : Adds P log log := ⟨[], rfl, nofun⟩

theorem Adds.cons {e : Event} (log : List Event) (he : P e) : Adds P log (e :: log) :=
  ⟨[e], rfl, by simpa using he⟩

theorem Adds.trans {l₁ l₂ l₃ : List Event} (h : Adds P l₁ l₂) (h' : Adds P l₂ l₃) :
    Adds P l₁ l₃ := by
  obtain ⟨es, rfl, hes⟩ := h
  obtain ⟨es', rfl, hes'⟩ := h'
  refine ⟨es' ++ es, (List.append_assoc ..).symm, fun e he => ?_⟩
  exact (List.mem_append.mp he).elim (hes' e) (hes e)

theorem Continues.trans {s₁ s₂ s₃ : State ρ κ χ} (h : Continues P s₁ s₂)
    (h' : Continues P s₂ s₃) : Continues P s₁ s₃ :=
  ⟨fun c => h.submits c ∘ h'.submits c, fun k => h.cancels k ∘ h'.cancels k,
    fun c => h'.submitsIdle c ∘ h.submitsIdle c, fun k => h'.cancelsIdle k ∘ h.cancelsIdle k,
    h'.args.trans h.args, h.log.trans h'.log⟩

theorem Continues.silent (hsubmits : s'.submits = s.submits) (hcancels : s'.cancels = s.cancels)
    (hargs : s'.args = s.args) (hlog : Adds P s.log s'.log) : Continues P s s' :=
  ⟨fun c => by rw [hsubmits]; exact id, fun k => by rw [hcancels]; exact id,
    fun c => by rw [hsubmits]; exact id, fun k => by rw [hcancels]; exact id, hargs, hlog⟩

theorem continues_refl (s : State ρ κ χ) : Continues P s s := .silent rfl rfl rfl (.refl _)

theorem continues_emit (s : State ρ κ χ) {e : Event} (he : P e) : Continues P s (s.emit e) :=
  .silent rfl rfl rfl (.cons _ he)

theorem continues_setLoop (s : State ρ κ χ) (pc : LoopPc) : Continues P s (s.setLoop pc) :=
  .silent rfl rfl rfl (.refl _)

theorem continues_setSubmit {c : TaskId} (pc : SubmitPc) (h : (s.submits c).active = true) :
    Continues P s (s.setSubmit c pc) := by
  refine ⟨fun d hd => ?_, fun _ => id, fun d hd => ?_, fun _ => id, rfl, .refl _⟩
  · by_cases hdc : d = c
    · exact hdc ▸ h
    · simpa [State.setSubmit, Function.update_of_ne hdc] using hd
  · have hdc : d ≠ c := fun e => by rw [← e, hd] at h; cases h
    exact (Function.update_of_ne hdc _ _).trans hd

theorem continues_setCancel {k : CancelId} (pc : CancelPc) (h : (s.cancels k).active = true) :
    Continues P s (s.setCancel k pc) := by
  refine ⟨fun _ => id, fun d hd => ?_, fun _ => id, fun d hd => ?_, rfl, .refl _⟩
  · by_cases hdk : d = k
    · exact hdk ▸ h
    · simpa [State.setCancel, Function.update_of_ne hdk] using hd
  · have hdk : d ≠ k := fun e => by rw [← e, hd] at h; cases h
    exact (Function.update_of_ne hdk _ _).trans hd

theorem continues_signalWorker (s : State ρ κ χ) : Continues P s s.signalWorker := by
  rw [State.signalWorker_eq]
  exact continues_setLoop s _

theorem submit_active {c : TaskId} {o : CreateOutcome} (hs : deviceWorkerSubmit s c o = some s') :
    (s.submits c).active = true := by
  cases submit_branch hs <;> simp only [*] <;> rfl

theorem cancel_active {k : CancelId} (hs : deviceWorkerCancelPending s k = some s') :
    (s.cancels k).active = true := by
  cases cancel_branch hs <;> simp only [*] <;> rfl

section
variable (hP : ∀ e : Event, e.isOwned = false → P e)
include hP

theorem continues_settleTask (s : State ρ κ χ) (t : TaskId) (r : Int) :
    Continues P s (settleTask s t r) := by
  have hset : Continues P s (s.setTask t { s.heap t with result := r, done := true }) :=
    .silent rfl rfl rfl (.refl _)
  refine (hset.trans ?_).trans (continues_emit _ (hP _ rfl))
  unfold State.signalTask
  split
  · next h => exact continues_setSubmit .waiting (by rw [h]; rfl)
  · exact continues_refl _

theorem continues_linkTask (s : State ρ κ χ) (t : TaskId) : Continues P s (linkTask s t) := by
  unfold linkTask
  split
  · exact .silent rfl rfl rfl (.refl _)
  · exact .silent rfl rfl rfl (.cons _ (hP _ rfl))

theorem continues_submit {c : TaskId} {o : CreateOutcome}
    (happend : s.submits c = .created → P (.append c))
    (hs : deviceWorkerSubmit s c o = some s') : Continues P s s' := by
  have hactive : (s.submits c).active = true := submit_active hs
  -- every branch ends in a `setSubmit` of the call itself
  have hend : ∀ {u : State ρ κ χ} (pc : SubmitPc), Continues P s u → u.submits = s.submits →
      Continues P s (u.setSubmit c pc) := fun pc hu hsub =>
    hu.trans (continues_setSubmit pc (by rw [hsub]; exact hactive))
  have hself : Continues P s s := continues_refl s
  cases submit_branch hs with
  | enters | unstarted | starves => exact hend _ hself rfl
  | creates task =>
    have hset : Continues P s (s.setTask c task) := .silent rfl rfl rfl (.refl _)
    exact hend _ (hset.trans (continues_emit _ (hP _ rfl))) rfl
  | appends hpc =>
    refine hend _ (((continues_linkTask hP s c).trans (continues_emit _ (happend hpc))).trans
      (continues_signalWorker _)) ?_
    rw [State.signalWorker_eq]
    exact linkTask_submits s c
  | rejects | refuses | refusedCleans | refusedDestroys | finishes | sleeps | cleans | destroys =>
    exact hend _ (continues_emit _ (hP _ rfl)) rfl

theorem continues_loop (hrun : ∀ t, s.loop = .taken t → P (.runCall t))
    (hs : deviceWorkerLoop s = some s') : Continues P s s' := by
  cases loop_branch hs with
  | sleeps | exits => exact continues_setLoop ..
  | dequeues => exact .silent rfl rfl rfl (.cons _ (hP _ rfl))
  | calls t hpc => exact (continues_emit _ (hrun t hpc)).trans (continues_setLoop ..)
  | settles t r => exact (continues_settleTask hP s t r).trans (continues_setLoop ..)
  | cleans | destroys => exact (continues_emit _ (hP _ rfl)).trans (continues_setLoop ..)

theorem continues_cancel {k : CancelId} (hs : deviceWorkerCancelPending s k = some s') :
    Continues P s s' := by
  have hactive : (s.cancels k).active = true := cancel_active hs
  have hend : ∀ {u : State ρ κ χ} (pc : CancelPc), Continues P s u → u.cancels = s.cancels →
      Continues P s (u.setCancel k pc) := fun pc hu hcan =>
    hu.trans (continues_setCancel pc (by rw [hcan]; exact hactive))
  have hself : Continues P s s := continues_refl s
  have hhold : ∀ (t : TaskId) (code : Int), Continues P s
      ((s.setTask t { s.heap t with next := none }).emit (.cancel k t code)) := fun t code =>
    .silent rfl rfl rfl (.cons _ (hP _ rfl))
  cases cancel_branch hs with
  | enters | unstarted | returns => exact hend _ hself rfl
  | detaches => exact hend _ (.silent rfl rfl rfl (.cons _ (hP _ rfl))) rfl
  | settles t code =>
    exact hend _ ((hhold t code).trans (continues_settleTask hP _ t code)) (settleTask_cancels _ t code)
  | cleans t code => exact hend _ ((hhold t code).trans (continues_emit _ (hP _ rfl))) rfl
  | destroys t => exact hend _ (continues_emit s (hP (.destroy t) rfl)) rfl

end

theorem continues_stop (hs : deviceWorkerStop s = some s') : Continues P s s' := by
  cases stop_branch hs with
  | stops =>
    have hwake := continues_signalWorker { s with running := false } (P := P)
    exact ⟨hwake.submits, hwake.cancels, hwake.submitsIdle, hwake.cancelsIdle, hwake.args,
      hwake.log⟩
  | enters | unstarted | joins | destroys | clears => exact .silent rfl rfl rfl (.refl _)

def Action.calls : Action ρ κ χ → Bool
  | .submitCall _ _ | .cancelCall _ _ => true
  | _ => false

theorem submitCall_eq {c : TaskId} {g : SubmitArgs ρ κ χ}
    (hs : step s (.submitCall c g) = some s') :
    s' = (({ s with args := update s.args c g }.emit (.submit c)).setSubmit c .called) := by
  simp only [step, Option.ite_none_right_eq_some] at hs
  exact (Option.some.inj hs.2).symm

theorem cancelCall_eq {k : CancelId} {code : Int} (hs : step s (.cancelCall k code) = some s') :
    s' = s.setCancel k (.called code) := by
  simp only [step, Option.ite_none_right_eq_some] at hs
  exact (Option.some.inj hs.2).symm

structure Event.Owned (s : State ρ κ χ) (e : Event) : Prop where
  append : ∀ c, e = .append c → s.submits c = .created
  runCall : ∀ c, e = .runCall c → s.loop = .taken c

theorem Event.owned {e : Event} (he : e.isOwned = false) : e.Owned s := by
  constructor
  all_goals
    rintro c rfl
    cases he

theorem step_continues {a : Action ρ κ χ} (hs : step s a = some s') (ha : a.calls = false) :
    Continues (·.Owned s) s s' := by
  have hP : ∀ e : Event, e.isOwned = false → e.Owned s := fun _ => Event.owned
  cases a <;> simp only [step] at hs
  case submitCall | cancelCall => cases ha
  case submit c o =>
    exact continues_submit hP (fun hc => ⟨fun d hd => by cases hd; exact hc, by rintro _ ⟨⟩⟩) hs
  case submitWake c =>
    split at hs <;> cases hs
    next h => exact continues_setSubmit _ (by rw [h]; rfl)
  case loop =>
    exact continues_loop hP (fun t ht => ⟨by rintro _ ⟨⟩, fun d hd => by cases hd; exact ht⟩) hs
  case loopWake => split at hs <;> cases hs; exact continues_setLoop ..
  case runReturn r =>
    obtain ⟨t, hl, rfl⟩ := runReturn_eq hs
    exact (continues_emit _ (hP _ rfl)).trans (continues_setLoop ..)
  case cancel k => exact continues_cancel hP hs
  case stopCall => split at hs <;> cases hs; exact .silent rfl rfl rfl (.refl _)
  case stop => exact continues_stop hs

theorem step_adds {a : Action ρ κ χ} (hs : step s a = some s') :
    Adds (·.Owned s) s.log s'.log := by
  cases ha : a.calls with
  | false => exact (step_continues hs ha).log
  | true =>
    cases a <;> simp only [Action.calls, reduceCtorEq] at ha
    all_goals simp only [step] at hs; split at hs <;> cases hs
    · exact .cons _ (Event.owned rfl)
    · exact .refl _

theorem step_stop {a : Action ρ κ χ} (hs : step s a = some s') (ha : a ≠ .stopCall)
    (h : s.stop = .idle ∨ s.stop = .returned) : s'.stop = s.stop := by
  by_cases ha' : a = .stop
  · subst ha'
    rcases h with h | h <;> simp [step, deviceWorkerStop, h] at hs
  · exact (step_sameControl hs ha ha').stop

end RemoteDevice.Worker
