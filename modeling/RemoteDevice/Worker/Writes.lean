import RemoteDevice.Worker.Control

/-! What a step adds to the history: cleanup statements see the submitted callback, and a
cancelling call detaches the queue once. -/

namespace RemoteDevice.Worker
open Function (update)

variable {ρ κ χ : Type} {s s' : State ρ κ χ} {A : Ledger}

def CancelPc.early : CancelPc → Bool
  | .idle | .called _ | .locking _ => true
  | _ => false

/-- A cleanup statement calls the callback the submitter gave; detaching is left out. -/
def Event.Faithful (args : TaskId → SubmitArgs ρ κ χ) : Event → Prop
  | .cleanup c b => b = (args c).cleanup.isSome
  | .detach _ _ => False
  | _ => True

structure Writes (s s' : State ρ κ χ) : Prop where
  args : s'.args = s.args
  early : ∀ k, (s'.cancels k).early = true → (s.cancels k).early = true
  log : ∃ es, s'.log = es ++ s.log ∧ ∀ e ∈ es, e.Faithful s.args

theorem Writes.silent (hargs : s'.args = s.args) (hcancels : s'.cancels = s.cancels)
    (hlog : s'.log = s.log) : Writes s s' :=
  ⟨hargs, fun _ => by rw [hcancels]; exact id, [], hlog, nofun⟩

theorem Writes.event {e : Event} (hargs : s'.args = s.args) (hcancels : s'.cancels = s.cancels)
    (he : e.Faithful s.args) (hlog : s'.log = e :: s.log) : Writes s s' :=
  ⟨hargs, fun _ => by rw [hcancels]; exact id, [e], hlog, by simpa using he⟩

theorem Writes.trans {s₁ s₂ s₃ : State ρ κ χ} (h : Writes s₁ s₂) (h' : Writes s₂ s₃) :
    Writes s₁ s₃ := by
  obtain ⟨es, hlog, hes⟩ := h.log
  obtain ⟨es', hlog', hes'⟩ := h'.log
  refine ⟨h'.args.trans h.args, fun k => h.early k ∘ h'.early k, es' ++ es, ?_, fun e he => ?_⟩
  · rw [hlog', hlog, List.append_assoc]
  · rcases List.mem_append.mp he with he | he
    · exact h.args ▸ hes' e he
    · exact hes e he

theorem writes_setCancel (s : State ρ κ χ) (k : CancelId) {pc : CancelPc}
    (h : pc.early = true → (s.cancels k).early = true) : Writes s (s.setCancel k pc) := by
  refine ⟨rfl, fun k' => ?_, [], rfl, nofun⟩
  show (update s.cancels k pc k').early = true → _
  by_cases hk : k' = k
  · subst k'; rwa [Function.update_self]
  · rw [Function.update_of_ne hk]; exact id

theorem writes_leave (s : State ρ κ χ) (k : CancelId) {pc : CancelPc} (h : pc.early = false) :
    Writes s (s.setCancel k pc) := by
  apply writes_setCancel
  intro hearly
  rw [h] at hearly
  exact absurd hearly Bool.false_ne_true

theorem writes_linkTask (s : State ρ κ χ) (c : TaskId) : Writes s (linkTask s c) := by
  unfold linkTask
  split
  · exact .silent rfl rfl rfl
  · exact .event (e := .touch _) rfl rfl trivial rfl

theorem writes_settleTask (s : State ρ κ χ) (c : TaskId) (r : Int) : Writes s (settleTask s c r) :=
  .event (settleTask_args s c r) (settleTask_cancels s c r) (e := .settle c) trivial
    (settleTask_log s c r)

theorem writes_submit {c : TaskId} {o : CreateOutcome} (h : Refines s A)
    (hs : deviceWorkerSubmit s c o = some s') : Writes s s' := by
  have hsub := h.submit c
  cases submit_branch hs with
  | enters | unstarted | starves => exact .silent rfl rfl rfl
  | creates => exact .event (e := .create c) rfl rfl trivial rfl
  | refuses => exact .event (e := .refuse c) rfl rfl trivial rfl
  | appends =>
    rw [State.signalWorker_eq]
    exact (writes_linkTask s c).trans (.event (e := .append c) rfl rfl trivial rfl)
  | finishes | sleeps => exact .event (e := .touch c) rfl rfl trivial rfl
  | cleans r hpc =>
    rw [hpc] at hsub
    obtain ⟨-, f, -, hl, -⟩ := hsub
    have hfield : (s.heap c).cleanup = (s.args c).cleanup := ((h.task c).fields (by rw [hl]; rfl)).2.1
    exact .event (e := .cleanup c _) rfl rfl (by rw [Event.Faithful, hfield]) rfl
  | refusedDestroys | destroys => exact .event (e := .destroy c) rfl rfl trivial rfl
  | rejects | refusedCleans => exact .event (e := .cleanup c _) rfl rfl rfl rfl

theorem writes_loop (h : Refines s A) (hs : deviceWorkerLoop s = some s') : Writes s s' := by
  cases loop_branch hs with
  | sleeps | exits => exact .silent rfl rfl rfl
  | dequeues t => exact .event (e := .dequeue t) rfl rfl trivial rfl
  | calls t => exact .event (e := .runCall t) rfl rfl trivial rfl
  | settles t r => exact (writes_settleTask s t r).trans (.silent rfl rfl rfl)
  | cleans t r hpc =>
    have hfield := ((h.task t).fields (by rw [((h.loop t).ran r).mp hpc]; rfl)).2.1
    exact .event (e := .cleanup t _) rfl rfl (by rw [Event.Faithful, hfield]) rfl
  | destroys t => exact .event (e := .destroy t) rfl rfl trivial rfl

theorem writes_cancel {k : CancelId} (h : Refines s A) (hk : ∀ code, s.cancels k ≠ .locking code)
    (hs : deviceWorkerCancelPending s k = some s') : Writes s s' := by
  have hcancel : ∀ (t : TaskId) (code : Int), Writes s
      ((s.setTask t { s.heap t with next := none }).emit (.cancel k t code)) := fun t code =>
    .event (e := .cancel k t code) rfl rfl trivial rfl
  cases cancel_branch hs with
  | enters _ hpc | unstarted _ hpc => exact writes_setCancel s k (by rw [hpc]; exact fun _ => rfl)
  | detaches code hpc => exact (hk code hpc).elim
  | returns => exact writes_leave s k rfl
  | settles t code =>
    exact ((hcancel t code).trans (writes_settleTask _ t code)).trans (writes_leave _ k rfl)
  | cleans t code hpc =>
    have hlife : (A.life t).allocated = true := by
      rcases (h.cancel_holds (.inl ⟨hpc, rfl⟩)).1 with hl | ⟨-, hl⟩ <;> rw [hl] <;> rfl
    have hfield := ((h.task t).fields hlife).2.1
    have hclean : Writes ((s.setTask t { s.heap t with next := none }).emit (.cancel k t code))
        (cleanupTask ((s.setTask t { s.heap t with next := none }).emit (.cancel k t code)) t) :=
      .event (e := .cleanup t _) rfl rfl (by simp [Event.Faithful, State.emit, State.setTask, hfield]) rfl
    exact ((hcancel t code).trans hclean).trans (writes_leave _ k rfl)
  | destroys t =>
    have hdestroy : Writes s (s.emit (.destroy t)) := .event (e := .destroy t) rfl rfl trivial rfl
    exact hdestroy.trans (writes_leave _ k rfl)

theorem step_writes {a : Action ρ κ χ} (h : Refines s A) (hs : step s a = some s')
    (hcall : ∀ c x, a ≠ .submitCall c x)
    (hk : ∀ k code, a = .cancel k → s.cancels k ≠ .locking code) : Writes s s' := by
  cases a <;> simp only [step] at hs
  case submitCall c x => exact (hcall c x rfl).elim
  case submit c o => exact writes_submit h hs
  case loop => exact writes_loop h hs
  case cancel k => exact writes_cancel h (fun code => hk k code rfl) hs
  case cancelCall k code =>
    split at hs <;> cases hs
    next hi => exact writes_setCancel s k (by rw [hi]; exact fun _ => rfl)
  case runReturn r =>
    obtain ⟨t, -, rfl⟩ := runReturn_eq hs
    exact .event (e := .runReturn t r) rfl rfl trivial rfl
  case stop =>
    cases stop_branch hs with
    | stops =>
      rw [State.signalWorker_eq]
      exact .silent rfl rfl rfl
    | enters | unstarted | joins | destroys | clears => exact .silent rfl rfl rfl
  all_goals
    split at hs <;> cases hs
    exact .silent rfl rfl rfl

/-! ## Two invariants of the history -/

def CleanupsFaithful (s : State ρ κ χ) : Prop :=
  ∀ c b, .cleanup c b ∈ s.log → b = (s.args c).cleanup.isSome

def Event.isDetach (k : CancelId) : Event → Bool
  | .detach k' _ => k' = k
  | _ => false

def DetachesOnce (s : State ρ κ χ) : Prop :=
  ∀ k, s.log.countP (Event.isDetach k) ≤ 1 ∧
    ((s.cancels k).early = true → s.log.countP (Event.isDetach k) = 0)

theorem CleanupsFaithful.writes (h : CleanupsFaithful s) (hw : Writes s s') :
    CleanupsFaithful s' := by
  intro c b hb
  obtain ⟨es, hlog, hes⟩ := hw.log
  rw [hw.args]
  rw [hlog, List.mem_append] at hb
  exact hb.elim (hes _) (h c b)

theorem DetachesOnce.writes (h : DetachesOnce s) (hw : Writes s s') : DetachesOnce s' := by
  intro k
  obtain ⟨es, hlog, hes⟩ := hw.log
  have hzero : es.countP (Event.isDetach k) = 0 := List.countP_eq_zero.mpr fun e he => by
    have := hes e he
    cases e <;> simp_all [Event.isDetach, Event.Faithful]
  rw [hlog, List.countP_append, hzero, Nat.zero_add]
  exact ⟨(h k).1, fun e => (h k).2 (hw.early k e)⟩

theorem step_history {a : Action ρ κ χ} (h : Refines s A) (ha : Admits s.log A)
    (hc : CleanupsFaithful s) (hd : DetachesOnce s) (hs : step s a = some s') :
    CleanupsFaithful s' ∧ DetachesOnce s' := by
  by_cases hcall : ∃ c x, a = .submitCall c x
  · obtain ⟨c, x, rfl⟩ := hcall
    simp only [step] at hs
    split at hs <;> cases hs
    next hi =>
    have hl : A.life c = .unborn := by simpa [hi, SubmitOk] using h.submit c
    refine ⟨fun t b hb => ?_, fun k => ?_⟩
    · have hb' : .cleanup t b ∈ s.log := by simpa [State.setSubmit, State.emit] using hb
      have htc : t ≠ c := by
        rintro rfl
        have h0 : s.log.countP (Event.isCleanup t) = 0 := by rw [ha.countP_cleanup, hl]; rfl
        exact List.countP_eq_zero.mp h0 _ hb' (by simp [Event.isCleanup])
      rw [hc t b hb']
      simp [State.setSubmit, State.emit, htc]
    · simpa [State.setSubmit, State.emit, Event.isDetach] using hd k
  by_cases hk : ∃ k code, a = .cancel k ∧ s.cancels k = .locking code
  · obtain ⟨k, code, rfl, hk⟩ := hk
    simp only [step, deviceWorkerCancelPending, hk] at hs
    split at hs <;> cases hs
    refine ⟨fun t b hb => hc t b (by simpa [State.setCancel, State.emit] using hb), fun k' => ?_⟩
    have hlog := hd k'
    by_cases hkk : k' = k
    · subst k'
      have hzero := hlog.2 (by rw [hk]; rfl)
      simp [State.setCancel, State.emit, Event.isDetach, hzero, CancelPc.early]
    · simpa [State.setCancel, State.emit, Event.isDetach, hkk, Ne.symm hkk] using hlog
  · have hw := step_writes h hs (fun c x e => hcall ⟨c, x, e⟩) fun k code e e' => hk ⟨k, code, e, e'⟩
    exact ⟨hc.writes hw, hd.writes hw⟩

theorem Reachable.history (h : Reachable s) : CleanupsFaithful s ∧ DetachesOnce s :=
  h.invariant_of_reachable (P := fun s => CleanupsFaithful s ∧ DetachesOnce s)
    (by rintro _ rfl; exact ⟨fun _ _ hb => (by cases hb), fun _ => ⟨Nat.zero_le _, fun _ => rfl⟩⟩)
    fun _ _ _ hr hc hs => by
      obtain ⟨A, ha, h⟩ := Reachable.traced hr
      exact step_history h ha hc.1 hc.2 hs

end RemoteDevice.Worker
