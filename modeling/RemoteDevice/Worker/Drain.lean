import RemoteDevice.Worker.Hands
import RemoteDevice.Worker.Progress

/-! How much a worker has still to do: every step of the worker thread, of a submitting call and of
`device_worker_stop` makes it less, and each of them can move unless it waits for another. -/

namespace RemoteDevice.Worker
open Function (update)

variable {ρ κ χ : Type} {s s' : State ρ κ χ}

/-! ## The worker thread -/

def LoopPc.weight : LoopPc → Nat
  | .taken _ => 8
  | .running _ => 6
  | .ran _ _ => 4
  | .cleaned _ => 2
  | .top => 1
  | .asleep | .exited => 0

def State.work (s : State ρ κ χ) : Nat := 8 * (waitingIn s.log).length + s.loop.weight

theorem work_setSubmit (s : State ρ κ χ) (c : TaskId) (pc : SubmitPc) :
    (s.setSubmit c pc).work = s.work := rfl

theorem work_le {k : Nat} {pc pc' : LoopPc} (hlog : waitingIn s'.log = waitingIn s.log)
    (hpc : s.loop = pc) (hpc' : s'.loop = pc') (hle : pc'.weight + k ≤ pc.weight) :
    s'.work + k ≤ s.work := by
  unfold State.work
  rw [hlog, hpc, hpc', Nat.add_assoc]
  exact Nat.add_le_add_left hle _

theorem linkTask_waitingIn (s : State ρ κ χ) (c : TaskId) :
    waitingIn (linkTask s c).log = waitingIn s.log := by
  unfold linkTask
  split <;> rfl

theorem signalWorker_work (s : State ρ κ χ) : s.signalWorker.work ≤ s.work + 1 := by
  unfold State.signalWorker State.work
  split
  · next h => rw [h]; exact Nat.le_refl _
  · exact Nat.le_succ _

/-- A step of the worker thread. With the settling of a task goes a wakeup of its submitter. -/
theorem Reachable.loop_work (h : Reachable s) (hs : deviceWorkerLoop s = some s') :
    s'.work + 1 ≤ s.work ∧ (s'.submits = s.submits ∨ s'.work + 2 ≤ s.work) := by
  cases loop_branch hs with
  | sleeps hpc | exits hpc | calls t hpc | cleans t r hpc | destroys t hpc =>
    exact ⟨work_le rfl hpc rfl (by simp [LoopPc.weight, State.setLoop]), .inl rfl⟩
  | dequeues t hpc hlock hhead =>
    have hmem := h.head_waiting hhead
    have hpos := List.length_pos_of_mem hmem
    have hlen : (waitingIn (.dequeue t :: s.log)).length = (waitingIn s.log).length - 1 :=
      List.length_erase_of_mem hmem
    refine ⟨?_, .inl rfl⟩
    show 8 * (waitingIn (.dequeue t :: s.log)).length + 8 + 1 ≤ 8 * _ + s.loop.weight
    rw [hlen, hpc]
    show _ ≤ _ + 1
    omega
  | settles t r hpc =>
    have hlog : waitingIn ((settleTask s t r).setLoop .top).log = waitingIn s.log := by
      show waitingIn (settleTask s t r).log = _
      rw [settleTask_log]
      rfl
    exact ⟨work_le hlog hpc rfl (by simp [LoopPc.weight, State.setLoop]),
      .inr (work_le hlog hpc rfl (by simp [LoopPc.weight, State.setLoop]))⟩

theorem runReturn_work {r : Int} (hs : runReturn s r = some s') :
    s'.work + 2 ≤ s.work ∧ s'.submits = s.submits := by
  obtain ⟨t, hl, rfl⟩ := runReturn_eq hs
  exact ⟨work_le rfl hl rfl (by simp [LoopPc.weight, State.setLoop]), rfl⟩

theorem loop_ready (hlock : s.lockAlive = true) (hasleep : s.loop ≠ .asleep)
    (hexited : s.loop ≠ .exited) (hrun : ∀ t, s.loop ≠ .running t) :
    ∃ s', deviceWorkerLoop s = some s' := by
  unfold deviceWorkerLoop
  cases hl : s.loop with
  | asleep => exact (hasleep hl).elim
  | exited => exact (hexited hl).elim
  | running t => exact (hrun t hl).elim
  | top =>
    simp only [hlock, Bool.not_true, Bool.false_eq_true, if_false]
    split
    · exact ⟨_, rfl⟩
    · split <;> exact ⟨_, rfl⟩
  | taken t | cleaned t => exact ⟨_, rfl⟩
  | ran t r =>
    simp only
    split <;> exact ⟨_, rfl⟩

/-! ## A submitting call -/

def SubmitPc.weight : SubmitPc → Nat
  | .called => 16
  | .creating => 15
  | .created => 14
  | .waiting => 4
  | .asleep => 3
  | .finished _ | .refused => 2
  | .finishedClean _ | .refusedClean | .rejecting _ => 1
  | .idle | .returned _ => 0

def State.submitLeft (c : TaskId) (s : State ρ κ χ) : Nat := (s.submits c).weight + s.work

theorem submit_weight {c : TaskId} {o : CreateOutcome} (hs : deviceWorkerSubmit s c o = some s') :
    (s'.submits c).weight < (s.submits c).weight := by
  have hself : ∀ {u : State ρ κ χ} {pc : SubmitPc}, (u.setSubmit c pc).submits c = pc :=
    Function.update_self ..
  cases submit_branch hs with
  | appends hpc =>
    rw [hself, hpc]
    split <;> decide
  | enters hpc | unstarted hpc | creates _ hpc | starves hpc | rejects _ hpc | refuses hpc
  | refusedCleans hpc | refusedDestroys hpc | finishes hpc | sleeps hpc | cleans _ hpc
  | destroys _ hpc =>
    rw [hself, hpc]
    simp [SubmitPc.weight]

theorem submit_left {c : TaskId} {o : CreateOutcome} (hs : deviceWorkerSubmit s c o = some s') :
    s'.submitLeft c < s.submitLeft c := by
  have hweight := submit_weight hs
  unfold State.submitLeft
  cases submit_branch hs with
  | appends hpc =>
    have hself : ∀ {u : State ρ κ χ} {pc : SubmitPc}, (u.setSubmit c pc).submits c = pc :=
      Function.update_self ..
    rw [hself, work_setSubmit, hpc]
    have hwake := signalWorker_work ((linkTask s c).emit (.append c))
    have hlink : ((linkTask s c).emit (.append c)).work = s.work + 8 := by
      unfold State.work
      show 8 * (waitingIn (linkTask s c).log ++ [c]).length + (linkTask s c).loop.weight = _
      rw [linkTask_waitingIn, linkTask_loop, List.length_append, List.length_singleton]
      omega
    have hpc' : SubmitPc.weight (if (s.args c).wait then .waiting else .returned DeviceResult.ok) ≤
        4 := by
      split <;> decide
    show _ < 14 + _
    omega
  | _ => exact Nat.add_lt_add_right hweight _

theorem submit_ready {c : TaskId} (hlock : s.lockAlive = true)
    (hactive : (s.submits c).active = true) (hasleep : s.submits c ≠ .asleep) (o : CreateOutcome) :
    ∃ s', deviceWorkerSubmit s c o = some s' := by
  unfold deviceWorkerSubmit
  cases hpc : s.submits c <;> rw [hpc] at hactive
  case idle | returned => cases hactive
  case asleep => exact (hasleep hpc).elim
  case called | waiting => simp only; split <;> exact ⟨_, rfl⟩
  case creating => simp only; split <;> exact ⟨_, rfl⟩
  case created =>
    simp only [hlock, Bool.not_true, Bool.false_eq_true, if_false]
    split <;> exact ⟨_, rfl⟩
  all_goals exact ⟨_, rfl⟩

theorem settleTask_weight (s : State ρ κ χ) (t c : TaskId) (r : Int) :
    ((settleTask s t r).submits c).weight ≤ (s.submits c).weight + 1 := by
  unfold settleTask State.signalTask
  split
  · next h =>
    have h : s.submits t = .asleep := h
    by_cases hc : c = t
    · subst hc
      rw [h]
      simp [State.emit, State.setSubmit, SubmitPc.weight]
    · simp [State.emit, State.setSubmit, State.setTask, hc]
  · exact Nat.le_succ _

theorem Reachable.loop_left (h : Reachable s) (hs : deviceWorkerLoop s = some s') (c : TaskId) :
    s'.submitLeft c < s.submitLeft c := by
  obtain ⟨hwork, hsame | hwork'⟩ := h.loop_work hs
  · unfold State.submitLeft
    rw [hsame]
    omega
  · have hweight : (s'.submits c).weight ≤ (s.submits c).weight + 1 := by
      cases loop_branch hs with
      | settles t r => exact settleTask_weight s t c r
      | _ => exact Nat.le_succ _
    unfold State.submitLeft
    omega

theorem runReturn_left {r : Int} (hs : runReturn s r = some s') (c : TaskId) :
    s'.submitLeft c < s.submitLeft c := by
  obtain ⟨hwork, hsame⟩ := runReturn_work hs
  unfold State.submitLeft
  rw [hsame]
  omega

theorem Reachable.asleep_busy (h : Reachable s) {c : TaskId} (hc : s.submits c = .asleep)
    (hcancel : ∀ k, ¬ (s.cancels k).active = true) : s.loop ≠ .asleep ∧ s.loop ≠ .exited := by
  obtain ⟨A, ha, href⟩ := h.traced
  have hnone : A.pending = [] → s.loop.task = none → False := by
    intro hpending htask
    cases href.attended ha (.inr hc) with
    | queued hq => rw [← ha.pending_eq, hpending] at hq; cases hq
    | worker ht => rw [htask] at ht; cases ht
    | canceller k code hk =>
      obtain ⟨cur, l, hr, -⟩ := hk
      refine hcancel k ?_
      cases hpc : s.cancels k <;> rw [hpc] at hr <;> first | rfl | cases hr
    | done hd => rw [href.asleep_undone hc] at hd; cases hd
  constructor
  · intro hl
    exact hnone (href.asleep hl).2 (by rw [hl]; rfl)
  · intro hl
    exact hnone (href.exited hl).2 (by rw [hl]; rfl)

/-! ## Stopping -/

def StopPc.weight : StopPc → Nat
  | .called => 6
  | .locking => 5
  | .joining => 3
  | .destroying => 2
  | .clearing => 1
  | .idle | .returned => 0

def State.stopLeft (s : State ρ κ χ) : Nat := s.stop.weight + s.work

theorem stop_left (hs : deviceWorkerStop s = some s') : s'.stopLeft < s.stopLeft := by
  unfold State.stopLeft
  cases stop_branch hs with
  | stops hpc =>
    have hwake := signalWorker_work { s with running := false }
    have hwork : ({ s with running := false } : State ρ κ χ).work = s.work := rfl
    have hweight : s.stop.weight = 5 := congrArg StopPc.weight hpc
    show 3 + ({ s with running := false } : State ρ κ χ).signalWorker.work < _
    omega
  | enters hpc | unstarted hpc | joins hpc | destroys hpc | clears hpc =>
    exact Nat.add_lt_add_right (by simp [hpc, StopPc.weight]) _

theorem Reachable.stop_ready (h : Reachable s) (hidle : s.stop ≠ .idle)
    (hreturned : s.stop ≠ .returned) (hjoin : s.stop = .joining → s.loop = .exited) :
    ∃ s', deviceWorkerStop s = some s' := by
  have hctl := h.control
  unfold deviceWorkerStop
  cases hpc : s.stop with
  | idle => exact (hidle hpc).elim
  | returned => exact (hreturned hpc).elim
  | called | destroying | clearing => exact ⟨_, rfl⟩
  | locking =>
    cases hlock : s.lockAlive with
    | true => exact ⟨_, rfl⟩
    | false => rcases hctl.lockAlive hlock with hstop | hstop <;> cases hpc.symm.trans hstop
  | joining => exact ⟨_, if_pos (hjoin hpc)⟩

theorem Reachable.joining_busy (h : Reachable s) (hpc : s.stop = .joining) :
    s.loop ≠ .asleep ∧ s.lockAlive = true := by
  have hctl := h.control
  constructor
  · intro hl
    obtain ⟨A, -, href⟩ := h.traced
    have hrunning := hctl.running.mp (href.asleep hl).1
    rw [hpc] at hrunning
    rcases hrunning with hstop | hstop | hstop <;> cases hstop
  · by_contra hlock
    rcases hctl.lockAlive (by simpa using hlock) with hstop | hstop <;> cases hpc.symm.trans hstop

theorem Reachable.loop_stopLeft (h : Reachable s) (hs : deviceWorkerLoop s = some s') :
    s'.stopLeft < s.stopLeft := by
  have hwork := (h.loop_work hs).1
  unfold State.stopLeft
  rw [(loop_frame hs).1.stop]
  omega

theorem runReturn_stopLeft {r : Int} (hs : runReturn s r = some s') : s'.stopLeft < s.stopLeft := by
  have hwork := (runReturn_work hs).1
  obtain ⟨t, -, rfl⟩ := runReturn_eq hs
  unfold State.stopLeft
  exact Nat.add_lt_add_left (Nat.lt_of_succ_lt hwork) _

/-! ## Cancelling -/

theorem step_made {a : Action ρ κ χ} (hs : step s a = some s') :
    (∀ k, s.cancels k ≠ .idle → s'.cancels k ≠ .idle) ∧ (s.stop ≠ .idle → s'.stop ≠ .idle) := by
  refine ⟨fun k hk => ?_, fun hstop => ?_⟩
  · have hset : ∀ {u : State ρ κ χ} {d : CancelId} {pc : CancelPc}, u.cancels = s.cancels →
        pc ≠ .idle → (u.setCancel d pc).cancels k ≠ .idle := by
      intro u d pc hu hpc
      show update u.cancels d pc k ≠ .idle
      rw [Function.update_apply, hu]
      split
      · exact hpc
      · exact hk
    -- only the steps of the calls themselves change `cancels`
    by_cases hcancel : ∃ d, a = .cancel d
    · obtain ⟨d, rfl⟩ := hcancel
      cases cancel_branch hs with
      | settles t code => exact hset (settleTask_cancels _ t code) nofun
      | _ => exact hset rfl nofun
    by_cases hcall : ∃ d code, a = .cancelCall d code
    · obtain ⟨d, code, rfl⟩ := hcall
      rw [cancelCall_eq hs]
      exact hset rfl nofun
    · rw [step_cancels hs (fun d code e => hcall ⟨d, code, e⟩) (not_exists.mp hcancel)]
      exact hk
  · by_cases hact : a = .stop
    · subst hact
      cases stop_branch hs <;> exact nofun
    by_cases hcall : a = .stopCall
    · subst hcall
      simp only [step, Option.ite_none_right_eq_some] at hs
      exact (hstop hs.1).elim
    · rw [(step_sameControl hs hcall hact).stop]
      exact hstop

theorem Reachable.cancel_leads (h : Reachable s) {k : CancelId} (hstarted : s.started = true)
    (hlock : s.lockAlive = true) (hidle : s.cancels k ≠ .idle) :
    Runs.Leads step (.cancel k) (fun t => t.cancels k = .returned) s := by
  obtain ⟨A, -, href⟩ := h.traced
  cases hk : s.cancels k with
  | idle => exact (hidle hk).elim
  | returned => exact .now hk
  | called code => exact h.cancelCall_returns hstarted hlock hk
  | locking code =>
    refine .later (by simp [step, deviceWorkerCancelPending, hk, hlock]; rfl) ?_
    exact cancel_returns (Function.update_self ..) href.queue.chain
  | next cur code =>
    obtain ⟨l, hch, -⟩ := href.rest k cur code (by rw [hk]; rfl)
    exact cancel_returns hk hch
  | cleaned t next code =>
    obtain ⟨l, hch, -⟩ := href.rest k next code (by rw [hk]; rfl)
    refine .later (by simp [step, deviceWorkerCancelPending, hk]; rfl) ?_
    exact cancel_returns (Function.update_self ..) hch

end RemoteDevice.Worker
