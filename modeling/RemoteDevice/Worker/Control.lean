import RemoteDevice.Worker.Simulation

/-! The flags of the worker across its steps: only the stopping thread changes them, and the
worker thread has left its loop before the lock is destroyed. -/

namespace RemoteDevice.Worker
open Function (update)

variable {ρ κ χ : Type} {s s' : State ρ κ χ}

structure SameControl (s s' : State ρ κ χ) : Prop where
  stop : s'.stop = s.stop
  started : s'.started = s.started
  running : s'.running = s.running
  lockAlive : s'.lockAlive = s.lockAlive
  exited : s.loop = .exited → s'.loop = .exited

structure Frame (s s' : State ρ κ χ) : Prop where
  stop : s'.stop = s.stop
  started : s'.started = s.started
  running : s'.running = s.running
  lockAlive : s'.lockAlive = s.lockAlive
  cancels : s'.cancels = s.cancels
  loop : s'.loop = s.loop ∨ (s.loop = .asleep ∧ s'.loop = .top)

theorem Frame.sameControl (h : Frame s s') : SameControl s s' := by
  refine ⟨h.stop, h.started, h.running, h.lockAlive, fun he => ?_⟩
  rcases h.loop with hl | ⟨hl, -⟩
  · exact hl.trans he
  · cases hl.symm.trans he

theorem Frame.trans {s₁ s₂ s₃ : State ρ κ χ} (h : Frame s₁ s₂) (h' : Frame s₂ s₃) :
    Frame s₁ s₃ := by
  refine ⟨h'.stop.trans h.stop, h'.started.trans h.started, h'.running.trans h.running,
    h'.lockAlive.trans h.lockAlive, h'.cancels.trans h.cancels, ?_⟩
  rcases h.loop with hl | ⟨hl, ht⟩ <;> rcases h'.loop with hl' | ⟨hl', ht'⟩
  · exact .inl (hl'.trans hl)
  · exact .inr ⟨hl.symm.trans hl', ht'⟩
  · exact .inr ⟨hl, hl'.trans ht⟩
  · cases ht.symm.trans hl'

theorem SameControl.trans {s₁ s₂ s₃ : State ρ κ χ} (h : SameControl s₁ s₂)
    (h' : SameControl s₂ s₃) : SameControl s₁ s₃ :=
  ⟨h'.stop.trans h.stop, h'.started.trans h.started, h'.running.trans h.running,
    h'.lockAlive.trans h.lockAlive, h'.exited ∘ h.exited⟩

theorem frame_setSubmit (s : State ρ κ χ) (c : TaskId) (pc : SubmitPc) :
    Frame s (s.setSubmit c pc) := ⟨rfl, rfl, rfl, rfl, rfl, .inl rfl⟩

theorem frame_emit (s : State ρ κ χ) (e : Event) : Frame s (s.emit e) :=
  ⟨rfl, rfl, rfl, rfl, rfl, .inl rfl⟩

theorem frame_setTask (s : State ρ κ χ) (t : TaskId) (task : DeviceTask ρ κ χ) :
    Frame s (s.setTask t task) := ⟨rfl, rfl, rfl, rfl, rfl, .inl rfl⟩

theorem frame_signalWorker (s : State ρ κ χ) : Frame s s.signalWorker := by
  unfold State.signalWorker
  split
  · next h => exact ⟨rfl, rfl, rfl, rfl, rfl, .inr ⟨h, rfl⟩⟩
  · exact ⟨rfl, rfl, rfl, rfl, rfl, .inl rfl⟩

theorem frame_settleTask (s : State ρ κ χ) (t : TaskId) (r : Int) :
    Frame s (settleTask s t r) := by
  unfold settleTask State.signalTask
  split <;> exact ⟨rfl, rfl, rfl, rfl, rfl, .inl rfl⟩

theorem frame_linkTask (s : State ρ κ χ) (t : TaskId) : Frame s (linkTask s t) := by
  unfold linkTask
  split <;> exact ⟨rfl, rfl, rfl, rfl, rfl, .inl rfl⟩

theorem sameControl_setLoop (pc : LoopPc) (h : s.loop ≠ .exited) : SameControl s (s.setLoop pc) :=
  ⟨rfl, rfl, rfl, rfl, fun e => (h e).elim⟩

theorem submit_frame {c : TaskId} {o : CreateOutcome}
    (hs : deviceWorkerSubmit s c o = some s') : Frame s s' := by
  -- every branch ends in a `setSubmit` of the call itself
  have hend : ∀ {u : State ρ κ χ} {pc : SubmitPc}, Frame s u → Frame s (u.setSubmit c pc) :=
    fun hu => hu.trans (frame_setSubmit _ c _)
  have hself : Frame s s := ⟨rfl, rfl, rfl, rfl, rfl, .inl rfl⟩
  cases submit_branch hs with
  | enters | unstarted | starves => exact hend hself
  | creates => exact hend ((frame_setTask ..).trans (frame_emit ..))
  | appends =>
    have happend := (frame_linkTask s c).trans (frame_emit _ (.append c))
    exact hend (happend.trans (frame_signalWorker _))
  | rejects | refuses | refusedCleans | refusedDestroys | finishes | sleeps | cleans | destroys =>
    exact hend (frame_emit ..)

theorem loop_frame (hs : deviceWorkerLoop s = some s') :
    SameControl s s' ∧ s'.cancels = s.cancels := by
  have hne : ∀ {pc : LoopPc}, s.loop = pc → pc ≠ .exited → s.loop ≠ .exited := by
    rintro pc rfl
    exact id
  cases loop_branch hs with
  | sleeps hpc | exits hpc => exact ⟨sameControl_setLoop _ (hne hpc nofun), rfl⟩
  | settles t r hpc =>
    have hsettle := frame_settleTask s t r
    refine ⟨hsettle.sameControl.trans (sameControl_setLoop _ ?_), hsettle.cancels⟩
    rw [settleTask_loop s t r]
    exact hne hpc nofun
  | dequeues _ hpc | calls _ hpc | cleans _ _ hpc | destroys _ hpc =>
    exact ⟨⟨rfl, rfl, rfl, rfl, fun e => (hne hpc nofun e).elim⟩, rfl⟩

theorem cancel_frame {k : CancelId} (hs : deviceWorkerCancelPending s k = some s') :
    SameControl s s' ∧ s'.loop = s.loop := by
  have hsame : ∀ {u : State ρ κ χ}, u.stop = s.stop → u.started = s.started →
      u.running = s.running → u.lockAlive = s.lockAlive → u.loop = s.loop →
      SameControl s u ∧ u.loop = s.loop :=
    fun h1 h2 h3 h4 hl => ⟨⟨h1, h2, h3, h4, hl.trans⟩, hl⟩
  cases cancel_branch hs with
  | settles t code =>
    have hsettle := frame_settleTask
      ((s.setTask t { s.heap t with next := none }).emit (.cancel k t code)) t code
    exact hsame hsettle.stop hsettle.started hsettle.running hsettle.lockAlive
      (settleTask_loop _ t code)
  | _ => exact hsame rfl rfl rfl rfl rfl

theorem step_sameControl {a : Action ρ κ χ} (hs : step s a = some s') (h1 : a ≠ .stopCall)
    (h2 : a ≠ .stop) : SameControl s s' := by
  cases a <;> simp only [step] at hs
  case submit c o => exact (submit_frame hs).sameControl
  case loop => exact (loop_frame hs).1
  case cancel k => exact (cancel_frame hs).1
  case stopCall => exact (h1 rfl).elim
  case stop => exact (h2 rfl).elim
  case loopWake =>
    split at hs <;> cases hs
    next hl => exact sameControl_setLoop _ (by rw [hl]; rintro ⟨⟩)
  case runReturn r =>
    obtain ⟨t, hl, rfl⟩ := runReturn_eq hs
    exact ⟨rfl, rfl, rfl, rfl, by rw [hl]; rintro ⟨⟩⟩
  all_goals
    split at hs <;> cases hs
    exact ⟨rfl, rfl, rfl, rfl, id⟩

structure ControlOk (s : State ρ κ χ) : Prop where
  joined : s.stop = .destroying ∨ s.stop = .clearing ∨ s.stop = .returned → s.loop = .exited
  started : s.started = false → s.stop = .returned
  lockAlive : s.lockAlive = false → s.stop = .clearing ∨ s.stop = .returned
  running : s.running = true ↔ s.stop = .idle ∨ s.stop = .called ∨ s.stop = .locking

theorem ControlOk.congr (h : ControlOk s) (hs : SameControl s s') : ControlOk s' := by
  constructor <;> simp only [hs.stop, hs.started, hs.lockAlive, hs.running]
  · exact fun e => hs.exited (h.joined e)
  · exact h.started
  · exact h.lockAlive
  · exact h.running

theorem ControlOk.stop (h : ControlOk s) (hs : deviceWorkerStop s = some s') : ControlOk s' := by
  obtain ⟨hjoined, hstarted, hlock, hrunning⟩ := h
  cases stop_branch hs with
  | unstarted hpc hstopped => cases hpc.symm.trans (hstarted hstopped)
  | stops hpc =>
    obtain ⟨-, hstarted', hrunning', hlock', -, -⟩ := frame_signalWorker { s with running := false }
    refine ⟨by simp, fun e => ?_, fun e => ?_, by simp [hrunning']⟩
    · cases hpc.symm.trans (hstarted (hstarted'.symm.trans e))
    · rcases hlock (hlock'.symm.trans e) with h | h <;> cases hpc.symm.trans h
  | enters hpc | joins hpc | destroys hpc | clears hpc => constructor <;> simp_all

theorem ControlOk.step {a : Action ρ κ χ} (h : ControlOk s) (hs : step s a = some s') :
    ControlOk s' := by
  by_cases h1 : a = .stopCall
  · subst h1
    simp only [Worker.step] at hs
    split at hs <;> cases hs
    next hi => constructor <;> have := h.started <;> have := h.lockAlive <;> have := h.running <;> simp_all
  by_cases h2 : a = .stop
  · subst h2
    exact h.stop hs
  · exact h.congr (step_sameControl hs h1 h2)

theorem Reachable.control (h : Reachable s) : ControlOk s :=
  h.invariant (by rintro _ rfl; constructor <;> simp [deviceWorkerStart]) fun _ _ _ => ControlOk.step

end RemoteDevice.Worker
