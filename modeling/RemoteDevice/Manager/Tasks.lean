import RemoteDevice.Manager.Components
import RemoteDevice.Worker.Hands

/-! Every call of a worker has a number of its own and was made by one of the `device_*`
functions, so the buzzer worker is inside a plugin function whenever it runs a task. -/

namespace RemoteDevice.Manager
open Worker (TaskId CancelId)

variable {s t : State} {act : Action}

structure Numbered (s : State) : Prop where
  submits : ∀ w c, s.calls ≤ c → (s.worker w).submits c = .idle
  cancels : ∀ w k, s.calls ≤ k → (s.worker w).cancels k = .idle
  args : ∀ w c, (s.worker w).submits c ≠ .idle →
    ∃ j : Job, j.worker = w ∧ (s.worker w).args c = j.args

theorem Effect.calls_le (he : Effect s act t) : s.calls ≤ t.calls := by
  cases he with
  | submit | cancel | cleanupCancel | beeperSubmit => exact Nat.le_succ _
  | _ => exact Nat.le_refl _

theorem Numbered.effect (h : Numbered s) (he : Effect s act t) : Numbered t := by
  have hcalls := he.calls_le
  refine ⟨fun w c hc => ?_, fun w k hk => ?_, fun w c hc => ?_⟩
  · have hidle := h.submits w c (by omega)
    cases he.worker_move w with
    | rest heq => rw [heq, hidle]
    | thread a ha hx => exact (Worker.step_continues hx ha).submitsIdle c hidle
    | submit j hj hcalls hx =>
      have hne : c ≠ s.calls := by omega
      rw [Worker.submitCall_eq hx]
      exact (Function.update_of_ne hne ..).trans hidle
    | cancel hcalls hx => rw [Worker.cancelCall_eq hx]; exact hidle
  · have hidle := h.cancels w k (by omega)
    cases he.worker_move w with
    | rest heq => rw [heq, hidle]
    | thread a ha hx => exact (Worker.step_continues hx ha).cancelsIdle k hidle
    | submit j hj hcalls hx => rw [Worker.submitCall_eq hx]; exact hidle
    | cancel hcalls hx =>
      have hne : k ≠ s.calls := by omega
      rw [Worker.cancelCall_eq hx]
      exact (Function.update_of_ne hne ..).trans hidle
  · cases he.worker_move w with
    | rest heq => rw [heq] at hc ⊢; exact h.args w c hc
    | thread a ha hx =>
      have hcont := Worker.step_continues hx ha
      rw [hcont.args]
      exact h.args w c fun hidle => hc (hcont.submitsIdle c hidle)
    | submit j hj hcalls hx =>
      rw [Worker.submitCall_eq hx] at hc ⊢
      by_cases hcs : c = s.calls
      · exact ⟨j, hj, by simp [Worker.State.setSubmit, Worker.State.emit, hcs]⟩
      · simp only [Worker.State.setSubmit, Worker.State.emit, Function.update_of_ne hcs] at hc ⊢
        exact h.args w c hc
    | cancel hcalls hx => rw [Worker.cancelCall_eq hx] at hc ⊢; exact h.args w c hc

theorem numbered_deviceInit : Numbered deviceInit :=
  ⟨fun _ _ _ => rfl, fun _ _ _ => rfl, fun _ _ hc => (hc rfl).elim⟩

theorem Reachable.numbered (h : Reachable s) : Numbered s :=
  h.invariant (by rintro _ rfl; exact numbered_deviceInit) fun _ _ _ hn hs =>
    hn.effect (step_effect hs)

/-! ## The plugin function of a running task -/

theorem enterPlugin_isSome {j : Job} (hj : j.worker = .buzzer)
    {task : Worker.DeviceTask TaskFn Cleanup Context} (hrun : task.run = j.args.run)
    (hcontext : task.context = j.args.context) : (enterPlugin task).isSome = true := by
  cases j <;> simp_all [Job.worker, Job.args, enterPlugin]

def Tuned (s : State) : Prop := ∀ c, (s.worker .buzzer).loop = .running c → s.tune.isSome = true

theorem Tuned.setWorker (ht : Tuned s) (h : Reachable s) {w : WorkerId} {a : WorkerAction}
    {x : WorkerState} (hx : Worker.step (s.worker w) a = some x) : Tuned (s.setWorker w a x) := by
  intro c hc
  by_cases hw : w = .buzzer
  · subst hw
    rw [setWorker_worker, if_pos rfl] at hc
    show (nextTune s.tune (s.worker .buzzer) a).isSome = true
    rcases Worker.step_running hx hc with ⟨hr, hloop, hrun⟩ | ⟨rfl, htaken⟩
    · rw [nextTune_eq hloop hrun]
      exact ht c hr
    · obtain ⟨hmade, hrun, hcontext⟩ := (h.worker .buzzer).taken_task htaken
      obtain ⟨j, hj, hargs⟩ := h.numbered.args .buzzer c hmade
      simp only [nextTune, htaken]
      exact enterPlugin_isSome hj (hrun.trans (congrArg _ hargs)) (hcontext.trans (congrArg _ hargs))
  · rw [setWorker_worker, if_neg (Ne.symm hw)] at hc
    have htune : (s.setWorker w a x).tune = s.tune := if_neg hw
    exact htune ▸ ht c hc

theorem Tuned.effect (ht : Tuned s) (h : Reachable s) (he : Effect s act t) : Tuned t := by
  cases he with
  | submit j x _ _ hx | cancel x _ _ hx | stop v x _ hx | cleanupCancel x _ hx
  | beeperSubmit x _ _ hx | worker v a x _ hx => exact ht.setWorker h hx
  | tune => exact fun _ _ => rfl
  | _ => exact ht

theorem Reachable.tuned (h : Reachable s) : Tuned s :=
  h.invariant_of_reachable (by rintro _ rfl; exact nofun) fun _ _ _ hr ht hs =>
    ht.effect hr (step_effect hs)

end RemoteDevice.Manager
