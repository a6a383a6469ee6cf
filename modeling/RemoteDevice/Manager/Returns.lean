import RemoteDevice.Manager.Ranges
import RemoteDevice.Manager.Threads
import RemoteDevice.Worker.Returns

/-! What the workers return to the event-loop thread: never the code of a canceller, and of the
plugin functions only `led_on_bright` can fail. -/

namespace RemoteDevice.Manager
open Worker (TaskId CancelId)

variable {s t : State} {act : Action}

def beginsCall : WorkerAction → Bool
  | .submitCall _ _ | .cancelCall _ _ | .stopCall => true
  | _ => false

theorem Effect.worker_action (h : Effect s act t) (w : WorkerId) :
    t.worker w = s.worker w ∨ ∃ a, Worker.step (s.worker w) a = some (t.worker w) ∧
      (beginsCall a = true ∨ act = .worker w a ∧ ofThread s w a = true) := by
  cases h with
  | worker v a x ha hx =>
    by_cases hw : w = v
    · subst hw
      exact .inr ⟨a, by simpa using hx, .inr ⟨rfl, ha⟩⟩
    · exact .inl (by simp [hw])
  | stop v x _ hx =>
    by_cases hw : w = v
    · exact .inr ⟨.stopCall, by simpa [State.goto, hw] using hx, .inl rfl⟩
    · exact .inl (by simp [State.goto, hw])
  | submit j x _ _ hx =>
    by_cases hw : w = j.worker
    · exact .inr ⟨_, by simpa [State.goto, State.count, hw] using hx, .inl rfl⟩
    · exact .inl (by simp [State.goto, State.count, hw])
  | beeperSubmit x _ _ hx =>
    by_cases hw : w = .buzzer
    · exact .inr ⟨_, by simpa [State.setBeeper, State.count, hw] using hx, .inl rfl⟩
    · exact .inl (by simp [State.setBeeper, State.count, hw])
  | cancel x _ _ hx | cleanupCancel x _ hx =>
    by_cases hw : w = .buzzer
    · exact .inr ⟨_, by simpa [State.goto, State.count, hw] using hx, .inl rfl⟩
    · exact .inl (by simp [State.goto, State.count, hw])
  | _ => exact .inl rfl

/-! ## Cancelled tasks -/

def Unwaited (s : State) : Prop :=
  ∀ w k c code, .cancel k c code ∈ (s.worker w).log → ((s.worker w).args c).wait = false

theorem Reachable.visits_unwaited (h : Reachable s) {w : WorkerId} {k : CancelId} {c : TaskId}
    {code : Int} (hk : (s.worker w).cancels k = .next (some c) code) :
    ((s.worker w).args c).wait = false := by
  by_contra hwait
  have hactive := (h.worker w).visited_active hk (by simpa using hwait)
  obtain ⟨rfl, hm⟩ := h.orderly.cancels w k (by rw [State.cancelActive, hk]; rfl)
  rcases h.orderly.submits .buzzer c hactive with ⟨j, hj, -⟩ | ⟨-, hb⟩
  · rcases hm with hm | hm <;> cases hj.symm.trans hm
  · exact hwait (h.engaged.beeper c hb).2

theorem Reachable.unwaited (h : Reachable s) : Unwaited s := by
  refine h.invariant_of_reachable (P := Unwaited) ?_ ?_
  · rintro _ rfl w k c code hmem
    cases hmem
  · intro s act t (hreach : Reachable s) hs hst w k c code hmem
    have hworker := hreach.worker w
    rcases (step_effect hst).worker_action w with heq | ⟨a, hx, -⟩
    · rw [heq] at hmem ⊢
      exact hs w k c code hmem
    rcases Worker.step_entered hx hmem with hold | ⟨rfl, hk⟩
    · rw [Worker.step_args hx (hworker.disposed_made (.inr ⟨k, hold⟩))]
      exact hs w k c code hold
    · rw [(Worker.step_continues hx rfl).args]
      exact hreach.visits_unwaited hk

/-! ## Tasks that have run -/

def PluginResult (args : Args) (r : Int) : Prop :=
  r = DeviceResult.ok ∨ r = DeviceResult.deviceFailed ∧ ∃ b, args = (Job.ledOnBright b).args

def Sound (s : State) : Prop :=
  ∀ w c r, .runReturn c r ∈ (s.worker w).log → ((s.worker w).args c).wait = true →
    PluginResult ((s.worker w).args c) r

theorem sound_deviceInit : Sound deviceInit := by
  rintro w c r hmem
  cases hmem

theorem Sound.step (h : Sound s) (hreach : Reachable s) (hranged : Ranged s)
    (hs : Manager.step s act = some t)
    (hreturn : ∀ w c r, act = .worker w (.runReturn r) → w ≠ .buzzer →
      (s.worker w).loop = .running c → PluginResult ((s.worker w).args c) r) : Sound t := by
  intro w c r hmem hwait
  have hworker := hreach.worker w
  rcases (step_effect hs).worker_action w with heq | ⟨a, hx, hact⟩
  · rw [heq] at hmem hwait ⊢
    exact h w c r hmem hwait
  rcases Worker.step_entered hx hmem with hold | ⟨rfl, hl⟩
  · rw [Worker.step_args hx (hworker.disposed_made (.inl hold))] at hwait ⊢
    exact h w c r hold hwait
  · rw [(Worker.step_continues hx rfl).args] at hwait ⊢
    obtain ⟨rfl, hthread⟩ := hact.resolve_left (by rintro ⟨⟩)
    by_cases hb : w = .buzzer
    · -- a task that is waited for is a `buzzer_on`
      subst hb
      have htune : s.tune = some (.done r) := by simpa [ofThread] using hthread
      rcases hranged.tune c hl hwait with heq | heq <;> cases htune.symm.trans heq
      exact .inl rfl
    · exact hreturn w c r rfl hb hl

theorem args_ledOnBright {j : Job} {b : Int} (h : j.args = (Job.ledOnBright b).args) :
    j = .ledOnBright b := by
  cases j <;> cases h
  rfl

theorem Sound.result (h : Sound s) (hreach : Reachable s) {j : Job} {c : TaskId} {r : Int}
    (hpc : s.main = .submitting j c) (hr : (s.worker j.worker).submits c = .returned r) :
    Worker.Fails (s.worker j.worker) c r ∨ PluginResult j.args r := by
  obtain ⟨-, hargs⟩ := hreach.submitsJob j c hpc
  cases (hreach.worker j.worker).source hr with
  | failed hfails => exact .inl hfails
  | posted _ hok => exact .inr (.inl hok)
  | ran hwait hran => exact .inr (hargs ▸ h j.worker c r hran hwait)
  | cancelled hwait k hcancel =>
    cases (hreach.unwaited j.worker k c r hcancel).symm.trans hwait

end RemoteDevice.Manager
