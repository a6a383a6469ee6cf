import RemoteDevice.Manager.Shutdown
import RemoteDevice.Manager.Tasks
import RemoteDevice.Worker.Progress

/-! When the event loop waits for the buzzer worker: only inside `device_buzzer_on`, which waits
for its task by design. Everything else it does with the buzzer it finishes alone. -/

namespace RemoteDevice.Manager
open Worker (TaskId CancelId)

variable {s t : State} {act : Action}

/-! ## The call that the event-loop thread is in -/

def SubmitsJob (s : State) : Prop :=
  ∀ j c, s.main = .submitting j c →
    (s.worker j.worker).submits c ≠ .idle ∧ (s.worker j.worker).args c = j.args

theorem SubmitsJob.keep (hs : SubmitsJob s) (h : Reachable s) (he : Effect s act t)
    (hm : t.main = s.main) : SubmitsJob t := by
  intro j c hpc
  obtain ⟨hmade, hargs⟩ := hs j c (hm ▸ hpc)
  have hreach := h.worker j.worker
  cases he.worker_move j.worker with
  | rest heq => rw [heq]; exact ⟨hmade, hargs⟩
  | thread a ha hx =>
    exact ⟨hreach.step_submitted hx hmade, (Worker.step_continues hx ha).args ▸ hargs⟩
  | submit j' hj' hcalls hx =>
    refine ⟨hreach.step_submitted hx hmade, ?_⟩
    -- the new call has a number that no call has had
    have hne : c ≠ s.calls := fun e => hmade (h.numbered.submits _ _ (Nat.le_of_eq e.symm))
    rw [Worker.submitCall_eq hx]
    exact (Function.update_of_ne hne ..).trans hargs
  | cancel hcalls hx =>
    refine ⟨hreach.step_submitted hx hmade, ?_⟩
    rw [Worker.cancelCall_eq hx]
    exact hargs

theorem SubmitsJob.effect (hs : SubmitsJob s) (h : Reachable s) (he : Effect s act t) :
    SubmitsJob t := by
  have hsame : t.main = s.main → SubmitsJob t := hs.keep h he
  cases he with
  | beeperChecked | beeperSubmit | beeperReturn | refresh | worker | tune | join => exact hsame rfl
  | submit j x hpc hi hx =>
    intro j' c hpc'
    cases hpc'
    cases Worker.submitCall_eq hx
    simp [State.goto, State.count, Worker.State.setSubmit, Worker.State.emit]
  | _ => rintro j c ⟨⟩

theorem Reachable.submitsJob (h : Reachable s) : SubmitsJob s :=
  h.invariant_of_reachable (by rintro _ rfl; exact nofun) fun _ _ _ hr hs hst =>
    hs.effect hr (step_effect hst)

theorem Reachable.waits_job (h : Reachable s) {j : Job} {c : TaskId} (hm : s.main = .submitting j c)
    (hc : ((s.worker j.worker).submits c).waits = true) : j.args.wait = true := by
  obtain ⟨A, -, href⟩ := (h.worker j.worker).traced
  have hsub := href.submit c
  rw [← (h.submitsJob j c hm).2]
  cases hpc : (s.worker j.worker).submits c <;> rw [hpc] at hc hsub <;>
    first | exact hsub.1 | cases hc

/-! ## The event loop alone -/

def ofEventLoop (s : State) : Action → Bool
  | .request _ | .main _ => true
  | .worker w (.submit c _) =>
    match s.main with
    | .submitting j d => j.worker = w ∧ d = c
    | _ => false
  | .worker w (.cancel k) => w = .buzzer ∧ s.main = .cancelling k
  | _ => false

/-- The event-loop thread gets from `s` to `t` while every other thread stands still. -/
abbrev Alone (s : State) : State → Prop :=
  Runs.Reachable (· = s) (Runs.guarded (fun s a => ofEventLoop s a = true) step)

def AnswersAlone (s : State) (r : Request) (result : Int) : Prop :=
  ∃ t, Alone s t ∧ t.main = .idle ∧ t.log.head? = some (.returned r result)

theorem Alone.next {u : State} (a : Action) (h : Alone s t) (hown : ofEventLoop t a = true)
    (hs : step t a = some u) : Alone s u :=
  Runs.Reachable.next a h (Runs.guarded_eq_some.mpr ⟨hown, hs⟩)

theorem Alone.leads {w : WorkerId} {a : WorkerAction} {P : WorkerState → Prop} (h : Alone s t)
    (hthread : ∀ u, ofThread u w a = true)
    (hown : ∀ u : State, u.main = t.main → ofEventLoop u (.worker w a) = true)
    (hlead : Runs.Leads Worker.step a P (t.worker w)) :
    ∃ u, Alone s u ∧ P (u.worker w) ∧ u.main = t.main := by
  obtain ⟨n, y, hrun, hy⟩ := hlead
  induction n generalizing t with
  | zero =>
    cases hrun
    exact ⟨t, h, hy, rfl⟩
  | succ n ih =>
    rw [List.replicate_succ, Runs.run_cons] at hrun
    obtain ⟨x, hx, hrun⟩ := Option.bind_eq_some_iff.mp hrun
    have hs : step t (.worker w a) = some (t.setWorker w a x) := by
      simp [step, hthread, workerStep, hx]
    obtain ⟨u, hu, hP, hm⟩ := ih (h.next _ (hown t rfl) hs) hown (by simpa using hrun)
    exact ⟨u, hu, hP, hm⟩

theorem Reachable.job_answers (h : Reachable s) {j : Job} {c : TaskId}
    (hm : s.main = .submitting j c) (hwait : j.args.wait = false) :
    ∃ result, AnswersAlone s (.submit j) result := by
  have hp := phase_eq_zero h.orderly.api (by rw [hm]; rfl)
  obtain ⟨hmade, hargs⟩ := h.submitsJob j c hm
  have hcall : Worker.Unwaiting (s.worker j.worker) c :=
    (h.worker j.worker).unwaiting (h.lockAlive (by omega)) hmade (by rw [hargs]; exact hwait)
  obtain ⟨u, hu, ⟨r, hr⟩, hum⟩ := Alone.leads (s := s) (.start rfl) (fun _ => rfl)
    (fun v hv => by simp [ofEventLoop, hv, hm]) hcall.returns
  have hs : step u (.main true) = some (u.answer (.submit j) r) := by
    simp [step, mainStep, hum, hm, hr]
  exact ⟨r, _, hu.next _ rfl hs, rfl, rfl⟩

theorem Reachable.buzzerOff_answers (h : Reachable s) (hm : s.main = .idle)
    (hi : s.initialized = true) : AnswersAlone s .buzzerOff DeviceResult.ok := by
  have hp : s.phase = 0 := by
    rw [phase_of_ne (by rw [hm]; exact nofun), hi]
    rfl
  have hstarted := h.started (w := .buzzer) (by omega)
  have hlock := h.lockAlive (w := .buzzer) (by omega)
  have hfresh := h.numbered.cancels .buzzer s.calls (Nat.le_refl _)
  -- the request
  let s₁ := (s.note (.called .buzzerOff)).goto (.called .buzzerOff)
  have hs₁ : step s (.request .buzzerOff) = some s₁ := if_pos hm
  -- the call of `device_worker_cancel_pending`
  let x := (s.worker .buzzer).setCancel s.calls (.called DeviceResult.cancelled)
  let s₂ := (s₁.setWorker .buzzer (.cancelCall s.calls DeviceResult.cancelled) x).count.goto
    (.cancelling s.calls)
  have hx : Worker.step (s.worker .buzzer) (.cancelCall s.calls DeviceResult.cancelled) = some x :=
    if_pos hfresh
  have hs₂ : step s₁ (.main true) = some s₂ := by
    have hcall : cancelCall s₁ = some (s₁.setWorker .buzzer
        (.cancelCall s.calls DeviceResult.cancelled) x).count := by
      have hx₁ : Worker.step (s₁.worker .buzzer)
        (.cancelCall s₁.calls DeviceResult.cancelled) = some x := hx
      rw [cancelCall, workerStep, hx₁]
      rfl
    have hi₁ : s₁.initialized = true := hi
    show enterRequest s₁ .buzzerOff true = some s₂
    rw [enterRequest, hi₁, hcall]
    rfl
  have h₂ : Alone s s₂ := Alone.next _ (Alone.next _ (.start rfl) rfl hs₁) rfl hs₂
  have hworker : s₂.worker .buzzer = x := by simp [s₂, State.goto, State.count]
  have hreach : Worker.Reachable x := .next _ (h.worker .buzzer) hx
  have hreturns := hreach.cancelCall_returns hstarted hlock (Function.update_self ..)
  obtain ⟨s₃, h₃, hk, hm₃⟩ := h₂.leads (fun _ => rfl)
    (fun v hv => by simp [ofEventLoop, hv, s₂, State.goto]) (hworker ▸ hreturns)
  have hm₃ : s₃.main = .cancelling s.calls := hm₃
  -- `plugins.buzzer.off()`
  have hs₄ : step s₃ (.main true) = some (s₃.goto .off) := by simp [step, mainStep, hm₃, hk]
  exact ⟨_, (h₃.next _ rfl hs₄).next (.main true) rfl rfl, rfl, rfl⟩

theorem waits_iff_buzzerOn {j : Job} (hj : j.worker = .buzzer) :
    j.args.wait = true ↔ j = .buzzerOn := by
  cases j <;> simp_all [Job.worker, Job.args]

theorem buzzer_requests_answered (h : Reachable s) :
    (∀ j c, s.main = .submitting j c → j.worker = .buzzer →
      ((s.worker .buzzer).submits c).waits = true → j = .buzzerOn) ∧
    (∀ j c, s.main = .submitting j c → j.worker = .buzzer → j ≠ .buzzerOn →
      ∃ result, AnswersAlone s (.submit j) result) ∧
    (s.main = .idle → s.initialized = true → AnswersAlone s .buzzerOff DeviceResult.ok) := by
  refine ⟨fun j c hm hj hc => ?_, fun j c hm hj hne => ?_, h.buzzerOff_answers⟩
  · exact (waits_iff_buzzerOn hj).mp (h.waits_job hm (hj ▸ hc))
  · exact h.job_answers hm (by simpa using fun hw => hne ((waits_iff_buzzerOn hj).mp hw))

def musicPlaying : List Action :=
  [.request (.submit (.buzzerMusic [65])), .main true] ++
  List.replicate 3 (.worker .buzzer (.submit 0 .ok)) ++
  [.main true, .worker .buzzer .loop, .worker .buzzer .loop, .tune .opened, .tune .opened,
    .tune .opened, .tune (.hop 440 20 true), .tune .endOfData, .tune .endOfData]

theorem buzzer_requests_answered_musicPlaying :
    ∃ s, Runs.run step deviceInit musicPlaying = some s ∧ s.tune = some (.playDelay 20 0 []) ∧
      AnswersAlone s .buzzerOff DeviceResult.ok := by
  obtain ⟨s, hs⟩ : ∃ s, Runs.run step deviceInit musicPlaying = some s := ⟨_, rfl⟩
  have hread : some (s.tune, s.main, s.initialized) =
      some (some (.playDelay 20 0 []), .idle, true) :=
    (congrArg (Option.map fun s : State => (s.tune, s.main, s.initialized)) hs).symm.trans rfl
  simp only [Option.some.injEq, Prod.mk.injEq] at hread
  obtain ⟨htune, hm, hi⟩ := hread
  exact ⟨s, hs, htune, (buzzer_requests_answered (Runs.Reachable.run (.start rfl) hs)).2.2 hm hi⟩

/-- `BUZZER ON` during the music: the event loop sleeps until the music is over, and takes no
`BUZZER OFF` before. -/
theorem buzzerOn_waits_for_music :
    ∃ s, Runs.run step deviceInit (musicPlaying ++ [.request (.submit .buzzerOn), .main true] ++
        List.replicate 4 (.worker .buzzer (.submit 1 .ok))) = some s ∧
      s.main = .submitting .buzzerOn 1 ∧ (s.worker .buzzer).submits 1 = .asleep ∧
      (s.worker .buzzer).loop = .running 0 ∧
      (s.worker .buzzer).args 0 = (Job.buzzerMusic [65]).args ∧
      s.tune = some (.playDelay 20 0 []) ∧ step s (.request .buzzerOff) = none :=
  ⟨_, rfl, rfl, rfl, rfl, rfl, rfl, rfl⟩

end RemoteDevice.Manager
