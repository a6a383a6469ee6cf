import RemoteDevice.Manager.Service
import RemoteDevice.Manager.Tasks
import RemoteDevice.Worker.Results

/-! The range checks of the `device_*` functions: every task that reaches a worker has passed one,
and no result that the event-loop thread waits for is `DEVICE_RESULT_INVALID_VALUE`. -/

namespace RemoteDevice.Manager
open Worker (TaskId Results OwnCodes)

variable {s t : State} {act : Action}

def Valid (result : Int) : Prop := result ≠ DeviceResult.invalidValue

instance (result : Int) : Decidable (Valid result) := inferInstanceAs (Decidable (_ ≠ _))

theorem ownCodes_valid : OwnCodes Valid := ⟨by decide, by decide, by decide⟩

structure Ranged (s : State) : Prop where
  args : ∀ w c, (s.worker w).submits c ≠ .idle →
    ∃ j : Job, j.worker = w ∧ j.inRange = true ∧ (s.worker w).args c = j.args
  results : ∀ w, Results Valid (s.worker w)
  tune : ∀ c, (s.worker .buzzer).loop = .running c → ((s.worker .buzzer).args c).wait = true →
    s.tune = some .onStart ∨ s.tune = some (.done DeviceResult.ok)

theorem ranged_deviceInit : Ranged deviceInit :=
  ⟨fun _ _ hc => (hc rfl).elim, fun _ => Worker.results_start, by rintro c ⟨⟩⟩

inductive RangedMove (s : State) (act : Action) (t : State) (w : WorkerId) : Prop
  | rest (h : t.worker w = s.worker w)
  | thread (a : WorkerAction) (ha : a.calls = false)
      (hact : ∀ r, a = .runReturn r → act = .worker w a ∧ ofThread s w a = true)
      (hx : Worker.step (s.worker w) a = some (t.worker w))
  | submit (c : TaskId) (j : Job) (hj : j.worker = w) (hrange : j.inRange = true)
      (hx : Worker.step (s.worker w) (.submitCall c j.args) = some (t.worker w))
  | cancel (k : Worker.CancelId)
      (hx : Worker.step (s.worker w) (.cancelCall k DeviceResult.cancelled) = some (t.worker w))

theorem ranged_move (hs : step s act = some t) (w : WorkerId) : RangedMove s act t w := by
  have he := step_effect hs
  cases he with
  | submit j x hpc hi hx =>
    have hrange : j.inRange = true := by
      rw [step, mainStep, hpc] at hs
      rcases enterRequest_submit hi hs with ⟨result, heq, -⟩ | ⟨y, hrange, -⟩
      · cases congrArg State.main heq
      · exact hrange
    by_cases hw : w = j.worker
    · exact .submit s.calls j hw.symm hrange (by simpa [State.goto, State.count, hw] using hx)
    · exact .rest (by simp [State.goto, State.count, hw])
  | beeperSubmit x _ _ hx =>
    by_cases hw : w = .buzzer
    · exact .submit s.calls (.buzzerBeep 200) hw.symm rfl
        (by simpa [State.setBeeper, State.count, hw] using hx)
    · exact .rest (by simp [State.setBeeper, State.count, hw])
  | cancel x _ _ hx | cleanupCancel x _ hx =>
    by_cases hw : w = .buzzer
    · exact .cancel s.calls (by simpa [State.goto, State.count, hw] using hx)
    · exact .rest (by simp [State.goto, State.count, hw])
  | stop v x _ hx =>
    by_cases hw : w = v
    · exact .thread .stopCall rfl (by rintro r ⟨⟩) (by simpa [State.goto, hw] using hx)
    · exact .rest (by simp [State.goto, hw])
  | worker v a x ha hx =>
    by_cases hw : w = v
    · subst hw
      exact .thread a (ofThread_calls ha).1 (fun _ _ => ⟨rfl, ha⟩) (by simpa using hx)
    · exact .rest (by simp [hw])
  | _ => exact .rest rfl

theorem Ranged.step_args (h : Ranged s) (hs : step s act = some t)
    {w : WorkerId} {c : TaskId} (hc : (t.worker w).submits c ≠ .idle) :
    ∃ j : Job, j.worker = w ∧ j.inRange = true ∧ (t.worker w).args c = j.args := by
  have hold : ∀ {a : WorkerAction}, Worker.step (s.worker w) a = some (t.worker w) →
      (s.worker w).submits c ≠ .idle →
      ∃ j : Job, j.worker = w ∧ j.inRange = true ∧ (t.worker w).args c = j.args := by
    intro a hx hc
    rw [Worker.step_args hx hc]
    exact h.args w c hc
  cases ranged_move hs w with
  | rest heq =>
    rw [heq] at hc ⊢
    exact h.args w c hc
  | thread a ha hact hx =>
    exact hold hx fun hidle => hc ((Worker.step_continues hx ha).submitsIdle c hidle)
  | submit d j hj hrange hx =>
    -- the new call brings the arguments of its job, the older ones keep theirs
    by_cases hcd : c = d
    · refine ⟨j, hj, hrange, ?_⟩
      rw [Worker.submitCall_eq hx, hcd]
      exact Function.update_self ..
    · refine hold hx fun hidle => hc ?_
      rw [Worker.submitCall_eq hx]
      exact (Function.update_of_ne hcd ..).trans hidle
  | cancel k hx =>
    refine hold hx fun hidle => hc ?_
    rw [Worker.cancelCall_eq hx]
    exact hidle

theorem Ranged.buzzer_return (h : Ranged s) (hreach : Reachable s) {c : TaskId} {r : Int}
    (hthread : ofThread s .buzzer (.runReturn r) = true)
    (hl : (s.worker .buzzer).loop = .running c) (hw : ((s.worker .buzzer).heap c).wait = true) :
    Valid r := by
  have htask := (hreach.worker .buzzer).running_task hl
  rw [htask.2.2.2] at hw
  have htune : s.tune = some (.done r) := by simpa [ofThread] using hthread
  rcases h.tune c hl hw with heq | heq <;> cases htune.symm.trans heq
  exact ownCodes_valid.ok

theorem Ranged.step_results (h : Ranged s) (hreach : Reachable s) (hs : step s act = some t)
    (hreturn : ∀ w r, act = .worker w (.runReturn r) → w ≠ .buzzer → Valid r) (w : WorkerId) :
    Results Valid (t.worker w) := by
  have hworker := hreach.worker w
  cases ranged_move hs w with
  | rest heq =>
    rw [heq]
    exact h.results w
  | thread a ha hact hx =>
    refine (h.results w).step hworker ownCodes_valid hx (by rintro k code rfl; cases ha) ?_
    rintro c r rfl hl hw
    obtain ⟨rfl, hthread⟩ := hact r rfl
    by_cases hb : w = .buzzer
    · subst hb
      exact h.buzzer_return hreach hthread hl hw
    · exact hreturn w r rfl hb
  | submit c j hj hrange hx =>
    exact (h.results w).step hworker ownCodes_valid hx (by rintro k code ⟨⟩) (by rintro c r ⟨⟩)
  | cancel k hx =>
    refine (h.results w).step hworker ownCodes_valid hx ?_ (by rintro c r ⟨⟩)
    rintro k' code ⟨⟩
    exact (by decide : Valid DeviceResult.cancelled)

theorem enterPlugin_waited {j : Job} (hj : j.worker = .buzzer) (hwait : j.args.wait = true)
    {task : Worker.DeviceTask TaskFn Cleanup Context} (hrun : task.run = j.args.run) :
    enterPlugin task = some .onStart := by
  cases j with
  | buzzerOn =>
    unfold enterPlugin
    rw [hrun]
    rfl
  | buzzerMusic | buzzerBeep => cases hwait
  | ledOn | ledOnBright | ledOff | lightRead => cases hj

theorem Ranged.tune_setWorker (h : Ranged s) (hreach : Reachable s) {w : WorkerId}
    {a : WorkerAction} {x : WorkerState} (hx : Worker.step (s.worker w) a = some x) {c : TaskId}
    (hl : ((s.setWorker w a x).worker .buzzer).loop = .running c)
    (hwait : (((s.setWorker w a x).worker .buzzer).args c).wait = true) :
    (s.setWorker w a x).tune = some .onStart ∨
      (s.setWorker w a x).tune = some (.done DeviceResult.ok) := by
  by_cases hw : w = .buzzer
  · subst hw
    rw [setWorker_worker, if_pos rfl] at hl hwait
    show nextTune s.tune (s.worker .buzzer) a = _ ∨ nextTune s.tune (s.worker .buzzer) a = _
    -- the task was running before, or the worker enters its plugin function now
    rcases Worker.step_running hx hl with ⟨hr, hloop, hrun⟩ | ⟨rfl, htaken⟩
    · have hmade := ((hreach.worker .buzzer).running_task hr).1
      rw [Worker.step_args hx hmade] at hwait
      rw [nextTune_eq hloop hrun]
      exact h.tune c hr hwait
    · obtain ⟨hmade, hrun, -⟩ := (hreach.worker .buzzer).taken_task htaken
      obtain ⟨j, hj, -, hargs⟩ := h.args .buzzer c hmade
      rw [Worker.step_args hx hmade, hargs] at hwait
      simp only [nextTune, htaken]
      exact .inl (enterPlugin_waited hj hwait (hrun.trans (congrArg _ hargs)))
  · rw [setWorker_worker, if_neg (Ne.symm hw)] at hl hwait
    have htune : (s.setWorker w a x).tune = s.tune := if_neg hw
    rw [htune]
    exact h.tune c hl hwait

theorem Ranged.step_tune (h : Ranged s) (hreach : Reachable s) (hs : step s act = some t) :
    ∀ c, (t.worker .buzzer).loop = .running c → ((t.worker .buzzer).args c).wait = true →
      t.tune = some .onStart ∨ t.tune = some (.done DeviceResult.ok) := by
  intro c hl hwait
  cases step_effect hs with
  | submit j x _ _ hx | cancel x _ _ hx | stop v x _ hx | cleanupCancel x _ hx
  | beeperSubmit x _ _ hx | worker v a x _ hx => exact h.tune_setWorker hreach hx hl hwait
  | tune d pc y r ht hd hr =>
    rcases h.tune c hl hwait with heq | heq <;> cases ht.symm.trans heq
    · cases hr
      exact .inr rfl
    · cases hr
  | _ => exact h.tune c hl hwait

theorem Ranged.step (h : Ranged s) (hreach : Reachable s) (hs : step s act = some t)
    (hreturn : ∀ w r, act = .worker w (.runReturn r) → w ≠ .buzzer → Valid r) : Ranged t :=
  ⟨fun _ _ => h.step_args hs, h.step_results hreach hs hreturn, h.step_tune hreach hs⟩

/-! ## The answers -/

def Request.inRange : Request → Bool
  | .submit j => j.inRange
  | .segmentDisplay v => 0 ≤ v && v ≤ 9
  | _ => true

theorem Ranged.answer_valid (h : Ranged s) (hserving : Serving s) {m : Bool}
    (hs : Manager.step s (.main m) = some t) {r r' : Request} (hr : s.main.request = some r)
    (hrange : r.inRange = true) {result : Int} {log : List Entry}
    (hlog : t.log = .returned r' result :: log) (hidle : t.main = .idle) : Valid result := by
  have hresult : ∀ {r'' : Request} {result' : Int} {u : State}, t = u.answer r'' result' →
      result = result' := by
    rintro r'' result' u rfl
    cases hlog
    rfl
  cases step_effect hs with
  | uninitialized r'' hpc hi => cases hi.symm.trans hserving.initialized
  | rejected j result' hpc hi =>
    rw [Manager.step, mainStep, hpc] at hs
    obtain rfl : r = .submit j := Option.some.inj (hr.symm.trans (congrArg MainPc.request hpc))
    rcases enterRequest_submit hi hs with ⟨result'', heq, ⟨rfl, hbad⟩ | ⟨rfl, -⟩⟩ | ⟨x, -, -, heq⟩
    · cases hbad.symm.trans hrange
    · rw [hresult heq]
      decide
    · cases congrArg State.main heq
  | submitted j c result' hpc hc =>
    obtain rfl := hresult rfl
    exact (h.results j.worker).submits c result (by rw [hc]; rfl)
  | display v x hpc =>
    obtain rfl : r = .segmentDisplay v :=
      Option.some.inj (hr.symm.trans (congrArg MainPc.request hpc))
    simp only [Request.inRange, Bool.and_eq_true, decide_eq_true_eq] at hrange
    rw [hresult rfl, Segment.deviceSegmentDisplay, if_neg (by omega)]
    exact ownCodes_valid.ok
  | off | cleared | gotStatus | close =>
    rw [hresult rfl]
    decide
  | join y hpc => cases hpc.symm.trans hidle
  | _ => cases hidle

end RemoteDevice.Manager
