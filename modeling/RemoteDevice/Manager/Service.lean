import RemoteDevice.Manager.Phases
import RemoteDevice.Worker.Solo

/-! The manager in service, before any `device_cleanup`: which request the event-loop thread is
executing, and where the one task is that the LED and the light worker have between them. -/

namespace RemoteDevice.Manager
open Worker (TaskId AtRest Solo Place)

variable {s t : State} {act : Action}

def MainPc.request : MainPc → Option Request
  | .idle => none
  | .called r => some r
  | .submitting j _ => some (.submit j)
  | .cancelling _ | .off => some .buzzerOff
  | .segmentClearing => some .segmentClear
  | .reading _ => some .getStatus
  | .cleanup _ => some .cleanup

structure Serving (s : State) : Prop where
  reachable : Reachable s
  initialized : s.initialized = true
  request : s.main.request ≠ some .cleanup

theorem Serving.phase (h : Serving s) : s.phase = 0 := by
  unfold State.phase
  split
  · next stage hpc =>
    have := h.request
    rw [hpc] at this
    exact (this rfl).elim
  · rw [h.initialized]
    rfl

/-- Only the buzzer worker is ever cancelled. -/
theorem Serving.inService (h : Serving s) {w : WorkerId} (hw : w ≠ .buzzer) :
    Worker.InService (s.worker w) := by
  have hstop : (s.worker w).stop = .idle :=
    h.reachable.orderly.stopIdle w (by rw [h.phase]; exact Nat.zero_le _)
  have hctl := (h.reachable.worker w).control
  refine ⟨?_, hctl.running.mpr (.inl hstop), ?_, hstop, fun k => ?_⟩
  · by_contra hs
    cases hstop.symm.trans (hctl.started (by simpa using hs))
  · by_contra hl
    rcases hctl.lockAlive (by simpa using hl) with hl' | hl' <;> cases hstop.symm.trans hl'
  · by_contra hk
    exact hw (h.reachable.orderly.cancels w k (by simpa [State.cancelActive] using hk)).1

theorem Effect.initialized_eq (h : Effect s act t) (hpc : s.main ≠ .called .cleanup) :
    t.initialized = s.initialized := by
  cases h with
  | cleanup hpc' => exact (hpc hpc').elim
  | _ => rfl

/-! ## The task of the event-loop thread -/

/-- The LED and the light worker are at rest, but for the one that has the task of the job for
which the event-loop thread waits. -/
inductive Site (s : State) : Option (Job × Place) → Prop
  | quiet (hrest : ∀ w ≠ .buzzer, AtRest (s.worker w))
      (hmain : ∀ j c, s.main = .submitting j c → j.worker = .buzzer) : Site s none
  | served (j : Job) (c : TaskId) (p : Place) (hmain : s.main = .submitting j c)
      (hj : j.worker ≠ .buzzer) (hsolo : Solo (s.worker j.worker) c p)
      (hargs : (s.worker j.worker).args c = j.args)
      (hrest : ∀ w ≠ .buzzer, w ≠ j.worker → AtRest (s.worker w)) : Site s (some (j, p))

def Rejected (j : Job) (mallocOk : Bool) (result : Int) : Prop :=
  result = DeviceResult.invalidValue ∧ j.inRange = false ∨
    result = DeviceResult.deviceFailed ∧ j.allocates = true ∧ mallocOk = false

def Action.background : Action → Bool
  | .request _ | .main _ => false
  | .worker w (.runReturn _) => w = .buzzer
  | _ => true

inductive Move (s : State) : Action → State → Option (Job × Place) → Option (Job × Place) → Prop
  | request {t : State} (r : Request) (hpc : s.main = .idle) (hmain : t.main = .called r) :
      Move s (.request r) t none none
  | onward {t : State} {m : Bool} (hidle : t.main ≠ .idle)
      (hmain : t.main.request = s.main.request) : Move s (.main m) t none none
  | answer {t : State} {m : Bool} (r : Request) (result : Int) (log : List Entry)
      (hpc : s.main.request = some r) (hmain : t.main = .idle)
      (hlog : t.log = .returned r result :: log)
      (hjob : ∀ j, r = .submit j → j.worker ≠ .buzzer → Rejected j m result) :
      Move s (.main m) t none none
  | begin {t : State} {m : Bool} (j : Job) (c : TaskId) (hpc : s.main = .called (.submit j))
      (hmain : t.main = .submitting j c) : Move s (.main m) t none (some (j, .arriving))
  | thread {act : Action} {t : State} {x : Option (Job × Place)} (hmain : t.main = s.main)
      (hact : act.background = true) : Move s act t x x
  | worker {t : State} (j : Job) (c : TaskId) (p q : Place) (a : WorkerAction)
      (hpc : s.main = .submitting j c) (hj : j.worker ≠ .buzzer) (hmain : t.main = s.main)
      (hnext : Place.Next (s.worker j.worker) c a p q) : Move s (.worker j.worker a) t (some (j, p)) (some (j, q))
  | finish {t : State} {m : Bool} (j : Job) (p : Place) (result : Int) (log : List Entry)
      (hmain : t.main = .idle) (hlog : t.log = .returned (.submit j) result :: log)
      (hp : p = .settled result ∨ p = .refused result ∧ result ≠ DeviceResult.ok) :
      Move s (.main m) t (some (j, p)) none

theorem Site.rest {x : Option (Job × Place)} (h : Site s x)
    (hmain : ∀ j c, s.main ≠ .submitting j c) : x = none ∧ ∀ w ≠ .buzzer, AtRest (s.worker w) := by
  cases h with
  | quiet hrest => exact ⟨rfl, hrest⟩
  | served j c p hpc => exact (hmain j c hpc).elim

theorem Site.keep {x : Option (Job × Place)} (h : Site s x)
    (hworker : ∀ w ≠ .buzzer, t.worker w = s.worker w) (hmain : t.main = s.main) : Site t x := by
  cases h with
  | quiet hrest hbuzzer =>
    exact .quiet (fun w hw => by rw [hworker w hw]; exact hrest w hw) (by rw [hmain]; exact hbuzzer)
  | served j c p hpc hj hsolo hargs hrest =>
    refine .served j c p (hmain.trans hpc) hj ?_ ?_ fun w hw hne => ?_
    · rw [hworker _ hj]
      exact hsolo
    · rw [hworker _ hj]
      exact hargs
    · rw [hworker w hw]
      exact hrest w hw hne

theorem enterRequest_submit {j : Job} {m : Bool} (hi : s.initialized = true)
    (h : enterRequest s (.submit j) m = some t) :
    (∃ result, t = s.answer (.submit j) result ∧ Rejected j m result) ∨
      ∃ x, j.inRange = true ∧
        Worker.step (s.worker j.worker) (.submitCall s.calls j.args) = some x ∧
        t = (s.setWorker j.worker (.submitCall s.calls j.args) x).count.goto (.submitting j s.calls) := by
  unfold enterRequest at h
  rw [hi] at h
  simp only [Bool.not_true, Bool.false_eq_true, if_false] at h
  split at h
  · next hrange => exact .inl ⟨_, (Option.some.inj h).symm, .inl ⟨rfl, by simpa using hrange⟩⟩
  next hrange =>
  split at h
  · next halloc =>
    simp only [Bool.and_eq_true, Bool.not_eq_eq_eq_not, Bool.not_true] at halloc
    exact .inl ⟨_, (Option.some.inj h).symm, .inr ⟨rfl, halloc⟩⟩
  · simp only [submitCall, workerStep, Option.map_map, Option.map_eq_some_iff] at h
    obtain ⟨x, hx, rfl⟩ := h
    exact .inr ⟨x, by simpa using hrange, hx, rfl⟩

theorem args_wait {j : Job} (hj : j.worker ≠ .buzzer) :
    j.args.wait = true ∧ j.args.run.isSome = true := by
  cases j <;> first | exact ⟨rfl, rfl⟩ | exact (hj rfl).elim

theorem Site.submit {j : Job} {m : Bool} {x : Option (Job × Place)} (h : Site s x)
    (hpc : s.main = .called (.submit j)) (hi : s.initialized = true)
    (hs : enterRequest s (.submit j) m = some t) : ∃ y, Site t y ∧ Move s (.main m) t x y := by
  obtain ⟨rfl, hrest⟩ := h.rest (by rw [hpc]; exact nofun)
  rcases enterRequest_submit hi hs with ⟨result, rfl, hresult⟩ | ⟨x, -, hx, rfl⟩
  · refine ⟨none, .quiet hrest nofun, .answer (.submit j) result _ (congrArg _ hpc) rfl rfl ?_⟩
    rintro j' ⟨⟩ -
    exact hresult
  by_cases hj : j.worker = .buzzer
  · refine ⟨none, .quiet (fun w hw => ?_) ?_, .onward nofun (congrArg MainPc.request hpc).symm⟩
    · have hne : w ≠ j.worker := fun e => hw (e.trans hj)
      simpa [State.goto, State.count, hne] using hrest w hw
    · rintro j' c ⟨⟩
      exact hj
  · obtain ⟨hwait, hrun⟩ := args_wait hj
    obtain ⟨hsolo, hargs⟩ := (hrest _ hj).submitCall hx hwait hrun
    refine ⟨_, .served j s.calls .arriving rfl hj ?_ ?_ fun w hw hne => ?_, .begin j s.calls hpc rfl⟩
    · simpa [State.goto, State.count] using hsolo
    · simpa [State.goto, State.count] using hargs
    · simpa [State.goto, State.count, hne] using hrest w hw

theorem Site.submitted {j : Job} {c : TaskId} {result : Int} {m : Bool} {x : Option (Job × Place)}
    (h : Site s x) (hpc : s.main = .submitting j c)
    (hc : (s.worker j.worker).submits c = .returned result) :
    ∃ y, Site (s.answer (.submit j) result) y ∧
      Move s (.main m) (s.answer (.submit j) result) x y := by
  cases h with
  | quiet hrest hbuzzer =>
    refine ⟨none, .quiet hrest nofun, .answer (.submit j) result _ (congrArg _ hpc) rfl rfl ?_⟩
    rintro j' ⟨⟩ hj
    exact (hj (hbuzzer j c hpc)).elim
  | served j' c' p hmain hj hsolo hargs hrest =>
    cases hmain.symm.trans hpc
    obtain ⟨hrested, hp⟩ := hsolo.atRest hc
    refine ⟨none, .quiet (fun w hw => ?_) nofun, .finish j p result _ rfl rfl hp⟩
    by_cases hne : w = j.worker
    · exact hne ▸ hrested
    · exact hrest w hw hne

theorem background_worker {w : WorkerId} {a : WorkerAction} (h : ∀ r, a ≠ .runReturn r) :
    (Action.worker w a).background = true := by
  cases a <;> first | rfl | exact (h _ rfl).elim

theorem Site.worker {w : WorkerId} {a : WorkerAction} {y : WorkerState} {x : Option (Job × Place)}
    (h : Site s x) (hserving : Serving s) (ha : ofThread s w a = true)
    (hy : Worker.step (s.worker w) a = some y) :
    ∃ z, Site (s.setWorker w a y) z ∧ Move s (.worker w a) (s.setWorker w a y) x z := by
  have hcalls := ofThread_calls ha
  -- the site says nothing of the buzzer worker
  by_cases hw : w = .buzzer
  · refine ⟨x, h.keep (fun v hv => ?_) rfl, .thread rfl ?_⟩
    · have hne : v ≠ w := fun e => hv (e.trans hw)
      simp [hne]
    · cases a <;> first | rfl | simp [Action.background, hw]
  have hresting : AtRest (s.worker w) → AtRest y ∧ ∀ r, a ≠ .runReturn r := fun hrest =>
    hrest.step (hserving.inService hw) hy hcalls.1 hcalls.2
  have hothers : ∀ v ≠ w, (s.setWorker w a y).worker v = s.worker v := fun v hv => by simp [hv]
  have hself : (s.setWorker w a y).worker w = y := by simp
  cases h with
  | quiet hrest hbuzzer =>
    refine ⟨none, .quiet (fun v hv => ?_) hbuzzer, .thread rfl (background_worker (hresting (hrest w hw)).2)⟩
    by_cases hvw : v = w
    · rw [hvw, hself]
      exact (hresting (hrest w hw)).1
    · rw [hothers v hvw]
      exact hrest v hv
  | served j c p hpc hj hsolo hargs hrest =>
    -- the worker with the task in progress, or one at rest beside it
    by_cases hjw : w = j.worker
    · subst hjw
      obtain ⟨q, hsolo', hnext⟩ := hsolo.step (hserving.inService hj) hy hcalls.1 hcalls.2
      have hargs' : y.args = (s.worker j.worker).args := (Worker.step_continues hy hcalls.1).args
      refine ⟨some (j, q), .served j c q hpc hj (by rw [hself]; exact hsolo') ?_ fun v hv hne => ?_,
        .worker j c p q a hpc hj rfl hnext⟩
      · rw [hself, hargs']
        exact hargs
      · rw [hothers v hne]
        exact hrest v hv hne
    · have hrested := hresting (hrest w hw hjw)
      refine ⟨some (j, p), .served j c p hpc hj ?_ ?_ fun v hv hne => ?_,
        .thread rfl (background_worker hrested.2)⟩
      · rw [hothers _ (Ne.symm hjw)]
        exact hsolo
      · rw [hothers _ (Ne.symm hjw)]
        exact hargs
      · by_cases hvw : v = w
        · rw [hvw, hself]
          exact hrested.1
        · rw [hothers v hvw]
          exact hrest v hv hne

theorem setWorker_buzzer (s : State) (a : WorkerAction) (y : WorkerState) :
    ∀ w ≠ .buzzer, (s.setWorker .buzzer a y).worker w = s.worker w := by
  intro w hw
  rw [setWorker_worker, if_neg hw]

theorem Site.step {x : Option (Job × Place)} (h : Site s x) (hserving : Serving s)
    (hs : step s act = some t) : ∃ y, Site t y ∧ Move s act t x y := by
  -- a step outside a submission that leaves the LED and the light worker alone
  have hnone : (∀ j c, s.main ≠ .submitting j c) → (∀ w ≠ .buzzer, t.worker w = s.worker w) →
      (∀ j c, t.main ≠ .submitting j c) → x = none ∧ Site t none := fun hmain hworker hmain' => by
    obtain ⟨hx, hrest⟩ := h.rest hmain
    exact ⟨hx, .quiet (fun w hw => by rw [hworker w hw]; exact hrest w hw)
      fun j c hpc => (hmain' j c hpc).elim⟩
  have hcleanup : ∀ stage, s.main ≠ .cleanup stage := fun stage hpc =>
    hserving.request (congrArg MainPc.request hpc)
  cases step_effect hs with
  | request r hpc =>
    obtain ⟨rfl, hsite⟩ := hnone (by rw [hpc]; rintro j c ⟨⟩) (fun _ _ => rfl) (by rintro j c ⟨⟩)
    exact ⟨none, hsite, .request r hpc rfl⟩
  | uninitialized r hpc hi => cases hi.symm.trans hserving.initialized
  | rejected j result hpc hi =>
    rw [Manager.step, mainStep, hpc] at hs
    exact h.submit hpc hi hs
  | submit j y hpc hi hy =>
    rw [Manager.step, mainStep, hpc] at hs
    exact h.submit hpc hi hs
  | submitted j c result hpc hc => exact h.submitted hpc hc
  | cancel y hpc hi hy =>
    have hworker := setWorker_buzzer s (.cancelCall s.calls DeviceResult.cancelled) y
    obtain ⟨rfl, hsite⟩ := hnone (by rw [hpc]; rintro j c ⟨⟩) hworker (by rintro j c ⟨⟩)
    exact ⟨none, hsite, .onward (by rintro ⟨⟩) (congrArg MainPc.request hpc).symm⟩
  | cancelled k hpc | getStatus hpc | read p f rest hpc | clear y hpc =>
    obtain ⟨rfl, hsite⟩ := hnone (by rw [hpc]; rintro j c ⟨⟩) (fun _ _ => rfl) (by rintro j c ⟨⟩)
    exact ⟨none, hsite, .onward (by rintro ⟨⟩) (congrArg MainPc.request hpc).symm⟩
  | off hpc | display v y hpc | cleared y hpc | gotStatus hpc =>
    obtain ⟨rfl, hsite⟩ := hnone (by rw [hpc]; rintro j c ⟨⟩) (fun _ _ => rfl) (by rintro j c ⟨⟩)
    exact ⟨none, hsite, .answer _ _ _ (congrArg _ hpc) rfl rfl (by rintro j ⟨⟩)⟩
  | cleanup hpc => exact (hserving.request (congrArg MainPc.request hpc)).elim
  | stopSegment y hpc | join y hpc | joined hpc | stop v y hpc | stopped v hpc | cleanupOff hpc
  | cleanupCancel y hpc | cleanupCancelled k hpc | pluginCleanup p hpc | close hpc =>
    exact (hcleanup _ hpc).elim
  | beeperChecked | beeperReturn | refresh | tune =>
    exact ⟨x, h.keep (fun _ _ => rfl) rfl, .thread rfl rfl⟩
  | beeperSubmit y =>
    have hworker := setWorker_buzzer s (.submitCall s.calls (Job.buzzerBeep 200).args) y
    exact ⟨x, h.keep hworker rfl, .thread rfl rfl⟩
  | worker w a y ha hy => exact h.worker hserving ha hy

theorem Move.request_eq {x y : Option (Job × Place)} (h : Move s act t x y) (ht : t.main ≠ .idle) :
    t.main.request = s.main.request ∨ ∃ r, act = .request r ∧ t.main.request = some r := by
  cases h with
  | request r hpc hmain => exact .inr ⟨r, rfl, congrArg MainPc.request hmain⟩
  | onward hidle hmain => exact .inl hmain
  | answer r result log hpc hmain => exact (ht hmain).elim
  | begin j c hpc hmain => exact .inl (by rw [hmain, hpc]; rfl)
  | thread hmain | worker j c p q a hpc hj hmain => exact .inl (by rw [hmain])
  | finish j p result log hmain => exact (ht hmain).elim

theorem Serving.move {x y : Option (Job × Place)} (h : Serving s) (hs : step s act = some t)
    (hmove : Move s act t x y) (hact : act ≠ .request .cleanup) : Serving t := by
  refine ⟨.next _ h.reachable hs, ?_, fun hr => ?_⟩
  · rw [(step_effect hs).initialized_eq fun hpc => h.request (congrArg MainPc.request hpc)]
    exact h.initialized
  · have ht : t.main ≠ .idle := by
      intro hidle
      rw [hidle] at hr
      cases hr
    rcases hmove.request_eq ht with heq | ⟨r, rfl, heq⟩
    · exact h.request (heq.symm.trans hr)
    · cases heq.symm.trans hr
      exact hact rfl

theorem serving_deviceInit : Serving deviceInit :=
  ⟨.start rfl, rfl, fun h => by cases h⟩

theorem site_deviceInit : Site deviceInit none :=
  .quiet (fun _ _ => ⟨⟨.inl rfl, rfl, rfl⟩, fun _ => rfl⟩) (by rintro j c ⟨⟩)

end RemoteDevice.Manager
