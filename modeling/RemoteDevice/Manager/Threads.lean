import RemoteDevice.Buzzer.Finish
import RemoteDevice.Lib.Schedule
import RemoteDevice.Manager.EventLoop
import RemoteDevice.Worker.Drain
import RemoteDevice.Worker.Results

/-! The five threads of the process, and where each stands in the calls that it has made. -/

namespace RemoteDevice.Manager
open Worker (TaskId CancelId)

variable {s t : State} {act : Action}

inductive Thread
  | eventLoop
  | segment
  | worker (w : WorkerId)
  deriving DecidableEq

/-- Whose step it is; requests and spurious wakeups are nobody's. -/
def owner (s : State) : Action → Option Thread
  | .request _ => none
  | .main _ => some .eventLoop
  | .beeper _ | .refresh => some .segment
  | .worker w .loop | .worker w (.runReturn _) => some (.worker w)
  | .worker w (.submit c _) =>
    match s.main with
    | .submitting j d => if j.worker = w ∧ d = c then some .eventLoop else some .segment
    | _ => some .segment
  | .worker _ (.cancel _) | .worker _ .stop => some .eventLoop
  | .worker _ _ => none
  | .tune _ => some (.worker .buzzer)

def hops : Action → ℕ
  | .tune x => if x.isHop then 1 else 0
  | _ => 0

/-! ## The calls in progress -/

def State.CallerAt (s : State) : Prop :=
  match s.main with
  | .segmentClearing => s.seg.caller = .clearing
  | .cleanup .stopSegment => s.seg.caller = .idle
  | .cleanup .joinSegment => s.seg.caller = .joining ∨ s.seg.caller = .stopped
  | _ => s.initialized = true → s.seg.caller = .idle

structure Engaged (s : State) : Prop where
  cancels : ∀ k, s.Canceller .buzzer k → (s.worker .buzzer).cancels k ≠ .idle
  stop : ∀ w, s.main = .cleanup (.stopping w) → (s.worker w).stop ≠ .idle
  beeper : ∀ c, s.beeper = .submitting c → (s.worker .buzzer).submits c ≠ .idle ∧
    ((s.worker .buzzer).args c).wait = false
  caller : s.CallerAt

theorem Effect.cancels_made (h : Effect s act t)
    (hs : ∀ k, s.Canceller .buzzer k → (s.worker .buzzer).cancels k ≠ .idle) :
    ∀ k, t.Canceller .buzzer k → (t.worker .buzzer).cancels k ≠ .idle := by
  have hkeep : t.main = s.main → ∀ k, t.Canceller .buzzer k →
      (t.worker .buzzer).cancels k ≠ .idle := by
    intro hm k hk
    rw [State.Canceller, hm] at hk
    rcases h.worker_step .buzzer with heq | ⟨a, ha⟩
    · exact heq ▸ hs k hk
    · exact (Worker.step_made ha).1 k (hs k hk)
  have hnew : ∀ {x : WorkerState} {pc : MainPc},
      Worker.step (s.worker .buzzer) (.cancelCall s.calls DeviceResult.cancelled) = some x →
      pc = .cancelling s.calls ∨ pc = .cleanup (.cancelling s.calls) →
      ∀ k, pc = .cancelling k ∨ pc = .cleanup (.cancelling k) →
      ((s.setWorker .buzzer (.cancelCall s.calls DeviceResult.cancelled) x).worker .buzzer).cancels
        k ≠ .idle := by
    intro x pc hx hpc k hk
    obtain rfl : k = s.calls := by
      rcases hpc with rfl | rfl <;> rcases hk with hk | hk <;> cases hk <;> rfl
    rw [setWorker_worker, if_pos rfl, Worker.cancelCall_eq hx]
    simp [Worker.State.setCancel]
  cases h with
  | beeperChecked | beeperSubmit | beeperReturn | refresh | worker | tune | join => exact hkeep rfl
  | cancel x _ _ hx => exact fun k hk => hnew hx (.inl rfl) k hk.2
  | cleanupCancel x _ hx => exact fun k hk => hnew hx (.inr rfl) k hk.2
  | stopped w => cases w <;> rintro k ⟨-, hk | hk⟩ <;> cases hk
  | pluginCleanup p => cases p <;> rintro k ⟨-, hk | hk⟩ <;> cases hk
  | _ => rintro k ⟨-, hk | hk⟩ <;> cases hk

theorem Effect.stop_made (h : Effect s act t)
    (hs : ∀ w, s.main = .cleanup (.stopping w) → (s.worker w).stop ≠ .idle) :
    ∀ w, t.main = .cleanup (.stopping w) → (t.worker w).stop ≠ .idle := by
  have hkeep : t.main = s.main → ∀ w, t.main = .cleanup (.stopping w) →
      (t.worker w).stop ≠ .idle := by
    intro hm w hw
    rcases h.worker_step w with heq | ⟨a, ha⟩
    · exact heq ▸ hs w (hm ▸ hw)
    · exact (Worker.step_made ha).2 (hs w (hm ▸ hw))
  cases h with
  | beeperChecked | beeperSubmit | beeperReturn | refresh | worker | tune | join => exact hkeep rfl
  | stop v x hpc hx =>
    intro w hw
    cases hw
    simp only [State.goto, setWorker_worker, if_true]
    simp only [Worker.step, Option.ite_none_right_eq_some] at hx
    cases hx.2
    rintro ⟨⟩
  | stopped v => cases v <;> rintro w ⟨⟩
  | pluginCleanup p => cases p <;> rintro w ⟨⟩
  | _ => rintro w ⟨⟩

theorem Effect.beeper_made (h : Effect s act t) (hreach : Reachable s)
    (hs : ∀ c, s.beeper = .submitting c → (s.worker .buzzer).submits c ≠ .idle ∧
      ((s.worker .buzzer).args c).wait = false) :
    ∀ c, t.beeper = .submitting c → (t.worker .buzzer).submits c ≠ .idle ∧
      ((t.worker .buzzer).args c).wait = false := by
  have hkeep : t.beeper = s.beeper → ∀ c, t.beeper = .submitting c →
      (t.worker .buzzer).submits c ≠ .idle ∧ ((t.worker .buzzer).args c).wait = false := by
    intro hb c hc
    obtain ⟨hmade, hwait⟩ := hs c (hb ▸ hc)
    rcases h.worker_step .buzzer with heq | ⟨a, ha⟩
    · exact heq ▸ ⟨hmade, hwait⟩
    · exact ⟨(hreach.worker .buzzer).step_submitted ha hmade, by rw [Worker.step_args ha hmade, hwait]⟩
  cases h with
  | beeperChecked | beeperReturn => rintro c ⟨⟩
  | beeperSubmit x _ _ hx =>
    rintro c ⟨⟩
    simp only [State.setBeeper, State.count, setWorker_worker, if_true]
    rw [Worker.submitCall_eq hx]
    simp [Worker.State.setSubmit, Worker.State.emit, Job.args]
  | _ => exact hkeep rfl

def MainPc.quiet : MainPc → Bool
  | .segmentClearing | .cleanup _ => false
  | _ => true

theorem callerAt_iff (hm : s.main.quiet = true) :
    s.CallerAt ↔ (s.initialized = true → s.seg.caller = .idle) := by
  unfold State.CallerAt
  split
  · next hpc => rw [hpc] at hm; cases hm
  · next hpc => rw [hpc] at hm; cases hm
  · next hpc => rw [hpc] at hm; cases hm
  · exact Iff.rfl

theorem Effect.callerAt (h : Effect s act t) (ha : Api s) (hs : s.CallerAt) : t.CallerAt := by
  -- the event-loop thread stands still, and so does its place in the countdown
  have hkeep : t.main = s.main → t.initialized = s.initialized →
      t.seg.caller = s.seg.caller → t.CallerAt := by
    intro hm hi hc
    unfold State.CallerAt at hs ⊢
    rw [hm, hi, hc]
    exact hs
  -- it is in no call of the countdown and was in none
  have hplain : ∀ {pc : MainPc}, s.main = pc → pc.quiet = true → s.initialized = true →
      s.seg.caller = .idle := by
    rintro pc rfl hquiet
    exact (callerAt_iff hquiet).mp hs
  have hoff : ∀ {stage : Stage} {u : State}, s.main = .cleanup stage →
      u.initialized = s.initialized → u.initialized = true → u.seg.caller = .idle := by
    intro stage u hpc hu hi
    cases (hu.symm.trans hi).symm.trans (ha.cleanup _ hpc)
  cases h with
  | beeperChecked | beeperSubmit | worker | tune => exact hkeep rfl rfl rfl
  | beeperReturn x _ _ hx | refresh x _ hx =>
    exact hkeep rfl rfl (Segment.segmentRefreshLoop_control hx).1
  | request r hpc | uninitialized r hpc | rejected j result hpc | submit j x hpc
  | submitted j c result hpc | cancel x hpc | cancelled k hpc | off hpc | getStatus hpc
  | read p f rest hpc | gotStatus hpc =>
    exact (callerAt_iff rfl).mpr (hplain hpc rfl)
  | display v x hpc hi hx =>
    refine (callerAt_iff rfl).mpr fun _ => ?_
    simp only [Segment.step, Option.ite_none_right_eq_some] at hx
    rw [← hx.1, ← Option.some.inj hx.2]
    exact (Segment.deviceSegmentDisplay_control s.seg v).1
  | clear x hpc hi hx =>
    simp only [Segment.step, Option.ite_none_right_eq_some] at hx
    cases hx.2
    rfl
  | cleared x hpc hx =>
    refine (callerAt_iff rfl).mpr fun _ => ?_
    simp only [Segment.step, Option.ite_none_right_eq_some] at hx
    cases hx.2
    rfl
  | cleanup hpc hi => exact hplain hpc rfl hi
  | stopSegment x hpc hx =>
    simp only [Segment.step, Option.ite_none_right_eq_some] at hx
    cases hx.2
    show (if s.seg.started then _ else _) = _ ∨ (if s.seg.started then _ else _) = _
    split
    · exact .inl rfl
    · exact .inr rfl
  | join x hpc hx =>
    simp only [Segment.step, Option.ite_none_right_eq_some] at hx
    cases hx.2
    simp [State.CallerAt, State.setSegment, hpc]
  | joined hpc | stop v x hpc | cleanupOff hpc | cleanupCancel x hpc | cleanupCancelled k hpc
  | close hpc => exact hoff hpc rfl
  | stopped v hpc => cases v <;> exact hoff hpc rfl
  | pluginCleanup p hpc => cases p <;> exact hoff hpc rfl

theorem Engaged.effect (he : Engaged s) (hreach : Reachable s) (h : Effect s act t) : Engaged t :=
  ⟨h.cancels_made he.cancels, h.stop_made he.stop, h.beeper_made hreach he.beeper,
    h.callerAt hreach.orderly.api he.caller⟩

theorem engaged_deviceInit : Engaged deviceInit where
  cancels := by rintro k ⟨-, hm | hm⟩ <;> cases hm
  stop := nofun
  beeper := nofun
  caller := fun _ => rfl

theorem Reachable.engaged (h : Reachable s) : Engaged s :=
  h.invariant_of_reachable (by rintro _ rfl; exact engaged_deviceInit) fun _ _ _ hr he hs =>
    he.effect hr (step_effect hs)

/-! ## The turns of the threads -/

inductive EventLoopMove (s : State) : Action → Prop
  | main (m : Bool) : EventLoopMove s (.main m)
  | submit (j : Job) (c : TaskId) (o : Worker.CreateOutcome) (hm : s.main = .submitting j c) :
      EventLoopMove s (.worker j.worker (.submit c o))
  | cancel (k : CancelId) (hm : s.Canceller .buzzer k) : EventLoopMove s (.worker .buzzer (.cancel k))
  | stop (w : WorkerId) (hm : s.main = .cleanup (.stopping w)) : EventLoopMove s (.worker w .stop)

theorem Reachable.stopping (h : Reachable s) {w : WorkerId} (hidle : (s.worker w).stop ≠ .idle)
    (hreturned : (s.worker w).stop ≠ .returned) : s.main = .cleanup (.stopping w) := by
  have ho := h.orderly
  have hlow : ¬ s.phase ≤ w.stopRank := fun hp => hidle (ho.stopIdle w hp)
  have hhigh : ¬ w.stopRank + 1 < s.phase := fun hp => hreturned (ho.stopped w hp)
  have hp : s.phase = w.stopRank + 1 := by omega
  have hrank := stopRank_le_ten w
  unfold State.phase at hp
  split at hp
  · next stage hm => rw [hm, rank_eq_stopping hp]
  · split at hp <;> omega

theorem Reachable.eventLoop_move (h : Reachable s) (ho : owner s act = some .eventLoop)
    (hs : step s act = some t) : EventLoopMove s act := by
  have hord := h.orderly
  cases act with
  | request | beeper | refresh | tune => cases ho
  | main m => exact .main m
  | worker w a =>
    simp only [step, workerStep, Option.ite_none_right_eq_some, Option.map_eq_some_iff] at hs
    obtain ⟨-, x, hx, -⟩ := hs
    cases a with
    | submit c o =>
      simp only [owner] at ho
      split at ho
      · next j d hm =>
        split at ho
        · next heq =>
          obtain ⟨rfl, rfl⟩ := heq
          exact .submit j d o hm
        · cases ho
      · cases ho
    | cancel k =>
      obtain ⟨rfl, hm⟩ := hord.cancels w k (Worker.cancel_active hx)
      exact .cancel k ⟨rfl, hm⟩
    | stop =>
      refine .stop w (h.stopping ?_ ?_)
      · intro hstop
        simp [Worker.step, Worker.deviceWorkerStop, hstop] at hx
      · intro hstop
        simp [Worker.step, Worker.deviceWorkerStop, hstop] at hx
    | _ => cases ho

inductive SegmentMove (s : State) : Action → Prop
  | refresh (hr : s.seg.refresh ≠ .alarm) : SegmentMove s .refresh
  | beeper (m : Bool) (hr : s.seg.refresh = .alarm) : SegmentMove s (.beeper m)
  | submit (c : TaskId) (o : Worker.CreateOutcome) (hb : s.beeper = .submitting c) :
      SegmentMove s (.worker .buzzer (.submit c o))

theorem Reachable.segment_move (h : Reachable s) (ho : owner s act = some .segment)
    (hs : step s act = some t) : SegmentMove s act := by
  cases act with
  | request | main | tune => cases ho
  | beeper m =>
    refine .beeper m ?_
    by_contra hr
    simp [step, beeperStep, hr] at hs
  | refresh =>
    refine .refresh fun hr => ?_
    simp [step, hr] at hs
  | worker w a =>
    cases a with
    | submit c o =>
      simp only [step, workerStep, Option.ite_none_right_eq_some, Option.map_eq_some_iff] at hs
      obtain ⟨-, x, hx, -⟩ := hs
      rcases h.orderly.submits w c (Worker.submit_active hx) with ⟨j, hm, hj⟩ | ⟨rfl, hb⟩
      · simp [owner, hm, hj] at ho
      · exact .submit c o hb
    | _ => cases ho

inductive WorkerTurn (w : WorkerId) : Action → Prop
  | loop : WorkerTurn w (.worker w .loop)
  | runReturn (r : Int) : WorkerTurn w (.worker w (.runReturn r))
  | tune (x : Buzzer.Reading) (hw : w = .buzzer) : WorkerTurn w (.tune x)

theorem worker_turn {w : WorkerId} (ho : owner s act = some (.worker w)) : WorkerTurn w act := by
  cases act with
  | request | main | beeper | refresh => cases ho
  | tune x => cases ho; exact .tune x rfl
  | worker v a =>
    cases a with
    | loop => cases ho; exact .loop
    | runReturn r => cases ho; exact .runReturn r
    | submit c o =>
      simp only [owner] at ho
      split at ho
      · split at ho <;> cases ho
      · cases ho
    | _ => cases ho

end RemoteDevice.Manager
