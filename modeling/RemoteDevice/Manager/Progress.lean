import RemoteDevice.Manager.Service
import RemoteDevice.Manager.Threads

/-! The device manager never deadlocks: from every reachable state a schedule of its threads brings
the event-loop thread back out of the manager, the shutdown included. -/

namespace RemoteDevice.Manager
open Worker (TaskId CancelId)
open Buzzer (RunPc Reading)

variable {s t : State} {act : Action} {n : ℕ}

/-- A schedule leads there, whatever the allocators, the plugins and the files answer, if the files
read from now on hold only so many pitches. -/
abbrev Forces (P : State × ℕ → Prop) : State × ℕ → Prop :=
  Runs.Forces (fun x => owner x.1) (Runs.limited hops step) P

variable {P : State × ℕ → Prop}

theorem Forces.reachable (h : Forces P (s, n)) (hs : Reachable s) :
    Forces (fun x => Reachable x.1 ∧ P x) (s, n) :=
  Runs.Forces.keep h
    (fun _ _ a _ hx _ _ hstep => .next a hx (Runs.limited_eq_some.mp hstep).2.1) hs

theorem forces_turn {i : Thread} (hi : i ≠ .worker .buzzer)
    (hready : ∃ a t, owner s a = some i ∧ step s a = some t)
    (h : ∀ a t, owner s a = some i → step s a = some t → Forces P (t, n)) : Forces P (s, n) := by
  have hhops : ∀ a, owner s a = some i → hops a = 0 := by
    intro a ha
    cases a with
    | tune x => exact (hi (Option.some.inj ha).symm).elim
    | _ => rfl
  obtain ⟨a, t, ho, ht⟩ := hready
  refine .turn i ⟨a, (t, n), ho, Runs.limited_eq_some.mpr ⟨?_, ht, ?_⟩⟩ ?_
  · rw [hhops a ho]
    exact Nat.zero_le n
  · rw [hhops a ho]
    rfl
  · rintro a ⟨u, m⟩ ho hu
    obtain ⟨-, hu, rfl⟩ := Runs.limited_eq_some.mp hu
    dsimp only
    rw [hhops a ho]
    exact h a u ho hu

/-! ## The worker threads -/

def left (w : WorkerId) (f : WorkerState → ℕ) (x : State × ℕ) : ℕ × ℕ × ℕ :=
  (x.2, f (x.1.worker w), (x.1.tune.map RunPc.toGo).getD 0)

abbrev Less : ℕ × ℕ × ℕ → ℕ × ℕ × ℕ → Prop := Prod.Lex (· < ·) (Prod.Lex (· < ·) (· < ·))

theorem less_wf : WellFounded Less :=
  (Prod.lex Nat.lt_wfRel (Prod.lex Nat.lt_wfRel Nat.lt_wfRel)).wf

structure Decreasing (f : WorkerState → ℕ) : Prop where
  loop : ∀ x y, Worker.Reachable x → Worker.deviceWorkerLoop x = some y → f y < f x
  runReturn : ∀ x y r, Worker.runReturn x r = some y → f y < f x

theorem decreasing_submitLeft (c : TaskId) : Decreasing (Worker.State.submitLeft c) :=
  ⟨fun _ _ hx hy => hx.loop_left hy c, fun _ _ _ hy => Worker.runReturn_left hy c⟩

theorem decreasing_stopLeft : Decreasing Worker.State.stopLeft :=
  ⟨fun _ _ hx hy => hx.loop_stopLeft hy, fun _ _ _ hy => Worker.runReturn_stopLeft hy⟩

theorem less_worker {w : WorkerId} {f : WorkerState → ℕ} {a : WorkerAction} {x : WorkerState}
    (h : f x < f (s.worker w)) : Less (left w f (s.setWorker w a x, n)) (left w f (s, n)) := by
  refine .right _ (.left _ _ ?_)
  simpa using h

theorem step_worker {w : WorkerId} {a : WorkerAction} {x : WorkerState} (ha : ofThread s w a = true)
    (hx : Worker.step (s.worker w) a = some x) : step s (.worker w a) = some (s.setWorker w a x) := by
  rw [step, if_pos ha, workerStep, hx]
  rfl

theorem Reachable.forces_worker (h : Reachable s) (n : ℕ) {w : WorkerId} {f : WorkerState → ℕ}
    (hf : Decreasing f) (hlock : (s.worker w).lockAlive = true)
    (hbusy : (s.worker w).loop ≠ .asleep ∧ (s.worker w).loop ≠ .exited) :
    Forces (fun x => (Reachable x.1 ∧ x.1.main = s.main) ∧ Less (left w f x) (left w f (s, n)))
      (s, n) := by
  have hworker := h.worker w
  have hready : ∃ a t, owner s a = some (.worker w) ∧ hops a = 0 ∧ step s a = some t := by
    by_cases hrun : ∃ c, (s.worker w).loop = .running c
    · obtain ⟨c, hl⟩ := hrun
      have hreturn : ∀ r, ofThread s w (.runReturn r) = true →
          ∃ a t, owner s a = some (.worker w) ∧ hops a = 0 ∧ step s a = some t := by
        intro r hr
        have hx : ∃ x, Worker.step (s.worker w) (.runReturn r) = some x := by
          rw [Worker.step, Worker.runReturn, hl]
          exact ⟨_, rfl⟩
        obtain ⟨x, hx⟩ := hx
        exact ⟨.worker w (.runReturn r), _, rfl, rfl, step_worker hr hx⟩
      by_cases hw : w = .buzzer
      · subst hw
        obtain ⟨pc, htune⟩ := Option.isSome_iff_exists.mp (h.tuned c hl)
        by_cases hdone : ∃ r, pc = .done r
        · obtain ⟨r, rfl⟩ := hdone
          exact hreturn r (by simp [ofThread, htune])
        · obtain ⟨y, hy⟩ := Buzzer.runStep_ready s.output .endOfData (not_exists.mp hdone)
          refine ⟨.tune .endOfData, s.setTune c y, rfl, rfl, ?_⟩
          rw [step, tuneStep, htune, hl]
          simp only [hy, Option.map_some]
      · exact hreturn 0 (by simp [ofThread, hw])
    · obtain ⟨x, hx⟩ := Worker.loop_ready hlock hbusy.1 hbusy.2 (not_exists.mp hrun)
      exact ⟨.worker w .loop, _, rfl, rfl, step_worker rfl hx⟩
  obtain ⟨a, t, ho, hcost, ht⟩ := hready
  refine .turn (.worker w) ⟨a, (t, n), ho, Runs.limited_eq_some.mpr ⟨?_, ht, ?_⟩⟩ ?_
  · rw [hcost]
    exact Nat.zero_le n
  · rw [hcost]
    rfl
  · rintro a ⟨u, m⟩ ho hu
    obtain ⟨hle, hu, rfl⟩ := Runs.limited_eq_some.mp hu
    have hreach : Reachable u := .next a h hu
    cases step_effect hu with
    | worker v a x ha hx =>
      cases worker_turn ho with
      | loop => exact .now ⟨⟨hreach, rfl⟩, less_worker (hf.loop _ _ hworker hx)⟩
      | runReturn r => exact .now ⟨⟨hreach, rfl⟩, less_worker (hf.runReturn _ _ r hx)⟩
    | tune c pc y r htune hl hr =>
      obtain ⟨hw⟩ : w = .buzzer := by cases worker_turn ho; assumption
      refine .now ⟨⟨hreach, rfl⟩, ?_⟩
      cases hy : y.isHop with
      | true =>
        -- one pitch less in the file
        have hone : hops (.tune y) = 1 := by simp [hops, hy]
        rw [hone] at hle ⊢
        exact .left _ _ (Nat.sub_lt hle Nat.one_pos)
      | false =>
        have hzero : hops (.tune y) = 0 := by simp [hops, hy]
        rw [hzero]
        refine .right _ (.right _ ?_)
        rw [htune]
        exact Buzzer.runStep_toGo hr hy
    | _ => cases worker_turn ho

/-! ## The calls of the event-loop thread -/

theorem Reachable.forces_submitting (h : Reachable s) (n : ℕ) {j : Job} {c : TaskId}
    (hm : s.main = .submitting j c) : Forces (fun x => x.1.main = .idle) (s, n) := by
  refine Runs.Forces.of_measure less_wf (left j.worker (Worker.State.submitLeft c))
    (I := fun x => Reachable x.1 ∧ x.1.main = .submitting j c) ?_ ⟨h, hm⟩
  rintro ⟨s, n⟩ ⟨(h : Reachable s), (hm : s.main = .submitting j c)⟩
  have hord := h.orderly
  obtain ⟨hmade, -⟩ := h.submitsJob j c hm
  have hlock : (s.worker j.worker).lockAlive = true := by
    refine h.lockAlive ?_
    rw [phase_eq_zero hord.api (by rw [hm]; rfl)]
    exact Nat.zero_le _
  by_cases hsleep : (s.worker j.worker).submits c = .asleep
  · -- the worker thread gets on with its tasks
    have hcancel : ∀ k, ¬ ((s.worker j.worker).cancels k).active = true := by
      intro k hk
      obtain ⟨-, hc | hc⟩ := hord.cancels j.worker k hk <;> cases hm.symm.trans hc
    have hbusy := (h.worker j.worker).asleep_busy hsleep hcancel
    refine (h.forces_worker n (decreasing_submitLeft c) hlock hbusy).mono ?_
    rintro x ⟨⟨hx, hmain⟩, hless⟩
    exact .inr ⟨⟨hx, hmain.trans hm⟩, hless⟩
  · -- the event-loop thread moves by itself
    refine forces_turn (i := .eventLoop) (by decide) ?_ ?_
    · by_cases hactive : ((s.worker j.worker).submits c).active = true
      · obtain ⟨x, hx⟩ := Worker.submit_ready hlock hactive hsleep .ok
        exact ⟨.worker j.worker (.submit c .ok), _, by simp [owner, hm], step_worker rfl hx⟩
      · obtain ⟨r, hr⟩ : ∃ r, (s.worker j.worker).submits c = .returned r := by
          cases hpc : (s.worker j.worker).submits c <;> rw [hpc] at hactive hmade <;>
            first | exact ⟨_, rfl⟩ | exact (hmade rfl).elim | exact (hactive rfl).elim
        exact ⟨.main true, s.answer (.submit j) r, rfl, by simp only [step, mainStep, hm, hr]⟩
    · intro a t ho ht
      have hreach : Reachable t := .next a h ht
      cases h.eventLoop_move ho ht with
      | main m =>
        simp only [step, mainStep, hm] at ht
        split at ht <;> cases ht
        exact .now (.inl rfl)
      | submit j' c' o hm' =>
        cases hm.symm.trans hm'
        simp only [step, ofThread, if_true, workerStep, Option.map_eq_some_iff] at ht
        obtain ⟨x, hx, rfl⟩ := ht
        exact .now (.inr ⟨⟨hreach, hm⟩, less_worker (Worker.submit_left hx)⟩)
      | cancel k hk => rcases hk.2 with hk | hk <;> cases hm.symm.trans hk
      | stop w hw => cases hm.symm.trans hw

theorem Reachable.forces_cancelling (h : Reachable s) (n : ℕ) {k : CancelId}
    (hk : s.Canceller .buzzer k) :
    Forces (fun x => x.1.main = s.main ∧ (x.1.worker .buzzer).cancels k = .returned) (s, n) := by
  have hp : s.phase ≤ WorkerId.buzzer.stopRank := by
    rcases hk.2 with hm | hm
    · rw [phase_eq_zero h.orderly.api (by rw [hm]; rfl)]
      exact Nat.zero_le _
    · rw [phase_eq_rank hm]
      exact (by decide : 7 ≤ 8)
  obtain ⟨m, y, hrun, hy⟩ := (h.worker .buzzer).cancel_leads (h.started hp) (h.lockAlive hp)
    (h.engaged.cancels k hk)
  clear hp
  -- on the steps that are left of the call; what the other threads do meanwhile takes none away
  induction m generalizing s with
  | zero =>
    cases hrun
    exact .now ⟨rfl, hy⟩
  | succ m ih =>
    rw [List.replicate_succ, Runs.run_cons] at hrun
    obtain ⟨x, hx, hrun⟩ := Option.bind_eq_some_iff.mp hrun
    have hactive : (s.worker .buzzer).cancels k ≠ .returned := by
      intro hr
      simp [Worker.step, Worker.deviceWorkerCancelPending, hr] at hx
    refine forces_turn (i := .eventLoop) (by decide)
      ⟨.worker .buzzer (.cancel k), _, rfl, step_worker rfl hx⟩ ?_
    intro a t ho ht
    have hreach : Reachable t := .next a h ht
    cases h.eventLoop_move ho ht with
    | main b =>
      rcases hk.2 with hm | hm <;> simp [step, mainStep, cleanupStep, hm, hactive] at ht
    | submit j c o hm => rcases hk.2 with hk | hk <;> cases hm.symm.trans hk
    | stop w hm => rcases hk.2 with hk | hk <;> cases hm.symm.trans hk
    | cancel k' hk' =>
      obtain rfl : k = k' := by
        rcases hk.2 with hm | hm <;> rcases hk'.2 with hm' | hm' <;> cases hm.symm.trans hm' <;> rfl
      cases (step_worker rfl hx).symm.trans ht
      exact ih hreach hk (by simpa using hrun)

theorem Reachable.forces_stopping (h : Reachable s) (n : ℕ) {w : WorkerId}
    (hm : s.main = .cleanup (.stopping w)) :
    Forces (fun x => x.1.main = .cleanup w.afterStop) (s, n) := by
  refine Runs.Forces.of_measure less_wf (left w Worker.State.stopLeft)
    (I := fun x => Reachable x.1 ∧ x.1.main = .cleanup (.stopping w)) ?_ ⟨h, hm⟩
  rintro ⟨s, n⟩ ⟨(h : Reachable s), (hm : s.main = .cleanup (.stopping w))⟩
  have hmade := h.engaged.stop w hm
  by_cases hjoin : (s.worker w).stop = .joining ∧ (s.worker w).loop ≠ .exited
  · -- the worker thread empties its queue
    obtain ⟨hawake, hlock⟩ := (h.worker w).joining_busy hjoin.1
    refine (h.forces_worker n decreasing_stopLeft hlock ⟨hawake, hjoin.2⟩).mono ?_
    rintro x ⟨⟨hx, hmain⟩, hless⟩
    exact .inr ⟨⟨hx, hmain.trans hm⟩, hless⟩
  · refine forces_turn (i := .eventLoop) (by decide) ?_ ?_
    · by_cases hret : (s.worker w).stop = .returned
      · exact ⟨.main true, s.goto (.cleanup w.afterStop), rfl,
          by simp only [step, mainStep, hm, cleanupStep, hret, if_true]⟩
      · obtain ⟨x, hx⟩ := (h.worker w).stop_ready hmade hret fun hpc => by
          by_contra hl
          exact hjoin ⟨hpc, hl⟩
        exact ⟨.worker w .stop, _, rfl, step_worker rfl hx⟩
    · intro a t ho ht
      have hreach : Reachable t := .next a h ht
      cases h.eventLoop_move ho ht with
      | main m =>
        simp only [step, mainStep, hm, cleanupStep, Option.ite_none_right_eq_some] at ht
        cases ht.2
        exact .now (.inl rfl)
      | stop w' hm' =>
        cases hm.symm.trans hm'
        simp only [step, ofThread, if_true, workerStep, Option.map_eq_some_iff] at ht
        obtain ⟨x, hx, rfl⟩ := ht
        exact .now (.inr ⟨⟨hreach, hm⟩, less_worker (Worker.stop_left hx)⟩)
      | submit j c o hm' => cases hm.symm.trans hm'
      | cancel k hk => rcases hk.2 with hk | hk <;> cases hm.symm.trans hk

/-! ## The end of the segment thread -/

def beeperLeft (s : State) : ℕ :=
  match s.beeper with
  | .idle => 0
  | .checked => 18
  | .submitting c => ((s.worker .buzzer).submits c).weight + 1

def joinLeft (s : State) : ℕ :=
  s.seg.refresh.left + beeperLeft s + if s.seg.caller = .stopped then 0 else 1

theorem joinLeft_setWorker {a : WorkerAction} {x : WorkerState} {c : TaskId}
    (hb : s.beeper = .submitting c)
    (h : (x.submits c).weight < ((s.worker .buzzer).submits c).weight) :
    joinLeft (s.setWorker .buzzer a x) < joinLeft s := by
  have hbeeper : beeperLeft (s.setWorker .buzzer a x) < beeperLeft s := by
    have hb' : (s.setWorker .buzzer a x).beeper = .submitting c := hb
    unfold beeperLeft
    rw [hb, hb']
    simpa using h
  have hseg : (s.setWorker .buzzer a x).seg = s.seg := rfl
  unfold joinLeft
  rw [hseg]
  omega

theorem joinLeft_refresh {x : Segment.State} (hx : Segment.segmentRefreshLoop s.seg = some x)
    (hstopped : s.seg.running = false) (ht : t.seg = x) (hb : beeperLeft t ≤ beeperLeft s) :
    joinLeft t < joinLeft s := by
  have hleft := Segment.segmentRefreshLoop_left hx hstopped
  have hcaller := (Segment.segmentRefreshLoop_control hx).1
  unfold joinLeft
  rw [ht, hcaller]
  omega

theorem Reachable.beeper_unwaiting (h : Reachable s) (hp : s.phase ≤ WorkerId.buzzer.stopRank)
    {c : TaskId} (hb : s.beeper = .submitting c) : Worker.Unwaiting (s.worker .buzzer) c := by
  obtain ⟨hmade, hwait⟩ := h.engaged.beeper c hb
  exact (h.worker .buzzer).unwaiting (h.lockAlive hp) hmade hwait

theorem Reachable.forces_joining (h : Reachable s) (n : ℕ) (hm : s.main = .cleanup .joinSegment) :
    Forces (fun x => x.1.main = .cleanup (.stop .light)) (s, n) := by
  refine Runs.Forces.of_measure (r := (· < ·)) Nat.lt_wfRel.wf (fun x => joinLeft x.1)
    (I := fun x => Reachable x.1 ∧ x.1.main = .cleanup .joinSegment) ?_ ⟨h, hm⟩
  rintro ⟨s, n⟩ ⟨(h : Reachable s), (hm : s.main = .cleanup .joinSegment)⟩
  have hinit : s.initialized = false := h.orderly.api.cleanup _ hm
  have hcaller : s.seg.caller = .joining ∨ s.seg.caller = .stopped := by
    have hat := h.engaged.caller
    rwa [State.CallerAt, hm] at hat
  have hstopped : s.seg.running = false := h.segment.halted hcaller
  have hp : s.phase ≤ WorkerId.buzzer.stopRank := by
    rw [phase_eq_rank hm]
    exact (by decide : 2 ≤ 8)
  have hmain : ∀ {a : Action} {t : State}, owner s a = some .eventLoop → step s a = some t →
      cleanupStep s .joinSegment = some t := by
    intro a t ho ht
    cases h.eventLoop_move ho ht with
    | main m => simpa only [step, mainStep, hm] using ht
    | submit j c o hm' => cases hm.symm.trans hm'
    | cancel k hk => rcases hk.2 with hk | hk <;> cases hm.symm.trans hk
    | stop w hw => cases hm.symm.trans hw
  have hready : ∀ {t : State}, cleanupStep s .joinSegment = some t →
      ∃ a t, owner s a = some .eventLoop ∧ step s a = some t := fun {t} ht =>
    ⟨.main true, t, rfl, by simpa only [step, mainStep, hm] using ht⟩
  by_cases hc : s.seg.caller = .stopped
  · have hnext : cleanupStep s .joinSegment = some (s.goto (.cleanup (.stop .light))) := if_pos hc
    refine forces_turn (i := .eventLoop) (by decide) (hready hnext) fun a t ho ht => ?_
    cases hnext.symm.trans (hmain ho ht)
    exact .now (.inl rfl)
  by_cases he : s.seg.refresh = .exited
  · have hjoining := hcaller.resolve_right hc
    have hnext : cleanupStep s .joinSegment =
        some (s.setSegment { s.seg with caller := .stopped }) := by
      simp [cleanupStep, segmentStep, Segment.step, hjoining, he]
    refine forces_turn (i := .eventLoop) (by decide) (hready hnext) fun a t ho ht => ?_
    have hreach : Reachable t := .next a h ht
    cases hnext.symm.trans (hmain ho ht)
    refine .now (.inr ⟨⟨hreach, hm⟩, ?_⟩)
    simp [joinLeft, beeperLeft, State.setSegment, hjoining]
  · -- the segment thread is on its way out
    obtain ⟨x, hx⟩ := Segment.segmentRefreshLoop_ready he
    refine forces_turn (i := .segment) (by decide) ?_ ?_
    · by_cases hr : s.seg.refresh = .alarm
      · cases hb : s.beeper with
        | idle =>
          exact ⟨.beeper true, s.setSegment x, rfl, by
            simp [step, beeperStep, hr, hb, hinit, segmentStep, Segment.step, hx]⟩
        | checked =>
          exact ⟨.beeper false, (s.setSegment x).setBeeper .idle, rfl, by
            simp [step, beeperStep, hr, hb, segmentStep, Segment.step, hx]⟩
        | submitting c =>
          have hcall := h.beeper_unwaiting hp hb
          rcases hcall.pc with hpc | ⟨r, hpc⟩
          · obtain ⟨y, hy⟩ := hcall.enabled hpc
            exact ⟨.worker .buzzer (.submit c .ok), _, by simp [owner, hm], step_worker rfl hy⟩
          · exact ⟨.beeper true, (s.setSegment x).setBeeper .idle, rfl, by
              simp [step, beeperStep, hr, hb, hpc, segmentStep, Segment.step, hx]⟩
      · exact ⟨.refresh, s.setSegment x, rfl, by
          simp [step, hr, segmentStep, Segment.step, hx]⟩
    · intro a t ho ht
      have hreach : Reachable t := .next a h ht
      have hmove := h.segment_move ho ht
      cases step_effect ht with
      | refresh y hr hy => exact .now (.inr ⟨⟨hreach, hm⟩, joinLeft_refresh hy hstopped rfl (Nat.le_refl _)⟩)
      | beeperChecked hr hb hi => cases hinit.symm.trans hi
      | beeperSubmit y hr hb hy =>
        refine .now (.inr ⟨⟨hreach, hm⟩, ?_⟩)
        cases Worker.submitCall_eq hy
        simp [joinLeft, beeperLeft, hb, State.setBeeper, State.count, Worker.State.setSubmit,
          Worker.SubmitPc.weight, State.setWorker]
      | beeperReturn y hr hb hy =>
        exact .now (.inr ⟨⟨hreach, hm⟩, joinLeft_refresh hy hstopped rfl (Nat.zero_le _)⟩)
      | worker w b y hb hy =>
        cases hmove with
        | submit c o hbeeper =>
          exact .now (.inr ⟨⟨hreach, hm⟩, joinLeft_setWorker hbeeper (Worker.submit_weight hy)⟩)
      | _ => cases hmove

/-! ## Back to the event loop -/

theorem Reachable.forces_main (h : Reachable s) (hready : ∃ t, mainStep s true = some t)
    (halone : ∀ a t, EventLoopMove s a → step s a = some t → ∃ m, a = .main m)
    (hP : ∀ m t, mainStep s m = some t → Forces P (t, n)) : Forces P (s, n) := by
  obtain ⟨t, ht⟩ := hready
  refine forces_turn (i := .eventLoop) (by decide) ⟨.main true, t, rfl, ht⟩ fun a t ho ht => ?_
  obtain ⟨m, rfl⟩ := halone a t (h.eventLoop_move ho ht) ht
  exact hP m t ht

def MainPc.waits : MainPc → Bool
  | .submitting _ _ | .cancelling _ | .cleanup (.cancelling _) | .cleanup (.stopping _) => true
  | _ => false

theorem eventLoop_alone (hm : s.main.waits = false) (a : Action) (t : State)
    (h : EventLoopMove s a) (_ : step s a = some t) : ∃ m, a = .main m := by
  cases h with
  | main m => exact ⟨m, rfl⟩
  | submit j c o hpc => rw [hpc] at hm; cases hm
  | cancel k hk => rcases hk.2 with hpc | hpc <;> rw [hpc] at hm <;> cases hm
  | stop w hpc => rw [hpc] at hm; cases hm

theorem cancelling_alone {k : CancelId} (hk : s.Canceller .buzzer k)
    (hreturned : (s.worker .buzzer).cancels k = .returned) (a : Action) (t : State)
    (h : EventLoopMove s a) (hs : step s a = some t) : ∃ m, a = .main m := by
  cases h with
  | main m => exact ⟨m, rfl⟩
  | submit j c o hpc => rcases hk.2 with hm | hm <;> cases hm.symm.trans hpc
  | stop w hpc => rcases hk.2 with hm | hm <;> cases hm.symm.trans hpc
  | cancel k' hk' =>
    obtain rfl : k = k' := by
      rcases hk.2 with hm | hm <;> rcases hk'.2 with hm' | hm' <;> cases hm.symm.trans hm' <;> rfl
    simp [step, ofThread, workerStep, Worker.step, Worker.deviceWorkerCancelPending, hreturned] at hs

theorem Reachable.forces_cancelled (h : Reachable s) (n : ℕ) {k : CancelId}
    (hk : s.Canceller .buzzer k) (next : MainPc)
    (hnext : ∀ t m, t.main = s.main → (t.worker .buzzer).cancels k = .returned →
      mainStep t m = some (t.goto next))
    (hP : ∀ t n, Reachable t → t.main = next → Forces P (t, n)) : Forces P (s, n) := by
  refine ((h.forces_cancelling n hk).reachable h).bind ?_
  rintro ⟨t, n⟩ ⟨(ht : Reachable t), (hmain : t.main = s.main), hreturned⟩
  have hcanceller : t.Canceller .buzzer k := ⟨hk.1, by rw [hmain]; exact hk.2⟩
  have hstep := fun m => hnext t m hmain hreturned
  refine ht.forces_main ⟨_, hstep true⟩ (cancelling_alone hcanceller hreturned) fun m u hu => ?_
  have hreach : Reachable u := .next (.main m) ht hu
  cases (hstep m).symm.trans hu
  exact hP _ n hreach rfl

theorem Reachable.submitCall_ready (h : Reachable s) (j : Job) : ∃ t, submitCall s j = some t := by
  have hfresh := h.numbered.submits j.worker s.calls (Nat.le_refl _)
  simp [submitCall, workerStep, Worker.step, hfresh]

theorem Reachable.cancelCall_ready (h : Reachable s) : ∃ t, cancelCall s = some t := by
  have hfresh := h.numbered.cancels .buzzer s.calls (Nat.le_refl _)
  simp [cancelCall, workerStep, Worker.step, hfresh]

theorem Reachable.enterRequest_ready (h : Reachable s) {r : Request} (hm : s.main = .called r) :
    ∃ t, enterRequest s r true = some t := by
  have hcaller : s.initialized = true → s.seg.caller = .idle := by
    have hat := h.engaged.caller
    rwa [State.CallerAt, hm] at hat
  unfold enterRequest
  split
  · exact ⟨_, rfl⟩
  next hi =>
  have hidle := hcaller (by simpa using hi)
  cases r with
  | submit j =>
    obtain ⟨t, ht⟩ := h.submitCall_ready j
    simp only [ht, Option.map_some]
    split
    · exact ⟨_, rfl⟩
    · split <;> exact ⟨_, rfl⟩
  | buzzerOff =>
    obtain ⟨t, ht⟩ := h.cancelCall_ready
    simp only [ht, Option.map_some]
    exact ⟨_, rfl⟩
  | segmentDisplay v => simp [segmentStep, Segment.step, hidle]
  | segmentClear => simp [segmentStep, Segment.step, hidle]
  | getStatus | cleanup => exact ⟨_, rfl⟩

theorem Reachable.forces_reading (h : Reachable s) (n : ℕ) {rest : List (PluginId × PluginFn)}
    (hm : s.main = .reading rest) : Forces (fun x => x.1.main = .idle) (s, n) := by
  induction rest generalizing s with
  | nil =>
    refine h.forces_main ⟨_, by rw [mainStep, hm]⟩ (eventLoop_alone (by rw [hm]; rfl)) fun m t ht => ?_
    rw [mainStep, hm] at ht
    cases ht
    exact .now rfl
  | cons read rest ih =>
    refine h.forces_main ⟨_, by rw [mainStep, hm]⟩ (eventLoop_alone (by rw [hm]; rfl)) fun m t ht => ?_
    have hreach : Reachable t := .next (.main m) h ht
    rw [mainStep, hm] at ht
    cases ht
    exact ih hreach rfl

theorem Reachable.forces_off (h : Reachable s) (n : ℕ) (hm : s.main = .off) :
    Forces (fun x => x.1.main = .idle) (s, n) := by
  refine h.forces_main ⟨_, by rw [mainStep, hm]⟩ (eventLoop_alone (by rw [hm]; rfl)) fun m t ht => ?_
  rw [mainStep, hm] at ht
  cases ht
  exact .now rfl

theorem Reachable.forces_clearing (h : Reachable s) (n : ℕ) (hm : s.main = .segmentClearing) :
    Forces (fun x => x.1.main = .idle) (s, n) := by
  have hcaller : s.seg.caller = .clearing := by
    have hat := h.engaged.caller
    rwa [State.CallerAt, hm] at hat
  refine h.forces_main ?_ (eventLoop_alone (by rw [hm]; rfl)) fun m t ht => ?_
  · simp [mainStep, hm, segmentStep, Segment.step, hcaller]
  · cases mainStep_effect ht with
    | cleared x hpc => exact .now rfl
    | _ => cases hm.symm.trans ‹s.main = _›

/-! ## The shutdown -/

def Beyond (stage : Stage) (x : State × ℕ) : Prop :=
  x.1.main = .idle ∨ ∃ next : Stage, x.1.main = .cleanup next ∧ stage.rank < next.rank

theorem Reachable.forces_stage (h : Reachable s) (n : ℕ) {stage : Stage}
    (hm : s.main = .cleanup stage) : Forces (Beyond stage) (s, n) := by
  have hnext : ∀ {x : State × ℕ} {next : Stage}, x.1.main = .cleanup next →
      stage.rank < next.rank → Beyond stage x := fun hx hlt => .inr ⟨_, hx, hlt⟩
  -- at most stages the event-loop thread needs nobody else
  have hplain : s.main.waits = false → (∃ t, cleanupStep s stage = some t) →
      (∀ t, cleanupStep s stage = some t → Beyond stage (t, n)) → Forces (Beyond stage) (s, n) := by
    intro hwaits hready hP
    refine h.forces_main ?_ (eventLoop_alone hwaits) fun m t ht => .now (hP t ?_)
    · simpa only [mainStep, hm] using hready
    · simpa only [mainStep, hm] using ht
  cases stage with
  | stopSegment =>
    have hcaller : s.seg.caller = .idle := by
      have hat := h.engaged.caller
      rwa [State.CallerAt, hm] at hat
    refine hplain (by rw [hm]; rfl) ?_ fun t ht => ?_
    · simp [cleanupStep, segmentStep, Segment.step, hcaller]
    · obtain ⟨u, -, rfl⟩ := Option.map_eq_some_iff.mp ht
      exact hnext rfl (by decide)
  | joinSegment => exact (h.forces_joining n hm).mono fun x hx => hnext hx (by decide)
  | stop w =>
    have hidle := h.orderly.stopIdle w (Nat.le_of_eq (phase_eq_rank hm))
    refine hplain (by rw [hm]; rfl) ?_ fun t ht => ?_
    · simp [cleanupStep, workerStep, Worker.step, hidle]
    · obtain ⟨u, -, rfl⟩ := Option.map_eq_some_iff.mp ht
      exact hnext rfl (by rw [rank_stopping]; exact Nat.lt_succ_self _)
  | stopping w =>
    refine (h.forces_stopping n hm).mono fun x hx => hnext hx ?_
    rw [rank_stopping, rank_afterStop]
    exact Nat.lt_succ_self _
  | offBuzzer =>
    refine hplain (by rw [hm]; rfl) ⟨_, rfl⟩ fun t ht => ?_
    cases ht
    exact hnext rfl (by decide)
  | cancelBuzzer =>
    refine hplain (by rw [hm]; rfl) ?_ fun t ht => ?_
    · obtain ⟨u, hu⟩ := h.cancelCall_ready
      simp [cleanupStep, hu]
    · obtain ⟨u, -, rfl⟩ := Option.map_eq_some_iff.mp ht
      exact hnext rfl (Nat.lt_succ_self 6)
  | cancelling k =>
    refine h.forces_cancelled n ⟨rfl, .inr hm⟩ (.cleanup (.stop .buzzer)) (fun t m ht hreturned => ?_)
      fun t n _ ht => .now (hnext ht (Nat.lt_succ_self 7))
    rw [mainStep, ht.trans hm]
    exact if_pos hreturned
  | cleanup p =>
    refine hplain (by rw [hm]; rfl) ⟨_, rfl⟩ fun t ht => ?_
    cases ht
    exact hnext rfl (by rw [rank_afterCleanup]; exact Nat.lt_succ_self _)
  | close =>
    refine hplain (by rw [hm]; rfl) ⟨_, rfl⟩ fun t ht => ?_
    cases ht
    exact .inl rfl

theorem rank_le (stage : Stage) : stage.rank ≤ 16 := by
  unfold Stage.rank
  split <;> decide

theorem Reachable.forces_cleanup (h : Reachable s) (n : ℕ) {stage : Stage}
    (hm : s.main = .cleanup stage) : Forces (fun x => x.1.main = .idle) (s, n) := by
  refine Runs.Forces.of_measure (r := (· < ·)) Nat.lt_wfRel.wf (fun x => 17 - x.1.phase)
    (I := fun x => Reachable x.1 ∧ ∃ stage, x.1.main = .cleanup stage) ?_ ⟨h, stage, hm⟩
  rintro ⟨s, n⟩ ⟨(h : Reachable s), stage, (hm : s.main = .cleanup stage)⟩
  refine ((h.forces_stage n hm).reachable h).mono ?_
  rintro ⟨t, n⟩ ⟨ht, hidle | ⟨next, hnext, hlt⟩⟩
  · exact .inl hidle
  · refine .inr ⟨⟨ht, next, hnext⟩, ?_⟩
    show 17 - t.phase < 17 - s.phase
    rw [phase_eq_rank hm, phase_eq_rank hnext]
    have hle := rank_le next
    omega

/-! ## No deadlock -/

theorem Reachable.forces_idle (h : Reachable s) (n : ℕ) :
    Forces (fun x => x.1.main = .idle) (s, n) := by
  -- from the places that a request leads to
  have hentered : ∀ {t : State} {n : ℕ}, Reachable t → (∀ r, t.main ≠ .called r) →
      Forces (fun x => x.1.main = .idle) (t, n) := by
    intro t n ht hcalled
    cases hm : t.main with
    | idle => exact .now hm
    | called r => exact (hcalled r hm).elim
    | submitting j c => exact ht.forces_submitting n hm
    | cancelling k =>
      refine ht.forces_cancelled n ⟨rfl, .inl hm⟩ .off (fun u m hu hreturned => ?_)
        fun u n hreach hu => hreach.forces_off n hu
      rw [mainStep, hu.trans hm]
      exact if_pos hreturned
    | off => exact ht.forces_off n hm
    | segmentClearing => exact ht.forces_clearing n hm
    | reading rest => exact ht.forces_reading n hm
    | cleanup stage => exact ht.forces_cleanup n hm
  by_cases hcalled : ∃ r, s.main = .called r
  · obtain ⟨r, hm⟩ := hcalled
    refine h.forces_main ?_ (eventLoop_alone (by rw [hm]; rfl)) fun m t ht => ?_
    · simpa only [mainStep, hm] using h.enterRequest_ready hm
    · refine hentered (.next (.main m) h ht) fun r' hr' => ?_
      cases mainStep_effect ht with
      | stopped w => cases w <;> cases hr'
      | pluginCleanup p => cases p <;> cases hr'
      | join x hpc => cases hm.symm.trans hpc
      | _ => cases hr'
  · exact hentered h (not_exists.mp hcalled)

theorem Effect.answers_request (h : Effect s act t) {r : Request} (hr : s.main.request = some r) :
    t.main.request = some r ∨
      t.main = .idle ∧ ∃ result log, t.log = .returned r result :: log := by
  cases h with
  | beeperChecked | beeperSubmit | beeperReturn | refresh | worker | tune | join => exact .inl hr
  | request r' hpc => rw [hpc] at hr; cases hr
  | uninitialized r' hpc | rejected j result hpc | submitted j c result hpc | off hpc
  | display v x hpc | cleared x hpc | gotStatus hpc | close hpc =>
    rw [hpc] at hr
    cases hr
    exact .inr ⟨rfl, _, _, rfl⟩
  | submit j x hpc | cancel x hpc | cancelled k hpc | clear x hpc | getStatus hpc | read p f rest hpc
  | cleanup hpc | stopSegment x hpc | joined hpc | stop w x hpc | stopped w hpc | cleanupOff hpc
  | cleanupCancel x hpc | cleanupCancelled k hpc | pluginCleanup p hpc =>
    rw [hpc] at hr
    exact .inl hr

/-- In every reachable state there is a schedule of the threads under which the request that the
event-loop thread executes is answered, whatever the allocators, the plugins and the files do. -/
theorem request_answered (h : Reachable s) {r : Request} (hr : s.main.request = some r) (n : ℕ) :
    Forces (fun x => x.1.main = .idle ∧ ∃ result log, x.1.log = .returned r result :: log)
      (s, n) := by
  have hkeep := Runs.Forces.keep (h.forces_idle n)
    (I := fun x => x.1.main.request = some r ∨
      x.1.main = .idle ∧ ∃ result log, x.1.log = .returned r result :: log)
    (fun x i a y hx hbusy _ hstep => ?_) (.inl hr)
  · refine hkeep.mono ?_
    rintro ⟨t, m⟩ ⟨hrequest | hdone, (hidle : t.main = .idle)⟩
    · rw [hidle] at hrequest
      cases hrequest
    · exact hdone
  · have heff := step_effect (Runs.limited_eq_some.mp hstep).2.1
    exact heff.answers_request (hx.resolve_right fun hdone => hbusy hdone.1)

/-- The event-loop thread sleeps in `device_buzzer_on` while the music plays. -/
theorem request_answered_music :
    ∃ s, Runs.run step deviceInit (musicPlaying ++ [.request (.submit .buzzerOn), .main true] ++
        List.replicate 4 (.worker .buzzer (.submit 1 .ok))) = some s ∧
      (s.worker .buzzer).submits 1 = .asleep ∧ s.tune = some (.playDelay 20 0 []) ∧
      Forces (fun x => x.1.main = .idle ∧
        ∃ result log, x.1.log = .returned (.submit .buzzerOn) result :: log) (s, 2) := by
  obtain ⟨s, hs⟩ : ∃ s, Runs.run step deviceInit (musicPlaying ++
      [.request (.submit .buzzerOn), .main true] ++
      List.replicate 4 (.worker .buzzer (.submit 1 .ok))) = some s := ⟨_, rfl⟩
  have hread : some (s.main, (s.worker .buzzer).submits 1, s.tune) =
      some (.submitting .buzzerOn 1, .asleep, some (.playDelay 20 0 [])) :=
    (congrArg (Option.map fun s : State =>
      (s.main, (s.worker .buzzer).submits 1, s.tune)) hs).symm.trans rfl
  simp only [Option.some.injEq, Prod.mk.injEq] at hread
  obtain ⟨hm, hasleep, htune⟩ := hread
  exact ⟨s, hs, hasleep, htune,
    request_answered (Runs.Reachable.run (.start rfl) hs) (by rw [hm]; rfl) 2⟩

end RemoteDevice.Manager
