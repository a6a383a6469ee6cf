import RemoteDevice.Manager.Hush
import RemoteDevice.Manager.Shutdown
import RemoteDevice.Manager.Tasks

/-! The stop of the buzzer in `device_cleanup`: `plugins.buzzer.off()` comes before the queue is
cancelled, so it reaches the worker only if no task is about to start and none is dequeued
meanwhile. -/

namespace RemoteDevice.Manager
open Worker (TaskId CancelId)
open Buzzer (RunEvent Stopped)

variable {s t : State} {act : Action}

def awaitsCancel (s : State) : Bool :=
  match s.main with
  | .cleanup .cancelBuzzer => true
  | .cleanup (.cancelling k) => ((s.worker .buzzer).cancels k).early
  | _ => false

/-- The step is not the call of `plugins.buzzer.off()` in the shutdown while a task is about to
clear the stop request, and it dequeues no task between that call and the cancellation. -/
def undisturbed (s : State) : Action → Bool
  | .main _ => s.main ≠ .cleanup .offBuzzer || (startingTask s).isNone
  | .worker .buzzer .loop =>
    !awaitsCancel s || (s.worker .buzzer).loop ≠ .top || (s.worker .buzzer).head.isNone
  | _ => true

def SilentAfterOff (log : List Entry) : Prop :=
  ∀ new old, log = new ++ .plugin .buzzer .off :: old → .called .cleanup ∈ old →
    ∀ c e, .run c e ∈ new → e.quiet

structure JoinsStopped (s : State) : Prop where
  untaken : ∀ c, (s.worker .buzzer).loop ≠ .taken c
  running : ∀ c, (s.worker .buzzer).loop = .running c →
    ∃ pc, s.tune = some pc ∧ Stopped s.output pc

structure Silenced (s : State) : Prop where
  hushed : ∀ c, Hushed s c
  cancelled : awaitsCancel s = false → ∀ c, ¬ s.waiting c

theorem Effect.awaitsCancel (he : Effect s act t) (h : Reachable s)
    (hs : awaitsCancel s = true) (ht : awaitsCancel t = false) (c : TaskId) : ¬ t.waiting c := by
  have hsame : t.main = s.main → ¬ t.waiting c := by
    intro hm
    rw [Manager.awaitsCancel] at hs ht
    split at hs
    · next hpc => simp [hm, hpc] at ht
    · next k hpc =>
      simp only [hm, hpc] at ht
      have hp : s.phase ≤ WorkerId.buzzer.stopRank := by
        rw [phase_eq_rank hpc]
        exact (by decide : 7 ≤ 8)
      rcases he.worker_step .buzzer with heq | ⟨a, ha⟩
      · rw [heq, hs] at ht
        cases ht
      · rw [State.waiting, Worker.step_detached ha (h.started hp) hs ht]
        exact List.not_mem_nil
    · cases hs
  cases he with
  | beeperChecked | beeperSubmit | beeperReturn | refresh | worker | tune => exact hsame rfl
  | cleanupCancel x hpc hx =>
    cases Worker.cancelCall_eq hx
    simp [Manager.awaitsCancel, State.goto, State.count, Worker.State.setCancel,
      Worker.CancelPc.early] at ht
  | cleanupCancelled k hpc hk =>
    simp [Manager.awaitsCancel, hpc, hk, Worker.CancelPc.early] at hs
  | _ =>
    rw [Manager.awaitsCancel, ‹s.main = _›] at hs
    cases hs

theorem Silenced.effect (hs : Silenced s) (h : Reachable s) (hp : 5 < s.phase)
    (he : Effect s act t) (hok : undisturbed s act = true) : Silenced t := by
  constructor
  · intro c
    refine he.hushed (hs.hushed c) fun hc => ?_
    rcases he.taken hc with hc | ⟨rfl, htop, hhead⟩
    · exact (hs.hushed c).untaken hc
    · simp [undisturbed, htop, hhead] at hok
      exact hs.cancelled hok c ((h.worker .buzzer).head_waiting hhead)
  · intro ht c hc
    cases hw : Manager.awaitsCancel s with
    | true => exact he.awaitsCancel h hw ht c hc
    | false =>
      refine hs.cancelled hw c ?_
      rcases he.worker_step .buzzer with heq | ⟨a, ha⟩
      · rwa [State.waiting, ← heq]
      · exact Worker.step_waiting_of_inactive ha (h.no_submits (by omega) .buzzer) hc

theorem rank_eq_offBuzzer {stage : Stage} (h : stage.rank = 5) : stage = .offBuzzer := by
  unfold Stage.rank at h
  split at h <;> first | rfl | exact absurd h (by decide)

theorem Effect.silenced (he : Effect s act t) (h : Reachable s) (hp : s.phase ≤ 5)
    (hp' : 5 < t.phase) (hok : undisturbed s act = true) : Silenced t := by
  have hpc : s.main = .cleanup .offBuzzer := by
    cases he.advance h.orderly.api with
    | same hp'' => omega
    | begin _ hp'' => omega
    | stage stage hpc hp'' =>
      have hrank := phase_eq_rank hpc
      exact hpc.trans (congrArg MainPc.cleanup (rank_eq_offBuzzer (by omega)))
  have hmain : t.main = s.main → False := fun hm => by
    rw [phase_eq_rank (hm.trans hpc)] at hp'
    exact absurd hp' (by decide)
  cases he with
  | beeperChecked | beeperSubmit | beeperReturn | refresh | worker | tune => exact (hmain rfl).elim
  | cleanupOff =>
    simp only [undisturbed, hpc] at hok
    have hnone : startingTask s = none := by simpa using hok
    refine ⟨fun c => ?_, nofun⟩
    have hoff : Hushed s.buzzerOff c := .of_buzzerOff (by rw [hnone]; exact nofun)
    exact hoff.congr rfl rfl (.inl rfl)
  | _ => cases hpc.symm.trans ‹s.main = _›

abbrev Undisturbed : State → Prop :=
  Runs.Reachable (· = deviceInit) (Runs.guarded (fun s a => undisturbed s a = true) step)

theorem Undisturbed.silenced (h : Undisturbed s) : 5 < s.phase → Silenced s := by
  induction h with
  | start h0 =>
    cases h0
    exact fun h => absurd h (by decide)
  | @next s t a hr hst ih =>
    intro hp
    obtain ⟨hok, hst⟩ := Runs.guarded_eq_some.mp hst
    have h : Reachable s := hr.of_guarded
    by_cases hs : 5 < s.phase
    · exact (ih hs).effect h hs (step_effect hst) hok
    · exact (step_effect hst).silenced h (by omega) hp hok

/-! ## The history after the stop -/

theorem Effect.cleanup_called (he : Effect s act t) (h : Reachable s)
    (hs : .called .cleanup ∈ s.log → s.main = .called .cleanup ∨ 1 ≤ s.phase)
    (ht : .called .cleanup ∈ t.log) : t.main = .called .cleanup ∨ 1 ≤ t.phase := by
  obtain ⟨es, hlog, hes⟩ := he.extends
  rw [hlog] at ht
  rcases List.mem_append.mp ht with hnew | hold
  · exact .inl (hes _ hnew).2
  rcases hs hold with hm | hp
  · cases he with
    | beeperChecked | beeperSubmit | beeperReturn | refresh | worker | tune => exact .inl hm
    | uninitialized r hpc hi =>
      refine .inr (Nat.le_of_lt (Nat.lt_of_lt_of_eq (by decide : 1 < 17) (Eq.symm ?_)))
      exact Eq.trans (phase_of_ne nofun) (if_neg (by simp [State.answer, State.note, State.goto, hi]))
    | cleanup => exact .inr (Nat.le_refl 1)
    | _ => cases hm.symm.trans ‹s.main = _›
  · exact .inr (Nat.le_trans hp (he.advance h.orderly.api).le)

theorem Reachable.cleanup_called (h : Reachable s) :
    .called .cleanup ∈ s.log → s.main = .called .cleanup ∨ 1 ≤ s.phase :=
  h.invariant_of_reachable (by rintro _ rfl; exact nofun) fun _ _ _ hr ih hs =>
    (step_effect hs).cleanup_called hr ih

theorem Reachable.off_in_cleanup (h : Reachable s) {p : PluginId} {f : PluginFn}
    (ho : (Entry.plugin p f).Origin s act t) (hc : .called .cleanup ∈ s.log) : 5 < t.phase := by
  have hnot : s.main.usesDevices = true → False := fun hm => by
    rcases h.cleanup_called hc with hpc | hp
    · rw [hpc] at hm
      cases hm
    · rw [phase_eq_zero h.orderly.api hm] at hp
      cases hp
  obtain ⟨-, hm | ⟨-, ht⟩ | ⟨rest, hm⟩⟩ := ho
  · exact (hnot (by rw [hm]; rfl)).elim
  · rw [phase_eq_rank ht]
    decide
  · exact (hnot (by rw [hm]; rfl)).elim

structure SilentRun (s : State) : Prop where
  phase : ∀ new old, s.log = new ++ .plugin .buzzer .off :: old → .called .cleanup ∈ old →
    5 < s.phase
  silent : SilentAfterOff s.log

theorem SilentRun.effect (hs : SilentRun s) (hu : Undisturbed s) (he : Effect s act t) :
    SilentRun t := by
  have h : Reachable s := hu.of_guarded
  obtain ⟨es, hlog, hes⟩ := he.extends
  -- the call is an old one, or the event-loop thread makes it now
  have hcut : ∀ new old, t.log = new ++ .plugin .buzzer .off :: old → .called .cleanup ∈ old →
      5 < t.phase ∧ ∀ c e, .run c e ∈ new → e.quiet := by
    intro new old hnew hc
    rcases append_eq_split (hlog.symm.trans hnew) with ⟨m, rfl, rfl⟩ | ⟨n, hold, rfl⟩
    · have ho := hes (.plugin .buzzer .off) (by simp)
      obtain ⟨b, hb⟩ := ho.1
      have hcalled : .called .cleanup ∈ s.log := by
        refine (List.mem_append.mp hc).resolve_left fun hm => ?_
        cases hb.symm.trans (hes (.called .cleanup) (by simp [hm])).1
      refine ⟨h.off_in_cleanup ho hcalled, fun c e hmem => ?_⟩
      exact (run_not_main hb hes c e (by simp [hmem])).elim
    · have hp := hs.phase n old hold hc
      refine ⟨Nat.lt_of_lt_of_le hp (he.advance h.orderly.api).le, fun c e hmem => ?_⟩
      rcases List.mem_append.mp hmem with hmem | hmem
      · exact ((hu.silenced hp).hushed c).quiet (hes _ hmem)
      · exact hs.silent n old hold hc c e hmem
  exact ⟨fun new old hnew hc => (hcut new old hnew hc).1,
    fun new old hnew hc => (hcut new old hnew hc).2⟩

theorem Undisturbed.silentRun (h : Undisturbed s) : SilentRun s := by
  induction h with
  | start h0 =>
    cases h0
    exact ⟨fun _ _ hl => by simp [deviceInit] at hl, fun _ _ hl => by simp [deviceInit] at hl⟩
  | next a hr hst ih => exact ih.effect hr (step_effect (Runs.guarded_eq_some.mp hst).2)

theorem shutdown_silences (h : Undisturbed s) :
    SilentAfterOff s.log ∧ (s.main = .cleanup (.stopping .buzzer) → JoinsStopped s) := by
  refine ⟨h.silentRun.silent, fun hm => ?_⟩
  have hp : 5 < s.phase := by
    rw [phase_eq_rank hm]
    decide
  have hhushed := (h.silenced hp).hushed
  have hreach : Reachable s := h.of_guarded
  refine ⟨fun c => (hhushed c).untaken, fun c hc => ?_⟩
  obtain ⟨pc, hpc⟩ := Option.isSome_iff_exists.mp (hreach.tuned c hc)
  exact ⟨pc, hpc, (hhushed c).stopped hc pc hpc⟩

def cleanupToOff : List Action :=
  [.request .cleanup, .main true, .main true, .refresh, .refresh, .main true, .main true] ++
  stopWorker .light ++ [.main true]

def cancelToJoin : List Action :=
  [.main true] ++ List.replicate 3 (.worker .buzzer (.cancel 1)) ++
  [.main true, .main true, .worker .buzzer .stop, .worker .buzzer .stop]

def stopPlayingBeep : List Action :=
  beepDequeued ++ [.worker .buzzer .loop, .tune .endOfData] ++ cleanupToOff ++ cancelToJoin

theorem shutdown_silences_stopPlayingBeep :
    ∃ s, Runs.run (Runs.guarded (fun s a => undisturbed s a = true) step) deviceInit
      stopPlayingBeep = some s ∧ s.main = .cleanup (.stopping .buzzer) ∧
      .run 0 (.tone 440) ∈ s.log ∧ SilentAfterOff s.log ∧ JoinsStopped s := by
  obtain ⟨s, hs⟩ : ∃ s, Runs.run (Runs.guarded (fun s a => undisturbed s a = true) step)
      deviceInit stopPlayingBeep = some s := ⟨_, rfl⟩
  have hread : some (s.main, s.log.contains (.run 0 (.tone 440))) =
      some (.cleanup (.stopping .buzzer), true) :=
    (congrArg (Option.map fun s : State => (s.main, s.log.contains (.run 0 (.tone 440))))
      hs).symm.trans rfl
  simp only [Option.some.injEq, Prod.mk.injEq] at hread
  obtain ⟨hsilent, hjoins⟩ := shutdown_silences (Runs.Reachable.run (.start rfl) hs)
  exact ⟨s, hs, hread.1, by simpa using hread.2, hsilent, hjoins hread.1⟩

/-- A beep that has been dequeued starts after the stop, and the join waits for all of it. -/
def beepAfterOff : List Action :=
  beepDequeued ++ cleanupToOff ++ [.worker .buzzer .loop, .tune .endOfData] ++ cancelToJoin

theorem beep_starts_after_off :
    ∃ s, Runs.run step deviceInit beepAfterOff = some s ∧
      s.main = .cleanup (.stopping .buzzer) ∧ (s.worker .buzzer).stop = .joining ∧
      ¬ SilentAfterOff s.log ∧ ¬ JoinsStopped s := by
  obtain ⟨s, hs⟩ : ∃ s, Runs.run step deviceInit beepAfterOff = some s := ⟨_, rfl⟩
  have hthreads : some (s.main, (s.worker .buzzer).stop, (s.worker .buzzer).loop) =
      some (.cleanup (.stopping .buzzer), .joining, .running 0) :=
    (congrArg (Option.map fun s : State =>
      (s.main, (s.worker .buzzer).stop, (s.worker .buzzer).loop)) hs).symm.trans rfl
  have hbeep : some (s.tune, s.output.stopRequested) = some (some (.beepDelay 500 0), false) :=
    (congrArg (Option.map fun s : State => (s.tune, s.output.stopRequested)) hs).symm.trans rfl
  have hlog : some s.log.reverse = some [.called (.submit (.buzzerBeep 500)),
      .worker .buzzer (.submit 0), .worker .buzzer (.create 0), .worker .buzzer (.append 0),
      .returned (.submit (.buzzerBeep 500)) DeviceResult.ok, .worker .buzzer (.dequeue 0),
      .called .cleanup, .segment .clear, .plugin .buzzer .off, .worker .buzzer (.runCall 0),
      .run 0 (.tone 440), .worker .buzzer (.detach 1 DeviceResult.cancelled)] :=
    (congrArg (Option.map fun s : State => s.log.reverse) hs).symm.trans rfl
  simp only [Option.some.injEq, Prod.mk.injEq, List.reverse_eq_iff] at hthreads hbeep hlog
  obtain ⟨hmain, hstop, hloop⟩ := hthreads
  refine ⟨s, hs, hmain, hstop, fun hsilent => ?_, fun hjoins => ?_⟩
  · exact absurd (hsilent [_, _, _] _ hlog (by simp) 0 (.tone 440) (by simp))
      (by decide : ¬ (440 : Int) ≤ 0)
  · obtain ⟨pc, hpc, -, hr⟩ := hjoins.running 0 hloop
    cases hbeep.1.symm.trans hpc
    rcases hr with hr | ⟨r, hr⟩
    · cases hbeep.2.symm.trans hr
    · cases hr

end RemoteDevice.Manager
