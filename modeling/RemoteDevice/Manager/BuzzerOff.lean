import RemoteDevice.Manager.Hush
import RemoteDevice.Manager.Shutdown

/-! `device_buzzer_off` against the tasks submitted before its call: it cancels those in the
queue, then `plugins.buzzer.off()` stops the running one, unless that one has yet to clear the
stop request. -/

namespace RemoteDevice.Manager
open Worker (TaskId CancelId)
open Buzzer (RunEvent)

variable {s t : State} {act : Action}

def beforeOff (log : List Entry) : List Entry := log.dropWhile (· ≠ .called .buzzerOff)

def submittedBefore (log : List Entry) (c : TaskId) : Bool :=
  (beforeOff log).contains (.worker .buzzer (.append c))

def OffWins (log : List Entry) : Prop :=
  ∀ new old, log = new ++ .returned .buzzerOff DeviceResult.ok :: old →
    ∀ c, submittedBefore old c = true → ∀ e, .run c e ∈ new → e.quiet

/-- The step is not the call of `plugins.buzzer.off()` in `device_buzzer_off` while a task
submitted before that request is about to clear the stop request. -/
def offReaches (s : State) : Action → Bool
  | .main _ => s.main ≠ .off || (startingTask s).all fun c => !submittedBefore s.log c
  | _ => true

abbrev OffReaches : State → Prop :=
  Runs.Reachable (· = deviceInit) (Runs.guarded (fun s a => offReaches s a = true) step)

theorem submittedBefore_append {es log : List Entry} (hes : .called .buzzerOff ∉ es) (c : TaskId) :
    submittedBefore (es ++ log) c = submittedBefore log c := by
  have hdrop : beforeOff (es ++ log) = beforeOff log :=
    List.dropWhile_append_of_pos fun e he => decide_eq_true fun h => hes (h ▸ he)
  rw [submittedBefore, hdrop]
  rfl

theorem Effect.submittedBefore_eq (he : Effect s act t) (hact : act ≠ .request .buzzerOff)
    (c : TaskId) : submittedBefore t.log c = submittedBefore s.log c := by
  obtain ⟨es, hlog, hes⟩ := he.extends
  rw [hlog]
  exact submittedBefore_append (fun hmem => hact (hes _ hmem).1) c

theorem mem_of_submittedBefore {log : List Entry} {c : TaskId} (hc : submittedBefore log c = true) :
    .worker .buzzer (.append c) ∈ log :=
  (List.dropWhile_suffix _).subset (List.contains_iff_mem.mp hc)

/-! ## The two steps of the call -/

def CancelledQueue (s : State) : Prop :=
  s.main = .off ∨ ∃ k, s.main = .cancelling k ∧ ((s.worker .buzzer).cancels k).early = false

def QueueBeaten (s : State) : Prop :=
  CancelledQueue s → ∀ c, submittedBefore s.log c = true → ¬ s.waiting c

theorem QueueBeaten.keep (hq : QueueBeaten s) (h : Reachable s) (he : Effect s act t)
    (hact : act ≠ .request .buzzerOff) (hs : CancelledQueue s) {c : TaskId}
    (hc : submittedBefore t.log c = true) : ¬ t.waiting c := by
  rw [he.submittedBefore_eq hact] at hc
  exact he.not_waiting h (h.mem_worker_log (mem_of_submittedBefore hc)) (hq hs c hc)

theorem QueueBeaten.effect (hq : QueueBeaten s) (h : Reachable s) (he : Effect s act t) :
    QueueBeaten t := by
  intro ht c hc
  have hsame : t.main = s.main → act ≠ .request .buzzerOff → ¬ t.waiting c := by
    intro hm hact
    rcases ht with hoff | ⟨k, hk, hlate⟩
    · exact hq.keep h he hact (.inl (hm ▸ hoff)) hc
    · rw [hm] at hk
      cases hearly : ((s.worker .buzzer).cancels k).early with
      | false => exact hq.keep h he hact (.inr ⟨k, hk, hearly⟩) hc
      | true =>
        -- the locked section of the call
        have hp := phase_eq_zero h.orderly.api (by rw [hk]; rfl)
        have hstarted := h.started (w := .buzzer) (by omega)
        rcases he.worker_step .buzzer with heq | ⟨a, ha⟩
        · rw [heq, hearly] at hlate
          cases hlate
        · rw [State.waiting, Worker.step_detached ha hstarted hearly hlate]
          exact List.not_mem_nil
  cases he with
  | beeperChecked | beeperSubmit | beeperReturn | refresh | worker | tune =>
    exact hsame rfl (by rintro ⟨⟩)
  | cancel x hpc hi hx =>
    cases Worker.cancelCall_eq hx
    rcases ht with ht | ⟨k, hk, hlate⟩
    · cases ht
    · cases hk
      simp [State.goto, State.count, Worker.State.setCancel, Worker.CancelPc.early] at hlate
  | cancelled k hpc hk => exact hq (.inr ⟨k, hpc, by rw [hk]; rfl⟩) c hc
  | join x hpc => rcases ht with ht | ⟨k, ht, -⟩ <;> cases hpc.symm.trans ht
  | _ => rcases ht with ht | ⟨k, ht, -⟩ <;> cases ht

theorem Reachable.queueBeaten (h : Reachable s) : QueueBeaten s :=
  h.invariant_of_reachable (by rintro _ rfl (h | ⟨k, h, -⟩) <;> cases h) fun _ _ _ hr hq hs =>
    hq.effect hr (step_effect hs)

theorem Effect.hushed_of_returned (he : Effect s act t) (h : Reachable s)
    (hok : offReaches s act = true)
    (ho : (Entry.returned .buzzerOff DeviceResult.ok).Origin s act t) {c : TaskId}
    (hc : submittedBefore s.log c = true) : Hushed t c ∧ ¬ t.waiting c := by
  have hm : s.main = .off := by
    obtain ⟨-, -, -, ⟨-, -, hr⟩ | ⟨-, hm⟩ | ⟨⟨⟩, -⟩ | ⟨hne, -⟩⟩ := ho
    · exact absurd hr (by decide)
    · exact hm
    · exact (hne rfl).elim
  have hw := h.queueBeaten (.inl hm) c hc
  obtain ⟨b, rfl⟩ := ho.1
  cases he with
  | off =>
    have hstart : startingTask s ≠ some c := fun hs => by simp [offReaches, hm, hs, hc] at hok
    exact ⟨(Hushed.of_buzzerOff hstart).congr rfl rfl (.inl rfl), hw⟩
  | _ => cases hm.symm.trans ‹s.main = _›

structure OffRun (s : State) : Prop where
  hushed : ∀ new old, s.log = new ++ .returned .buzzerOff DeviceResult.ok :: old →
    ∀ c, submittedBefore old c = true → Hushed s c ∧ ¬ s.waiting c
  wins : OffWins s.log

theorem OffRun.effect (hs : OffRun s) (h : Reachable s) (he : Effect s act t)
    (hok : offReaches s act = true) : OffRun t := by
  obtain ⟨es, hlog, hes⟩ := he.extends
  -- the return is an old one, or the event-loop thread makes it now
  have hcut : ∀ new old, t.log = new ++ .returned .buzzerOff DeviceResult.ok :: old →
      ∀ c, submittedBefore old c = true →
        (Hushed t c ∧ ¬ t.waiting c) ∧ ∀ e, .run c e ∈ new → e.quiet := by
    intro new old hnew c hc
    rcases append_eq_split (hlog.symm.trans hnew) with ⟨m, rfl, rfl⟩ | ⟨n, hold, rfl⟩
    · have ho := hes (.returned .buzzerOff DeviceResult.ok) (by simp)
      obtain ⟨b, rfl⟩ := ho.1
      have hcalled : .called .buzzerOff ∉ m := fun hm => by
        cases (hes (.called .buzzerOff) (by simp [hm])).1
      rw [submittedBefore_append hcalled] at hc
      refine ⟨he.hushed_of_returned h hok ho hc, fun e hmem => ?_⟩
      exact (run_not_main rfl hes c e (by simp [hmem])).elim
    · obtain ⟨hh, hw⟩ := hs.hushed n old hold c hc
      have happend : .append c ∈ (s.worker .buzzer).log := by
        apply h.mem_worker_log
        rw [hold]
        exact List.mem_append_right _ (List.mem_cons_of_mem _ (mem_of_submittedBefore hc))
      refine ⟨⟨he.hushed_of_not_waiting h hh hw, he.not_waiting h happend hw⟩, fun e hmem => ?_⟩
      rcases List.mem_append.mp hmem with hmem | hmem
      · exact hh.quiet (hes _ hmem)
      · exact hs.wins n old hold c hc e hmem
  exact ⟨fun new old hnew c hc => (hcut new old hnew c hc).1,
    fun new old hnew c hc => (hcut new old hnew c hc).2⟩

theorem OffReaches.offRun (h : OffReaches s) : OffRun s := by
  induction h with
  | start h0 =>
    cases h0
    exact ⟨fun _ _ hl => by simp [deviceInit] at hl, fun _ _ hl => by simp [deviceInit] at hl⟩
  | next a hr hst ih =>
    obtain ⟨hok, hst⟩ := Runs.guarded_eq_some.mp hst
    exact ih.effect hr.of_guarded (step_effect hst) hok

theorem off_wins (h : OffReaches s) : OffWins s.log := h.offRun.wins

def buzzerOffCall : List Action :=
  [.request .buzzerOff, .main true] ++ List.replicate 3 (.worker .buzzer (.cancel 1)) ++
  [.main true, .main true]

def offWhilePlaying : List Action :=
  beepDequeued ++ [.worker .buzzer .loop, .tune .endOfData] ++ buzzerOffCall ++ [.tune .endOfData]

theorem off_wins_offWhilePlaying :
    ∃ s, Runs.run (Runs.guarded (fun s a => offReaches s a = true) step) deviceInit
      offWhilePlaying = some s ∧ s.tune = some (.stopping 0) ∧ .run 0 (.tone 440) ∈ s.log ∧
      OffWins s.log := by
  obtain ⟨s, hs⟩ : ∃ s, Runs.run (Runs.guarded (fun s a => offReaches s a = true) step) deviceInit
      offWhilePlaying = some s := ⟨_, rfl⟩
  have hread : some (s.tune, s.log.contains (.run 0 (.tone 440))) =
      some (some (.stopping 0), true) :=
    (congrArg (Option.map fun s : State => (s.tune, s.log.contains (.run 0 (.tone 440))))
      hs).symm.trans rfl
  simp only [Option.some.injEq, Prod.mk.injEq] at hread
  exact ⟨s, hs, hread.1, by simpa using hread.2, off_wins (Runs.Reachable.run (.start rfl) hs)⟩

/-- A beep that has been dequeued plays after `device_buzzer_off` has returned. -/
theorem beep_plays_after_off :
    ∃ s, Runs.run step deviceInit
      (beepDequeued ++ buzzerOffCall ++ [.worker .buzzer .loop, .tune .endOfData]) = some s ∧
      ¬ OffWins s.log := by
  obtain ⟨s, hs⟩ : ∃ s, Runs.run step deviceInit
      (beepDequeued ++ buzzerOffCall ++ [.worker .buzzer .loop, .tune .endOfData]) = some s :=
    ⟨_, rfl⟩
  have hlog : some s.log.reverse = some [.called (.submit (.buzzerBeep 500)),
      .worker .buzzer (.submit 0), .worker .buzzer (.create 0), .worker .buzzer (.append 0),
      .returned (.submit (.buzzerBeep 500)) DeviceResult.ok, .worker .buzzer (.dequeue 0),
      .called .buzzerOff, .worker .buzzer (.detach 1 DeviceResult.cancelled),
      .plugin .buzzer .off, .returned .buzzerOff DeviceResult.ok, .worker .buzzer (.runCall 0),
      .run 0 (.tone 440)] :=
    (congrArg (Option.map fun s : State => s.log.reverse) hs).symm.trans rfl
  simp only [Option.some.injEq, List.reverse_eq_iff] at hlog
  refine ⟨s, hs, fun hw => ?_⟩
  exact absurd (hw [_, _] _ hlog 0 (by decide) (.tone 440) (by simp)) (by decide : ¬ (440 : Int) ≤ 0)

end RemoteDevice.Manager
