import RemoteDevice.Manager.Phases
import RemoteDevice.Worker.Hands

/-! A task of the buzzer worker that has been told to stop, or that the worker never takes: it
stays so, and what its plugin function still does is neither a tone nor a pause. -/

namespace RemoteDevice.Manager
open Worker (TaskId CancelId)
open Buzzer (RunPc RunEvent Stopped stopOutput)

variable {s t : State} {act : Action}

structure Hushed (s : State) (c : TaskId) : Prop where
  untaken : (s.worker .buzzer).loop ≠ .taken c
  stopped : (s.worker .buzzer).loop = .running c → ∀ pc, s.tune = some pc → Stopped s.output pc

theorem Hushed.congr {c : TaskId} (h : Hushed s c)
    (hloop : (t.worker .buzzer).loop = (s.worker .buzzer).loop)
    (htune : t.tune = s.tune) (hout : t.output = s.output ∨ t.output = stopOutput s.output true) :
    Hushed t c := by
  refine ⟨hloop ▸ h.untaken, fun hr pc hpc => ?_⟩
  have hstop := h.stopped (hloop ▸ hr) pc (htune ▸ hpc)
  rcases hout with ho | ho <;> rw [ho]
  · exact hstop
  · exact hstop.stopOutput

theorem Hushed.setWorker {c : TaskId} {w : WorkerId} {a : WorkerAction} {x : WorkerState}
    (h : Hushed s c) (hx : Worker.step (s.worker w) a = some x)
    (ht : ((s.setWorker w a x).worker .buzzer).loop ≠ .taken c) : Hushed (s.setWorker w a x) c := by
  by_cases hw : w = .buzzer
  · subst hw
    refine ⟨ht, fun hr pc hpc => ?_⟩
    rw [setWorker_worker, if_pos rfl] at hr
    rcases Worker.step_running hx hr with ⟨hr, hloop, hrun⟩ | ⟨-, htaken⟩
    · exact h.stopped hr pc ((nextTune_eq hloop hrun ..).symm.trans hpc)
    · exact (h.untaken htaken).elim
  · refine h.congr ?_ (if_neg hw) (.inl rfl)
    rw [setWorker_worker, if_neg (Ne.symm hw)]

theorem Effect.hushed (he : Effect s act t) {c : TaskId} (h : Hushed s c)
    (ht : (t.worker .buzzer).loop ≠ .taken c) : Hushed t c := by
  cases he with
  | submit j x _ _ hx | cancel x _ _ hx | stop v x _ hx | cleanupCancel x _ hx
  | beeperSubmit x _ _ hx | worker v a x _ hx =>
    have hset := h.setWorker hx ht
    exact ⟨hset.untaken, hset.stopped⟩
  | tune d pc y r htune hl hr =>
    refine ⟨h.untaken, fun hc pc' hpc' => ?_⟩
    cases hpc'
    exact ((h.stopped hc pc htune).runStep hr).1
  | off | cleanupOff => exact h.congr rfl rfl (.inr rfl)
  | pluginCleanup p =>
    refine h.congr rfl rfl ?_
    by_cases hp : p = .buzzer
    · exact .inr (if_pos hp)
    · exact .inl (if_neg hp)
  | _ => exact h.congr rfl rfl (.inl rfl)

theorem Hushed.quiet {c : TaskId} {e : RunEvent} (h : Hushed s c)
    (he : (Entry.run c e).Origin s act t) : e.quiet := by
  obtain ⟨y, pc, r, -, htune, hl, hr, hmem⟩ := he
  exact ((h.stopped hl pc htune).runStep hr).2 e hmem

/-! ## The call of `plugins.buzzer.off` -/

/-- The task that the buzzer worker has dequeued and that has not yet cleared the stop request. -/
def startingTask (s : State) : Option TaskId :=
  match (s.worker .buzzer).loop, s.tune with
  | .taken c, _ => some c
  | .running c, some pc => if pc.unstarted then some c else none
  | _, _ => none

/-- The stop request reaches every task but the one that is about to clear it. -/
theorem Hushed.of_buzzerOff {c : TaskId} (h : startingTask s ≠ some c) : Hushed s.buzzerOff c := by
  constructor
  · intro hl
    have hl : (s.worker .buzzer).loop = .taken c := hl
    exact h (by rw [startingTask, hl])
  · intro hl pc hpc
    have hl : (s.worker .buzzer).loop = .running c := hl
    have hpc : s.tune = some pc := hpc
    have hstarted : pc.unstarted = false := by
      by_contra hu
      exact h (by simp [startingTask, hl, hpc, hu])
    exact ⟨hstarted, .inl (by simp [State.buzzerOff])⟩

/-! ## The queue of the buzzer worker -/

def State.waiting (s : State) (c : TaskId) : Prop := c ∈ Worker.waitingIn (s.worker .buzzer).log

theorem Effect.taken (he : Effect s act t) {c : TaskId} (hc : (t.worker .buzzer).loop = .taken c) :
    (s.worker .buzzer).loop = .taken c ∨ (act = .worker .buzzer .loop ∧
      (s.worker .buzzer).loop = .top ∧ (s.worker .buzzer).head = some c) := by
  have hcall : ∀ {w : WorkerId} {a : WorkerAction} {x : WorkerState},
      Worker.step (s.worker w) a = some x → (a = .loop → act = .worker w .loop) →
      (if .buzzer = w then x else s.worker .buzzer).loop = .taken c →
      (s.worker .buzzer).loop = .taken c ∨ (act = .worker .buzzer .loop ∧
        (s.worker .buzzer).loop = .top ∧ (s.worker .buzzer).head = some c) := by
    intro w a x hx ha hc
    by_cases hw : .buzzer = w
    · subst hw
      rw [if_pos rfl] at hc
      exact (Worker.step_taken hx hc).imp_right (And.imp_left ha)
    · rw [if_neg hw] at hc
      exact .inl hc
  cases he with
  | submit j x _ _ hx | cancel x _ _ hx | stop v x _ hx | cleanupCancel x _ hx
  | beeperSubmit x _ _ hx =>
    simp only [State.goto, State.setBeeper, State.count, setWorker_worker] at hc
    exact hcall hx (by rintro ⟨⟩) hc
  | worker v a x _ hx =>
    rw [setWorker_worker] at hc
    exact hcall hx (by rintro rfl; rfl) hc
  | _ => exact .inl hc

theorem Effect.hushed_of_not_waiting (he : Effect s act t) (h : Reachable s) {c : TaskId}
    (hh : Hushed s c) (hw : ¬ s.waiting c) : Hushed t c := by
  refine he.hushed hh fun hc => ?_
  rcases he.taken hc with hc | ⟨-, -, hhead⟩
  · exact hh.untaken hc
  · exact hw ((h.worker .buzzer).head_waiting hhead)

theorem Effect.not_waiting (he : Effect s act t) (h : Reachable s) {c : TaskId}
    (happend : .append c ∈ (s.worker .buzzer).log) (hw : ¬ s.waiting c) : ¬ t.waiting c := by
  intro hc
  rcases he.worker_step .buzzer with heq | ⟨a, ha⟩
  · exact hw (by rwa [State.waiting, ← heq])
  · exact hw ((h.worker .buzzer).step_waiting ha happend hc)

/-! ## Cutting the log -/

theorem append_eq_split {α : Type} {es log new old : List α} {x : α}
    (h : es ++ log = new ++ x :: old) :
    (∃ m, es = new ++ x :: m ∧ old = m ++ log) ∨ ∃ n, log = n ++ x :: old ∧ new = es ++ n := by
  rcases List.append_eq_append_iff.mp h with ⟨n, rfl, hlog⟩ | ⟨m, rfl, hm⟩
  · exact .inr ⟨n, hlog, rfl⟩
  · cases m with
    | nil => exact .inr ⟨[], hm.symm, by simp⟩
    | cons y m =>
      obtain ⟨rfl, rfl⟩ := List.cons.inj hm
      exact .inl ⟨m, rfl, rfl⟩

theorem run_not_main {es : List Entry} {m : Bool} (hact : act = .main m)
    (hes : ∀ e ∈ es, e.Origin s act t) (c : TaskId) (e : RunEvent) : .run c e ∉ es := by
  intro hmem
  obtain ⟨y, pc, r, hy, -⟩ := hes _ hmem
  cases hact.symm.trans hy

def beepDequeued : List Action :=
  [.request (.submit (.buzzerBeep 500)), .main true] ++
  List.replicate 3 (.worker .buzzer (.submit 0 .ok)) ++ [.main true, .worker .buzzer .loop]

end RemoteDevice.Manager
