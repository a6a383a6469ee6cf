import RemoteDevice.Worker.Writes

/-! Who disposes of a task: its run and cleanup callbacks, its cancellation and its memory. -/

namespace RemoteDevice.Worker
open Function (update)

variable {ρ κ χ : Type} {s s' : State ρ κ χ} {A : Ledger}

/-! ## Exactly one disposal -/

structure DisposedOnce (log : List Event) (c : TaskId) : Prop where
  run_once : log.count (.runCall c) ≤ 1
  run_or_cancelled : .runCall c ∈ log → ∀ k code, .cancel k c code ∉ log
  cleanup_once : log.countP (Event.isCleanup c) ≤ 1
  cleanup_after_run : ∀ new old b, log = new ++ .cleanup c b :: old → .runCall c ∈ log →
    ∃ r, .runReturn c r ∈ old
  destroy_once : log.count (.destroy c) ≤ 1
  untouched : ∀ new old, log = new ++ .destroy c :: old → ∀ e ∈ new, e.touches c = false

structure Quiescent (s : State ρ κ χ) : Prop where
  submits : ∀ c, s.submits c = .idle ∨ ∃ r, s.submits c = .returned r
  cancels : ∀ k, s.cancels k = .idle ∨ s.cancels k = .returned
  stopped : s.stop = .returned

/-- The context has been cleaned up if a callback was given, and the task, if one was created,
has been destroyed. -/
structure Released (s : State ρ κ χ) (c : TaskId) : Prop where
  cleaned : s.log.count (.cleanup c true) = if (s.args c).cleanup.isSome then 1 else 0
  destroyed : s.log.count (.destroy c) = s.log.count (.create c)

theorem ite_one_zero_le (P : Prop) [Decidable P] : (if P then 1 else 0) ≤ 1 := by
  split <;> simp

theorem Admits.cleanup_after_run {log : List Event} (h : Admits log A) {c : TaskId}
    {new old : List Event} {b : Bool} (hlog : log = new ++ .cleanup c b :: old)
    (hrun : .runCall c ∈ log) : ∃ r, .runReturn c r ∈ old := by
  have hran : (A.life c).ran = true := (mem_of_count (h.count_runCall c)).mp hrun
  obtain ⟨C, hC, hsince⟩ := Admits.split (hlog ▸ h)
  cases hC with
  | @cons _ B _ _ hB hs =>
    have hfate : ∀ f, B.life c = .ended f ∨ B.life c = .settled f → C.life c = .cleaned f →
        ∃ r, .runReturn c r ∈ old := fun f hold hnew => by
      have hA := hsince c (fun l => l.fate = some f) (fun _ _ _ _ hl => hl.fate) (by rw [hnew]; rfl)
      obtain ⟨r, rfl⟩ := Life.ran_of_fate hA hran
      refine ⟨r, (mem_of_count (hB.count_runReturn c r)).mpr ?_⟩
      rcases hold with hl | hl <;> rw [hl] <;> rfl
    rcases Ledger.step_life hs c with hl | ⟨-, hm⟩
    · generalize hl1 : B.life c = l at hl
      generalize hl2 : C.life c = l' at hl
      cases hl with
      | reject =>
        have hA := hsince c (· = .rejected) (fun _ _ _ _ hl e => (LifeStep.rejected (e ▸ hl)).elim) hl2
        rw [hA] at hran; cases hran
      | cleanup f => exact hfate f (.inl hl1) hl2
      | collect f => exact hfate f (.inr hl1) hl2
    · simp [Event.moves] at hm

theorem Admits.untouched {log : List Event} (h : Admits log A) {c : TaskId}
    {new old : List Event} (hlog : log = new ++ .destroy c :: old) :
    ∀ e ∈ new, e.touches c = false := by
  intro e he
  obtain ⟨new', mid, rfl⟩ := List.append_of_mem he
  rw [hlog, List.append_assoc, List.cons_append] at h
  obtain ⟨C, hC, -⟩ := h.split
  cases hC with
  | cons _ hB hs =>
    refine Ledger.step_gone hs (c := c) ?_
    have hd : .destroy c ∈ mid ++ .destroy c :: old := by simp
    exact (mem_of_count (hB.count_destroy c)).mp hd

theorem Admits.disposedOnce {log : List Event} (h : Admits log A) (c : TaskId) :
    DisposedOnce log c where
  run_once := by rw [h.count_runCall]; exact ite_one_zero_le _
  run_or_cancelled := fun hrun k code hk => by
    have hran := (mem_of_count (h.count_runCall c)).mp hrun
    obtain ⟨r, hr⟩ := Life.ran_of_fate ((mem_of_count (h.count_cancel c k code)).mp hk) hran
    cases hr
  cleanup_once := by rw [h.countP_cleanup]; exact ite_one_zero_le _
  cleanup_after_run := fun _ _ _ => h.cleanup_after_run
  destroy_once := by rw [h.count_destroy]; exact ite_one_zero_le _
  untouched := fun _ _ => h.untouched

theorem Refines.quiescent_life (h : Refines s A) (hq : Quiescent s) (hctl : ControlOk s)
    {c : TaskId} (hc : A.life c ≠ .unborn) : A.life c = .rejected ∨ ∃ f, A.life c = .gone f := by
  have hexit : s.loop = .exited := hctl.joined (.inr (.inr hq.stopped))
  have hworker : ¬ (A.life c).atWorker (s.args c).wait := fun e => by
    have htask := (h.loop c).task_iff.mpr e
    rw [hexit] at htask
    cases htask
  have hcanceller : ∀ k, ¬ (A.life c).atCanceller k (s.args c).wait := fun k =>
    (h.cancel k c).not_atCanceller (by rcases hq.cancels k with e | e <;> rw [e] <;> rfl)
  have hqueue : A.life c ≠ .queued := fun e => by
    have hmem := (h.pending_iff c).mpr e
    rw [(h.exited hexit).2] at hmem
    cases hmem
  -- nobody else holds the task, so its call has returned and says how it ended
  have hsub := h.submit c
  rcases hq.submits c with hi | ⟨r, hr⟩
  · rw [hi] at hsub; exact (hc hsub).elim
  · rw [hr] at hsub
    rcases hsub with ⟨hl, -⟩ | ⟨hl, -⟩ | ⟨-, f, -, hl, -⟩ | ⟨hw, -, hp | ⟨f, hf, hl | hl⟩⟩
    · exact .inl hl
    · exact .inr ⟨_, hl⟩
    · exact .inr ⟨f, hl⟩
    · rcases hp.holder (s.args c).wait with hl | hl | ⟨k, hl⟩
      · exact (hqueue hl).elim
      · exact (hworker hl).elim
      · exact (hcanceller k hl).elim
    · rw [hl, hw] at hworker hcanceller
      cases f with
      | ran r => exact (hworker rfl).elim
      | cancelled k code => exact (hcanceller k ⟨rfl, rfl⟩).elim
      | refused => exact (hf rfl).elim
    · exact .inr ⟨f, hl⟩

theorem CleanupsFaithful.count_called (h : CleanupsFaithful s) (c : TaskId)
    (h1 : s.log.countP (Event.isCleanup c) = 1) :
    s.log.count (.cleanup c true) = if (s.args c).cleanup.isSome then 1 else 0 := by
  have hcount : s.log.count (.cleanup c (s.args c).cleanup.isSome) = 1 := by
    rw [← h1]
    refine List.countP_congr fun e he => ?_
    cases e <;> simp_all [Event.isCleanup]
    next t b => exact fun e => h c b (e ▸ he)
  split
  · next hs => rwa [hs] at hcount
  · next hs =>
    rw [List.count_eq_zero]
    exact fun hm => hs (h c true hm).symm

theorem Admits.submitted_iff {log : List Event} (h : Admits log A) (c : TaskId) :
    .submit c ∈ log ↔ A.life c ≠ .unborn :=
  mem_of_count (h.countP_eq (c := c) _ (fun l => if l ≠ .unborn then 1 else 0) rfl
    (fun e he => by cases e <;> simp_all [Event.moves])
    (fun e l l' hl => by cases hl <;> simp))

theorem Refines.released (h : Refines s A) (ha : Admits s.log A) (hq : Quiescent s)
    (hctl : ControlOk s) (hf : CleanupsFaithful s) {c : TaskId} (hc : .submit c ∈ s.log) :
    Released s c := by
  rcases h.quiescent_life hq hctl ((ha.submitted_iff c).mp hc) with hl | ⟨f, hl⟩
  · exact ⟨hf.count_called c (by rw [ha.countP_cleanup, hl]; rfl),
      by rw [ha.count_destroy, ha.count_create, hl]; rfl⟩
  · exact ⟨hf.count_called c (by rw [ha.countP_cleanup, hl]; rfl),
      by rw [ha.count_destroy, ha.count_create, hl]; rfl⟩

/-- In every reachable state every task is run, cleaned up and destroyed at most once, in this
order and by one owner; once all calls have returned nothing is left over. -/
theorem tasks_disposed_once (h : Reachable s) :
    (∀ c, DisposedOnce s.log c) ∧
    (Quiescent s → s.head = none ∧ ∀ c, .submit c ∈ s.log → Released s c) := by
  obtain ⟨A, ha, href⟩ := Reachable.traced h
  refine ⟨ha.disposedOnce, fun hq => ⟨?_, fun c hc => ?_⟩⟩
  · have hexit := (Reachable.control h).joined (.inr (.inr hq.stopped))
    exact href.queue.head_none.mpr (href.exited hexit).2
  · exact href.released ha hq (Reachable.control h) (Reachable.history h).1 hc

def oneTaskRun : List (Action Unit Unit Unit) :=
  [.submitCall 0 ⟨some (), some (), some (), false⟩, .submit 0 .ok, .submit 0 .ok, .submit 0 .ok,
    .loop, .loop, .runReturn 0, .loop, .loop, .stopCall, .stop, .stop, .loop, .stop, .stop, .stop]

theorem Reachable.idle_of_not_submitted (h : Reachable s) {c : TaskId} (hc : .submit c ∉ s.log) :
    s.submits c = .idle := by
  obtain ⟨A, ha, href⟩ := Reachable.traced h
  have hl : A.life c = .unborn := not_not.mp fun hl => hc ((ha.submitted_iff c).mpr hl)
  have hsub := href.submit c
  rw [hl] at hsub
  cases hpc : s.submits c <;> simp_all [SubmitOk, Life.posted]

theorem tasks_disposed_once_oneTaskRun :
    ∃ s : State Unit Unit Unit, Runs.run step (deviceWorkerStart Unit Unit Unit) oneTaskRun = some s ∧
      (∀ c, DisposedOnce s.log c) ∧ Quiescent s ∧ s.head = none ∧ Released s 0 := by
  obtain ⟨s, hs⟩ : ∃ s, Runs.run step (deviceWorkerStart Unit Unit Unit) oneTaskRun = some s := ⟨_, rfl⟩
  have hlog : some s.log = some [.destroy 0, .cleanup 0 true, .runReturn 0 0, .runCall 0, .dequeue 0,
      .append 0, .create 0, .submit 0] := (congrArg (Option.map State.log) hs).symm.trans rfl
  have hcalls : (some (s.cancels, s.stop, s.submits 0)) =
      some ((fun _ => .idle), .returned, .returned 0) :=
    (congrArg (Option.map fun s : State Unit Unit Unit => (s.cancels, s.stop, s.submits 0)) hs).symm.trans rfl
  simp only [Option.some.injEq, Prod.mk.injEq] at hlog hcalls
  obtain ⟨hcancels, hstop, hsubmit⟩ := hcalls
  have hr : Reachable s := Runs.Reachable.run (.start rfl) hs
  have hq : Quiescent s := by
    refine ⟨fun c => ?_, fun k => .inl (by rw [hcancels]), hstop⟩
    by_cases hc : c = 0
    · subst hc; exact .inr ⟨0, hsubmit⟩
    · exact .inl (Reachable.idle_of_not_submitted hr (by simp [hlog, hc]))
  have h := tasks_disposed_once hr
  exact ⟨s, hs, h.1, hq, (h.2 hq).1, (h.2 hq).2 0 (by simp [hlog])⟩

end RemoteDevice.Worker
