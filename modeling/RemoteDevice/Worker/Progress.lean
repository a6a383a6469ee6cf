import RemoteDevice.Worker.Calls
import RemoteDevice.Worker.Control

/-! Calls that return by their own steps alone, whatever the worker thread does: cancelling the
waiting tasks, and submitting a task that is not waited for. -/

namespace RemoteDevice.Worker
open Function (update)

variable {ρ κ χ : Type} {s s' : State ρ κ χ}

/-! ## Cancelling -/

theorem cancel_visit {k : CancelId} {t : TaskId} {code : Int}
    (hk : s.cancels k = .next (some t) code) :
    ∃ s', step s (.cancel k) = some s' ∧ (∀ u, u ≠ t → s'.heap u = s.heap u) ∧
      (s'.cancels k = .next (s.next t) code ∨ s'.cancels k = .cleaned t (s.next t) code) := by
  refine ⟨_, by simp only [step, deviceWorkerCancelPending, hk]; rfl, fun u hu => ?_, ?_⟩
  · unfold cancelTask
    split
    · exact ((settleTask_sameOutside _ t code).heap u hu).trans (Function.update_of_ne hu ..)
    · exact Function.update_of_ne hu ..
  · unfold cancelTask
    split
    · exact .inl (Function.update_self ..)
    · exact .inr (Function.update_self ..)

theorem cancel_returns {k : CancelId} {cur : Option TaskId} {code : Int} {l : List TaskId}
    (hk : s.cancels k = .next cur code) (hch : Chain s.next cur l) :
    Runs.Leads step (.cancel k) (fun t => t.cancels k = .returned) s := by
  induction l generalizing s cur with
  | nil =>
    cases hch
    refine .later (t := s.setCancel k .returned) ?_ (.now (Function.update_self ..))
    simp [step, deviceWorkerCancelPending, hk]
  | cons t l ih =>
    obtain ⟨rfl, hrest⟩ := hch
    obtain ⟨s₁, hs₁, hheap, hk₁⟩ := cancel_visit hk
    -- the rest of the list does not contain `t`, whose `next` has been cleared
    have ht : t ∉ l := (List.nodup_cons.mp (Chain.nodup (p := some t) ⟨rfl, hrest⟩)).1
    have hrest₁ : Chain s₁.next (s.next t) l :=
      hrest.congr fun u hu => congrArg (·.next) (hheap u fun e => ht (e ▸ hu))
    refine .later hs₁ ?_
    rcases hk₁ with hk₁ | hk₁
    · exact ih hk₁ hrest₁
    · refine .later (t := (s₁.emit (.destroy t)).setCancel k (.next (s.next t) code)) ?_ ?_
      · simp [step, deviceWorkerCancelPending, hk₁]
      · exact ih (Function.update_self ..) hrest₁

theorem Reachable.cancelCall_returns (h : Reachable s) {k : CancelId} {code : Int}
    (hstarted : s.started = true) (hlock : s.lockAlive = true)
    (hk : s.cancels k = .called code) :
    Runs.Leads step (.cancel k) (fun t => t.cancels k = .returned) s := by
  have hs₁ : step s (.cancel k) = some (s.setCancel k (.locking code)) := by
    simp [step, deviceWorkerCancelPending, hk, hstarted]
  refine .later hs₁ (.later (by simp [step, deviceWorkerCancelPending, State.setCancel, hlock]; rfl) ?_)
  obtain ⟨A, -, href⟩ := h.traced
  exact cancel_returns (Function.update_self ..) href.queue.chain

/-! ## Submitting without waiting -/

def SubmitPc.waits : SubmitPc → Bool
  | .waiting | .asleep => true
  | _ => false

def SubmitPc.left : SubmitPc → Nat
  | .called => 5
  | .creating => 4
  | .created => 3
  | .refused => 2
  | .refusedClean | .rejecting _ => 1
  | _ => 0

structure Unwaiting (s : State ρ κ χ) (c : TaskId) : Prop where
  lock : s.lockAlive = true
  wait : (s.args c).wait = false
  pc : 0 < (s.submits c).left ∨ ∃ r, s.submits c = .returned r

theorem Unwaiting.enabled {c : TaskId} (h : Unwaiting s c) (hpc : 0 < (s.submits c).left) :
    ∃ s', deviceWorkerSubmit s c .ok = some s' := by
  unfold deviceWorkerSubmit
  cases hc : s.submits c <;> simp only [hc, SubmitPc.left, Nat.lt_irrefl] at hpc ⊢
  case called | creating => split <;> exact ⟨_, rfl⟩
  case created =>
    rw [h.lock, if_neg (by decide)]
    split <;> exact ⟨_, rfl⟩
  all_goals exact ⟨_, rfl⟩

theorem Unwaiting.left_lt {c : TaskId} (h : Unwaiting s c)
    (hs : deviceWorkerSubmit s c .ok = some s') :
    (s'.submits c).left < (s.submits c).left ∧
      (0 < (s'.submits c).left ∨ ∃ r, s'.submits c = .returned r) := by
  have hself : ∀ {u : State ρ κ χ} {pc : SubmitPc}, (u.setSubmit c pc).submits c = pc :=
    Function.update_self ..
  have hpc := h.pc
  have hbusy : ∀ {pc : SubmitPc}, s.submits c = pc → pc.left = 0 → (∀ r, pc ≠ .returned r) → False := by
    rintro pc hpc' hleft hreturned
    rw [hpc', hleft] at hpc
    rcases hpc with h0 | ⟨r, hr⟩
    · exact Nat.lt_irrefl 0 h0
    · exact hreturned r hr
  cases submit_branch hs with
  | enters hpc' | unstarted hpc' | creates _ hpc' | starves hpc' | refuses hpc' | refusedCleans hpc' =>
    rw [hself, hpc']
    exact ⟨by decide, .inl (by decide)⟩
  | appends hpc' =>
    rw [hself, hpc', h.wait]
    exact ⟨by decide, .inr ⟨_, rfl⟩⟩
  | rejects r hpc' | refusedDestroys hpc' =>
    rw [hself, hpc']
    exact ⟨Nat.zero_lt_one, .inr ⟨_, rfl⟩⟩
  | finishes hpc' | sleeps hpc' | cleans r hpc' | destroys r hpc' =>
    exact (hbusy hpc' rfl (by rintro _ ⟨⟩)).elim

theorem Unwaiting.step {c : TaskId} (h : Unwaiting s c) (hpc : 0 < (s.submits c).left) :
    ∃ s', step s (.submit c .ok) = some s' ∧ Unwaiting s' c ∧
      (s'.submits c).left < (s.submits c).left := by
  obtain ⟨s', hs⟩ := h.enabled hpc
  obtain ⟨hlt, hleft⟩ := h.left_lt hs
  have hstep : Worker.step s (.submit c .ok) = some s' := hs
  refine ⟨s', hstep, ⟨(submit_frame hs).lockAlive.trans h.lock, ?_, hleft⟩, hlt⟩
  rw [(step_continues hstep rfl).args]
  exact h.wait

theorem Unwaiting.returns {c : TaskId} (h : Unwaiting s c) :
    Runs.Leads Worker.step (.submit c .ok) (fun t => ∃ r, t.submits c = .returned r) s := by
  induction hn : (s.submits c).left using Nat.strong_induction_on generalizing s with
  | _ n ih =>
    rcases h.pc with hpc | hr
    · obtain ⟨s', hs', h', hlt⟩ := h.step hpc
      exact .later hs' (ih _ (hn ▸ hlt) h' rfl)
    · exact .now hr

theorem Reachable.unwaiting (h : Reachable s) {c : TaskId} (hlock : s.lockAlive = true)
    (hmade : s.submits c ≠ .idle) (hwait : (s.args c).wait = false) : Unwaiting s c := by
  obtain ⟨A, -, href⟩ := h.traced
  have hsub := href.submit c
  refine ⟨hlock, hwait, ?_⟩
  cases hpc : s.submits c <;> rw [hpc] at hsub hmade
  case idle => exact (hmade rfl).elim
  case returned r => exact .inr ⟨r, rfl⟩
  case waiting | asleep | finished | finishedClean => cases hsub.1.symm.trans hwait
  all_goals exact .inl (Nat.succ_pos _)

end RemoteDevice.Worker
