import RemoteDevice.Worker.Fifo
import RemoteDevice.Worker.Results
import RemoteDevice.Worker.Solo

/-! What a call of `device_worker_submit` comes back with while nobody stops the worker: what `run`
has returned or a canceller has put in, or the failure of an allocation. -/

namespace RemoteDevice.Worker
open Function (update)

variable {ρ κ χ : Type} {s s' : State ρ κ χ} {a : Action ρ κ χ} {c : TaskId} {r : Int}

/-! ## Where the events come from -/

def Event.Entered (s : State ρ κ χ) (a : Action ρ κ χ) : Event → Prop
  | .runReturn c r => a = .runReturn r ∧ s.loop = .running c
  | .cancel k c code => a = .cancel k ∧ s.cancels k = .next (some c) code
  | _ => True

variable {P : Event → Prop}

theorem adds_linkTask (s : State ρ κ χ) (t : TaskId) (hP : ∀ l, P (.touch l)) :
    Adds P s.log (linkTask s t).log := by
  unfold linkTask
  split
  · exact .refl _
  · exact .cons _ (hP _)

theorem submit_entered {o : CreateOutcome} (hs : deviceWorkerSubmit s c o = some s') :
    Adds (·.Entered s a) s.log s'.log := by
  cases submit_branch hs with
  | enters | unstarted | starves => exact .refl _
  | appends =>
    have hlink := adds_linkTask (P := (·.Entered s a)) s c fun _ => trivial
    have happend : Adds (·.Entered s a) s.log ((linkTask s c).emit (.append c)).log :=
      hlink.trans (.cons _ trivial)
    rw [State.signalWorker_eq]
    exact happend
  | creates | rejects | refuses | refusedCleans | refusedDestroys | finishes | sleeps | cleans
  | destroys => exact .cons _ trivial

theorem loop_entered (hs : deviceWorkerLoop s = some s') : Adds (·.Entered s a) s.log s'.log := by
  cases loop_branch hs with
  | sleeps | exits => exact .refl _
  | settles t r =>
    show Adds _ _ (settleTask s t r).log
    rw [settleTask_log]
    exact .cons _ trivial
  | dequeues | calls | cleans | destroys => exact .cons _ trivial

theorem cancel_entered {k : CancelId} (hs : deviceWorkerCancelPending s k = some s') :
    Adds (·.Entered s (.cancel k)) s.log s'.log := by
  have hvisit : ∀ (e : Event) {t : TaskId} {code : Int}, s.cancels k = .next (some t) code →
      e.Entered s (.cancel k) → Adds (·.Entered s (.cancel k)) s.log (e :: .cancel k t code :: s.log) :=
    fun e t code hpc he =>
      Adds.trans (.cons _ (show Event.Entered s (.cancel k) (.cancel k t code) from ⟨rfl, hpc⟩))
        (.cons _ he)
  cases cancel_branch hs with
  | enters | unstarted | returns => exact .refl _
  | detaches | destroys => exact .cons _ trivial
  | settles t code hpc =>
    show Adds _ _ (settleTask _ t code).log
    rw [settleTask_log]
    exact hvisit _ hpc trivial
  | cleans t code hpc => exact hvisit _ hpc trivial

theorem step_entered (hs : step s a = some s') {e : Event} (he : e ∈ s'.log) :
    e ∈ s.log ∨ e.Entered s a := by
  have hadds : Adds (·.Entered s a) s.log s'.log := by
    cases a <;> simp only [step] at hs
    case submit => exact submit_entered hs
    case loop => exact loop_entered hs
    case cancel => exact cancel_entered hs
    case runReturn r =>
      obtain ⟨t, hl, rfl⟩ := runReturn_eq hs
      exact .cons _ ⟨rfl, hl⟩
    case submitCall => split at hs <;> cases hs; exact .cons _ trivial
    case stop =>
      cases stop_branch hs with
      | stops =>
        rw [State.signalWorker_eq]
        exact .refl _
      | _ => exact .refl _
    all_goals split at hs <;> cases hs; exact .refl _
  obtain ⟨es, hlog, hes⟩ := hadds
  rw [hlog] at he
  exact (List.mem_append.mp he).elim (.inr ∘ hes e) .inl

/-! ## Calls that fail -/

/-- The call is going to return `r`, or has done so, and its task has not come to the worker. -/
inductive Fails (s : State ρ κ χ) (c : TaskId) : Int → Prop
  | rejecting {r : Int} (hpc : s.submits c = .rejecting r) : Fails s c r
  | refused (hpc : s.submits c = .refused ∨ s.submits c = .refusedClean) :
      Fails s c DeviceResult.threadFailed
  | returned {r : Int} (hpc : s.submits c = .returned r) (hno : .append c ∉ s.log) : Fails s c r

theorem settleTask_moves (s : State ρ κ χ) (t : TaskId) (r : Int) (c : TaskId) :
    (settleTask s t r).submits c = s.submits c ∨ (settleTask s t r).submits c = .waiting := by
  obtain ⟨hother, hself⟩ := settleTask_submits s t r
  by_cases hc : c = t
  · subst hc
    unfold settleTask State.signalTask
    split
    · exact .inr (Function.update_self ..)
    · exact .inl rfl
  · exact .inl (hother c hc)

theorem step_elsewhere (hs : step s a = some s') (ha : ∀ o, a ≠ .submit c o) :
    s'.submits c = s.submits c ∨ s'.submits c = .waiting ∨ s'.submits c = .called := by
  cases a <;> simp only [step] at hs
  case submitCall d g =>
    split at hs <;> cases hs
    by_cases hc : c = d
    · exact .inr (.inr (by simp [State.setSubmit, hc]))
    · exact .inl (Function.update_of_ne hc ..)
  case submit d o =>
    have hc : c ≠ d := fun hc => ha o (by rw [hc])
    have hend : ∀ {u : State ρ κ χ} {pc : SubmitPc}, u.submits = s.submits →
        (u.setSubmit d pc).submits c = s.submits c := fun hu =>
      (Function.update_of_ne hc ..).trans (congrFun hu c)
    cases submit_branch hs with
    | appends =>
      refine .inl (hend ?_)
      rw [State.signalWorker_eq]
      exact linkTask_submits s d
    | _ => exact .inl (hend rfl)
  case submitWake d =>
    split at hs <;> cases hs
    by_cases hc : c = d
    · exact .inr (.inl (by simp [State.setSubmit, hc]))
    · exact .inl (Function.update_of_ne hc ..)
  case loop =>
    cases loop_branch hs with
    | settles t r => exact (settleTask_moves s t r c).imp_right .inl
    | _ => exact .inl rfl
  case cancel k =>
    cases cancel_branch hs with
    | settles t code => exact (settleTask_moves _ t code c).imp_right .inl
    | _ => exact .inl rfl
  case runReturn r =>
    obtain ⟨t, -, rfl⟩ := runReturn_eq hs
    exact .inl rfl
  case stop =>
    cases stop_branch hs with
    | stops =>
      rw [State.signalWorker_eq]
      exact .inl rfl
    | _ => exact .inl rfl
  all_goals split at hs <;> cases hs; exact .inl rfl

theorem Fails.congr (h : Fails s' c r) (hpc : s'.submits c = s.submits c)
    (hlog : .append c ∈ s.log → .append c ∈ s'.log) : Fails s c r := by
  cases h with
  | rejecting h => exact .rejecting (hpc ▸ h)
  | refused h => exact .refused (hpc ▸ h)
  | returned h hno => exact .returned (hpc ▸ h) (hno ∘ hlog)

theorem Fails.not_waiting (h : Fails s c r) : s.submits c ≠ .waiting ∧ s.submits c ≠ .called := by
  cases h with
  | rejecting h | returned h => rw [h]; exact ⟨nofun, nofun⟩
  | refused h => rcases h with h | h <;> rw [h] <;> exact ⟨nofun, nofun⟩

theorem Reachable.finished_appended (h : Reachable s) (hpc : s.submits c = .finishedClean r) :
    .append c ∈ s.log := by
  obtain ⟨A, ha, href⟩ := h.traced
  have hsub := href.submit c
  rw [hpc] at hsub
  obtain ⟨-, f, hf, hlife, -⟩ := hsub
  exact (mem_of_count (ha.count_append c)).mpr
    ((Life.linked_of_fate (f := f) (by rw [hlife]; rfl)).mpr hf)

theorem createTask_none {g : SubmitArgs ρ κ χ} {o : CreateOutcome} (hrun : g.run.isSome = true)
    (h : createTask g o = none) : o ≠ .ok := by
  rintro rfl
  obtain ⟨f, hf⟩ := Option.isSome_iff_exists.mp hrun
  simp [createTask, hf] at h

theorem Fails.step (h : Fails s' c r) (hreach : Reachable s) (hs : Worker.step s a = some s')
    (hstop : s.stop = .idle) (hrun : (s.args c).run.isSome = true) :
    Fails s c r ∨ r = DeviceResult.deviceFailed ∧ a.starves s c = true := by
  have hctl := hreach.control
  obtain ⟨es, hlog, -⟩ := step_adds hs
  have hmem : .append c ∈ s.log → .append c ∈ s'.log := fun hc => hlog ▸ List.mem_append_right _ hc
  by_cases ha : ∃ o, a = .submit c o
  · obtain ⟨o, rfl⟩ := ha
    -- the places where a failing call stands; most branches lead to none of them
    have hself : ∀ {u : State ρ κ χ} {pc : SubmitPc}, Fails (u.setSubmit c pc) c r →
        pc = .rejecting r ∨ ((pc = .refused ∨ pc = .refusedClean) ∧ r = DeviceResult.threadFailed) ∨
          pc = .returned r ∧ .append c ∉ u.log := by
      intro u pc hu
      have hpc : (u.setSubmit c pc).submits c = pc := Function.update_self ..
      cases hu with
      | rejecting h => exact .inl (hpc.symm.trans h)
      | refused hrefused => exact .inr (.inl ⟨by rwa [hpc] at hrefused, rfl⟩)
      | returned h hno => exact .inr (.inr ⟨hpc.symm.trans h, hno⟩)
    cases submit_branch hs with
    | enters | creates | finishes | sleeps | cleans =>
      rcases hself h with hpc | ⟨hpc | hpc, -⟩ | ⟨hpc, -⟩ <;> cases hpc
    | unstarted _ hstarted => cases hstop.symm.trans (hctl.started hstarted)
    | starves hpc' htask =>
      rcases hself h with hpc | ⟨hpc | hpc, -⟩ | ⟨hpc, -⟩ <;> cases hpc
      exact .inr ⟨rfl, by simpa [Action.starves, hpc'] using createTask_none hrun htask⟩
    | rejects r' hpc' =>
      rcases hself h with hpc | ⟨hpc | hpc, -⟩ | ⟨hpc, -⟩ <;> cases hpc
      exact .inl (.rejecting hpc')
    | refuses _ _ hrunning => cases hrunning.symm.trans (hctl.running.mpr (.inl hstop))
    | appends =>
      rcases hself h with hpc | ⟨hpc | hpc, -⟩ | ⟨-, hno⟩
      · split at hpc <;> cases hpc
      · split at hpc <;> cases hpc
      · split at hpc <;> cases hpc
      · rw [State.signalWorker_eq] at hno
        exact (hno List.mem_cons_self).elim
    | refusedCleans hpc' =>
      rcases hself h with hpc | ⟨-, rfl⟩ | ⟨hpc, -⟩
      · cases hpc
      · exact .inl (.refused (.inl hpc'))
      · cases hpc
    | refusedDestroys hpc' =>
      rcases hself h with hpc | ⟨hpc | hpc, -⟩ | ⟨hpc, -⟩ <;> cases hpc
      exact .inl (.refused (.inr hpc'))
    | destroys r' hpc' =>
      rcases hself h with hpc | ⟨hpc | hpc, -⟩ | ⟨-, hno⟩
      · cases hpc
      · cases hpc
      · cases hpc
      · exact (hno (List.mem_cons_of_mem _ (hreach.finished_appended hpc'))).elim
  -- a step of another thread can only begin the call or wake it
  · rcases step_elsewhere hs (not_exists.mp ha) with heq | hpc | hpc
    · exact .inl (h.congr heq hmem)
    · exact (h.not_waiting.1 hpc).elim
    · exact (h.not_waiting.2 hpc).elim

/-! ## Calls that return -/

inductive Source (s : State ρ κ χ) (c : TaskId) (r : Int) : Prop
  | failed (h : Fails s c r)
  | posted (hwait : (s.args c).wait = false) (hr : r = DeviceResult.ok)
  | ran (hwait : (s.args c).wait = true) (h : .runReturn c r ∈ s.log)
  | cancelled (hwait : (s.args c).wait = true) (k : CancelId) (h : .cancel k c r ∈ s.log)

theorem Reachable.source (h : Reachable s) (hr : s.submits c = .returned r) : Source s c r := by
  obtain ⟨A, ha, href⟩ := h.traced
  have hdelivered := href.delivered ha hr
  by_cases happend : .append c ∈ s.log
  · cases hwait : (s.args c).wait with
    | false => exact .posted hwait ((hdelivered.posted hwait).mpr happend)
    | true =>
      rcases hdelivered.settled hwait happend with hran | ⟨k, hcancel⟩
      · exact .ran hwait hran
      · exact .cancelled hwait k hcancel
  · exact .failed (.returned hr happend)

theorem Reachable.disposed_made (h : Reachable s)
    (hmem : .runReturn c r ∈ s.log ∨ ∃ k, .cancel k c r ∈ s.log) : s.submits c ≠ .idle := by
  obtain ⟨A, ha, href⟩ := h.traced
  intro hidle
  have hsub := href.submit c
  rw [hidle] at hsub
  rcases hmem with hran | ⟨k, hcancel⟩
  · have hfate := (mem_of_count (ha.count_runReturn c r)).mp hran
    rw [show A.life c = .unborn from hsub] at hfate
    cases hfate
  · have hfate := (mem_of_count (ha.count_cancel c k r)).mp hcancel
    rw [show A.life c = .unborn from hsub] at hfate
    cases hfate

theorem Reachable.visited_active (h : Reachable s) {k : CancelId} {code : Int}
    (hk : s.cancels k = .next (some c) code) (hwait : (s.args c).wait = true) :
    (s.submits c).active = true := by
  obtain ⟨A, -, href⟩ := h.traced
  obtain ⟨l, hchain, hl⟩ := href.rest k (some c) code (by rw [hk]; rfl)
  have hmem : c ∈ l := by
    cases l with
    | nil => cases hchain
    | cons d l =>
      obtain ⟨⟨⟩, -⟩ := hchain
      exact List.mem_cons_self
  have hlife : (A.life c).posted := by
    rw [(hl c).mp hmem]
    trivial
  rcases (SubmitOk.posted_iff hlife).mp (href.submit c) with ⟨-, hpc | hpc⟩ | ⟨hwait', -⟩
  · rw [hpc]; rfl
  · rw [hpc]; rfl
  · cases hwait'.symm.trans hwait

end RemoteDevice.Worker
