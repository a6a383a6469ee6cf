import RemoteDevice.Worker.Calls
import RemoteDevice.Worker.Fifo
import RemoteDevice.Worker.Ownership

/-! How a task gets into the hands of the worker thread: it waits in the queue until it is
dequeued, and a task that has left the queue does not come back. -/

namespace RemoteDevice.Worker
open Function (update)

variable {ρ κ χ : Type} {s s' : State ρ κ χ} {a : Action ρ κ χ}

/-! ## The queue -/

theorem Reachable.queue (h : Reachable s) : LinkedQueue s.next s.head s.tail (waitingIn s.log) := by
  obtain ⟨A, ha, href⟩ := h.traced
  exact ha.pending_eq ▸ href.queue

theorem Reachable.head_waiting (h : Reachable s) {c : TaskId} (hc : s.head = some c) :
    c ∈ waitingIn s.log := by
  have hhead := h.queue.head_eq
  rw [hc] at hhead
  exact List.mem_of_head? hhead.symm

theorem mem_waitingIn_append {es log : List Event} {c : TaskId} (h : c ∈ waitingIn (es ++ log)) :
    c ∈ waitingIn log ∨ .append c ∈ es := by
  induction es with
  | nil => exact .inl h
  | cons e es ih =>
    have hlater : c ∈ waitingIn (es ++ log) → c ∈ waitingIn log ∨ .append c ∈ e :: es := fun hc =>
      (ih hc).imp id (List.mem_cons_of_mem _)
    cases e with
    | append d =>
      rcases List.mem_append.mp h with hc | hc
      · exact hlater hc
      · exact .inr (by simp [List.mem_singleton.mp hc])
    | dequeue d => exact hlater (List.mem_of_mem_erase h)
    | detach k code => cases h
    | _ => exact hlater h

theorem Reachable.step_waiting (h : Reachable s) (hs : step s a = some s') {c : TaskId}
    (happend : .append c ∈ s.log) (hc : c ∈ waitingIn s'.log) : c ∈ waitingIn s.log := by
  obtain ⟨es, hlog, -⟩ := step_adds hs
  rw [hlog] at hc
  refine (mem_waitingIn_append hc).resolve_right fun hes => ?_
  obtain ⟨A, ha, -⟩ := Reachable.traced (.next a h hs)
  have hcount := ha.count_append c
  rw [hlog, List.count_append] at hcount
  have hnew := List.count_pos_iff.mpr hes
  have hold := List.count_pos_iff.mpr happend
  split at hcount <;> omega

theorem step_waiting_of_inactive (hs : step s a = some s')
    (hidle : ∀ c, ¬ (s.submits c).active = true) {c : TaskId} (hc : c ∈ waitingIn s'.log) :
    c ∈ waitingIn s.log := by
  obtain ⟨es, hlog, hes⟩ := step_adds hs
  rw [hlog] at hc
  refine (mem_waitingIn_append hc).resolve_right fun hmem => hidle c ?_
  rw [(hes _ hmem).append c rfl]
  rfl

/-! ## The worker thread -/

theorem step_loop (hs : step s a = some s') :
    (a = .loop ∧ deviceWorkerLoop s = some s') ∨ (∃ r t, a = .runReturn r ∧ s'.loop = .ran t r) ∨
      (a ≠ .loop ∧ (∀ r, a ≠ .runReturn r) ∧ (s'.loop = s.loop ∨ s'.loop = .top)) := by
  have hother : a ≠ .loop → (∀ r, a ≠ .runReturn r) → (s'.loop = s.loop ∨ s'.loop = .top) →
      (a = .loop ∧ deviceWorkerLoop s = some s') ∨ (∃ r t, a = .runReturn r ∧ s'.loop = .ran t r) ∨
        (a ≠ .loop ∧ (∀ r, a ≠ .runReturn r) ∧ (s'.loop = s.loop ∨ s'.loop = .top)) :=
    fun h1 h2 h3 => .inr (.inr ⟨h1, h2, h3⟩)
  cases a <;> simp only [step] at hs
  case loop => exact .inl ⟨rfl, hs⟩
  case runReturn r =>
    obtain ⟨t, -, rfl⟩ := runReturn_eq hs
    exact .inr (.inl ⟨r, t, rfl, rfl⟩)
  case submit c o => exact hother (by rintro ⟨⟩) (by rintro _ ⟨⟩) ((submit_frame hs).loop.imp_right And.right)
  case cancel k => exact hother (by rintro ⟨⟩) (by rintro _ ⟨⟩) (.inl (cancel_frame hs).2)
  case loopWake => split at hs <;> cases hs; exact hother (by rintro ⟨⟩) (by rintro _ ⟨⟩) (.inr rfl)
  case stop =>
    refine hother (by rintro ⟨⟩) (by rintro _ ⟨⟩) ?_
    cases stop_branch hs with
    | stops => exact (frame_signalWorker { s with running := false }).loop.imp_right And.right
    | enters | unstarted | joins | destroys | clears => exact .inl rfl
  all_goals split at hs <;> cases hs; exact hother (by rintro ⟨⟩) (by rintro _ ⟨⟩) (.inl rfl)

theorem loop_hands (hs : deviceWorkerLoop s = some s') :
    (∀ c, s'.loop = .taken c → s.loop = .top ∧ s.head = some c) ∧
    ∀ c, s'.loop = .running c → s.loop = .taken c := by
  cases loop_branch hs with
  | dequeues t hpc _ hhead => exact ⟨fun c hc => by cases hc; exact ⟨hpc, hhead⟩, nofun⟩
  | calls t hpc => exact ⟨nofun, fun c hc => by cases hc; exact hpc⟩
  | sleeps | exits | settles | cleans | destroys => exact ⟨nofun, nofun⟩

theorem step_taken (hs : step s a = some s') {c : TaskId} (hc : s'.loop = .taken c) :
    s.loop = .taken c ∨ (a = .loop ∧ s.loop = .top ∧ s.head = some c) := by
  rcases step_loop hs with ⟨rfl, hloop⟩ | ⟨r, t, -, he⟩ | ⟨-, -, he | he⟩
  · exact .inr ⟨rfl, (loop_hands hloop).1 c hc⟩
  · cases he.symm.trans hc
  · exact .inl (he ▸ hc)
  · cases he.symm.trans hc

theorem step_running (hs : step s a = some s') {c : TaskId} (hc : s'.loop = .running c) :
    (s.loop = .running c ∧ a ≠ .loop ∧ ∀ r, a ≠ .runReturn r) ∨
      (a = .loop ∧ s.loop = .taken c) := by
  rcases step_loop hs with ⟨rfl, hloop⟩ | ⟨r, t, -, he⟩ | ⟨hloop, hrun, he | he⟩
  · exact .inr ⟨rfl, (loop_hands hloop).2 c hc⟩
  · cases he.symm.trans hc
  · exact .inl ⟨he ▸ hc, hloop, hrun⟩
  · cases he.symm.trans hc

/-! ## Calls that have been made -/

theorem Reachable.idle_iff (h : Reachable s) {c : TaskId} :
    s.submits c = .idle ↔ .submit c ∉ s.log := by
  refine ⟨fun hc hmem => ?_, h.idle_of_not_submitted⟩
  obtain ⟨A, ha, href⟩ := h.traced
  have hsub := href.submit c
  rw [hc] at hsub
  exact (ha.submitted_iff c).mp hmem hsub

theorem Reachable.step_submitted (h : Reachable s) (hs : step s a = some s') {c : TaskId}
    (hc : s.submits c ≠ .idle) : s'.submits c ≠ .idle := by
  rw [ne_eq, h.idle_iff, not_not] at hc
  rw [ne_eq, Reachable.idle_iff (.next a h hs), not_not]
  obtain ⟨es, hlog, -⟩ := step_adds hs
  exact hlog ▸ List.mem_append_right _ hc

theorem Reachable.taken_task (h : Reachable s) {c : TaskId} (hl : s.loop = .taken c) :
    s.submits c ≠ .idle ∧ (s.heap c).run = (s.args c).run ∧
      (s.heap c).context = (s.args c).context := by
  obtain ⟨A, -, href⟩ := h.traced
  have hlife : A.life c = .taken := (href.loop c).taken.mp hl
  obtain ⟨hrun, -, hcontext, -⟩ := (href.task c).fields (by rw [hlife]; rfl)
  refine ⟨fun hc => ?_, hrun, hcontext⟩
  have hsub := href.submit c
  rw [hc] at hsub
  cases hlife.symm.trans hsub

/-! ## The locked section of a cancelling call -/

theorem cancel_cancels {k : CancelId} (hs : deviceWorkerCancelPending s k = some s') :
    ∃ pc, s'.cancels = update s.cancels k pc := by
  cases cancel_branch hs with
  | settles t code => exact ⟨_, congrArg (update · k _) (settleTask_cancels _ t code)⟩
  | _ => exact ⟨_, rfl⟩

theorem step_cancels (hs : step s a = some s') (hcall : ∀ k code, a ≠ .cancelCall k code)
    (hcancel : ∀ k, a ≠ .cancel k) : s'.cancels = s.cancels := by
  cases a <;> simp only [step] at hs
  case cancelCall k code => exact (hcall k code rfl).elim
  case cancel k => exact (hcancel k rfl).elim
  case submit c o => exact (submit_frame hs).cancels
  case loop => exact (loop_frame hs).2
  case runReturn r =>
    obtain ⟨t, -, rfl⟩ := runReturn_eq hs
    rfl
  case stop =>
    cases stop_branch hs with
    | stops => exact (frame_signalWorker { s with running := false }).cancels
    | enters | unstarted | joins | destroys | clears => rfl
  all_goals split at hs <;> cases hs; rfl

theorem step_detached (hs : step s a = some s') {k : CancelId} (hstarted : s.started = true)
    (hk : (s.cancels k).early = true) (hk' : (s'.cancels k).early = false) :
    waitingIn s'.log = [] := by
  by_cases hcancel : ∃ d, a = .cancel d
  · obtain ⟨d, rfl⟩ := hcancel
    obtain rfl : k = d := by
      by_contra hne
      obtain ⟨pc, hpc⟩ := cancel_cancels hs
      rw [hpc, Function.update_of_ne hne, hk] at hk'
      cases hk'
    have hself : ∀ {u : State ρ κ χ} {pc : CancelPc}, (u.setCancel k pc).cancels k = pc :=
      Function.update_self ..
    cases cancel_branch hs with
    | enters =>
      rw [hself] at hk'
      cases hk'
    | unstarted _ _ hstopped => cases hstarted.symm.trans hstopped
    | detaches => rfl
    | returns _ hpc | settles _ _ hpc | cleans _ _ hpc | destroys _ _ _ hpc =>
      rw [hpc] at hk
      cases hk
  by_cases hcall : ∃ d code, a = .cancelCall d code
  · obtain ⟨d, code, rfl⟩ := hcall
    simp only [step, Option.ite_none_right_eq_some] at hs
    cases hs.2
    have hd : ((update s.cancels d (.called code)) k).early = true := by
      rw [Function.update_apply]
      split
      · rfl
      · exact hk
    cases hd.symm.trans hk'
  · rw [step_cancels hs (fun d code e => hcall ⟨d, code, e⟩) (not_exists.mp hcancel), hk] at hk'
    cases hk'

end RemoteDevice.Worker
