import RemoteDevice.Worker.Writes

/-! The worker is a FIFO queue: what a cancelling call takes, which result a submitter gets,
and who holds the task a submitter is blocked on. -/

namespace RemoteDevice.Worker
open Function (update)

variable {ρ κ χ : Type} {s s' : State ρ κ χ} {A : Ledger} {log : List Event}

/-! ## What a cancelling call takes -/

theorem Admits.pending_spec (h : Admits log A) :
    A.pending.Nodup ∧ ∀ t, t ∈ A.pending ↔ A.life t = .queued := by
  induction h with
  | nil => simp [Ledger.empty]
  | @cons log A B e h hs ih =>
    obtain ⟨hnd, hmem⟩ := ih
    cases e with
    -- the three events that change the queue
    | detach k code =>
      cases hs
      refine ⟨List.nodup_nil, fun t => ?_⟩
      show t ∈ [] ↔ (if A.life t = .queued then Life.detached k code else A.life t) = .queued
      split <;> simp_all
    | append c =>
      simp only [Ledger.step] at hs
      split at hs <;> cases hs
      next hc =>
      have hcq : c ∉ A.pending := fun e => by rw [hmem, hc] at e; cases e
      refine ⟨List.nodup_append.mpr ⟨hnd, List.nodup_singleton c, by grind⟩, fun t => ?_⟩
      rw [List.mem_append, List.mem_singleton, hmem, Ledger.move_life]
      split <;> simp_all
    | dequeue c =>
      simp only [Ledger.step] at hs
      split at hs <;> try cases hs
      next t q hp hh =>
      split at hs <;> cases hs
      next ht =>
      obtain ⟨rfl, -⟩ := ht
      rw [hp, List.nodup_cons] at hnd
      refine ⟨hnd.2, fun u => ?_⟩
      rw [Ledger.move_life]
      split
      · next hu => subst u; simp [hnd.1]
      · next hu => rw [← hmem, hp, List.mem_cons, or_iff_right hu]
    | _ =>
      simp only [Ledger.step] at hs
      repeat' split at hs
      all_goals cases hs
      all_goals refine ⟨hnd, fun t => ?_⟩
      all_goals first
        | exact hmem t
        | (rw [Ledger.move_life]; split <;> simp_all [Ledger.move])

def Life.takenBy (k : CancelId) (code : Int) (l : Life) : Prop :=
  l = .detached k code ∨ l.fate = some (.cancelled k code)

theorem LifeStep.takenBy_iff {c : TaskId} {e : Event} {l l' : Life} {k : CancelId} {code : Int}
    (h : LifeStep c e l l') :
    l'.takenBy k code ↔ l.takenBy k code ∨ (e = .detach k code ∧ l = .queued) := by
  cases h <;> simp [Life.takenBy, Life.fate]

theorem Admits.taken_at (h : Admits log A) {c : TaskId} {k : CancelId} {code : Int}
    (hc : (A.life c).takenBy k code) :
    ∃ new old, log = new ++ .detach k code :: old ∧ c ∈ waitingIn old := by
  induction h with
  | nil => rcases hc with hc | hc <;> cases hc
  | @cons log A B e h hs ih =>
    have hstep : (A.life c).takenBy k code ∨ (e = .detach k code ∧ A.life c = .queued) := by
      rcases Ledger.step_life hs c with hl | ⟨hl, -⟩
      · exact hl.takenBy_iff.mp hc
      · exact .inl (hl ▸ hc)
    rcases hstep with hold | ⟨rfl, hq⟩
    · obtain ⟨new, old, rfl, hw⟩ := ih hold
      exact ⟨e :: new, old, rfl, hw⟩
    · exact ⟨[], log, rfl, h.pending_eq ▸ (h.pending_spec.2 c).mpr hq⟩

theorem Admits.takes {new old : List Event} {k : CancelId} {code : Int}
    (h : Admits (new ++ .detach k code :: old) A) {c : TaskId} (hc : c ∈ waitingIn old) :
    (A.life c).takenBy k code := by
  obtain ⟨C, hC, hsince⟩ := h.split
  apply hsince c (Life.takenBy k code) (fun _ _ _ _ hl e => hl.takenBy_iff.mpr (.inl e))
  cases hC with
  | @cons _ B _ _ hB hs =>
    cases hs
    refine .inl (if_pos ?_)
    exact (hB.pending_spec.2 c).mp (hB.pending_eq ▸ hc)

theorem eq_of_countP_le_one {α : Type*} {p : α → Bool} {a b a' b' : List α} {x y : α}
    (h : a ++ x :: b = a' ++ y :: b') (hcount : (a ++ x :: b).countP p ≤ 1) (hx : p x = true)
    (hy : p y = true) : x = y ∧ b = b' := by
  have key : ∀ {c : List α} {u v : α} {d e : List α}, p u = true → p v = true →
      (c ++ u :: (d ++ v :: e)).countP p ≤ 1 → False := fun {c u v d e} hu hv hle => by
    simp only [List.countP_append, List.countP_cons, hu, hv, if_true] at hle
    omega
  rcases List.append_eq_append_iff.mp h with ⟨m, rfl, hm⟩ | ⟨m, rfl, hm⟩
  · cases m with
    | nil => simpa using hm
    | cons z m =>
      obtain ⟨rfl, rfl⟩ := List.cons.inj hm
      exact (key hx hy hcount).elim
  · cases m with
    | nil => simpa using hm.symm
    | cons z m =>
      obtain ⟨rfl, rfl⟩ := List.cons.inj hm
      rw [List.append_assoc] at hcount
      exact (key hy hx hcount).elim

def State.holds (s : State ρ κ χ) (k : CancelId) (code : Int) (c : TaskId) : Prop :=
  ∃ cur l, (s.cancels k).rest = some (cur, code) ∧ Chain s.next cur l ∧ c ∈ l

theorem Refines.holds_iff (h : Refines s A) {k : CancelId} {code : Int} {c : TaskId} :
    s.holds k code c ↔ A.life c = .detached k code := by
  constructor
  · rintro ⟨cur, l, hr, hch, hc⟩
    obtain ⟨l', hch', hmem⟩ := h.rest k cur code hr
    exact (hmem c).mp (hch.unique hch' ▸ hc)
  · intro hl
    obtain ⟨cur, hr⟩ := (h.cancel k c).detached code hl
    obtain ⟨l, hch, hmem⟩ := h.rest k cur code hr
    exact ⟨cur, l, hr, hch, (hmem c).mpr hl⟩

/-- The call `k`, whose locked section came after the history `old`, removes the tasks that
waited there: each is cancelled by `k` or still on the list of `k`, and is never run. -/
structure RemovesWaiting (s : State ρ κ χ) (k : CancelId) (code : Int) (old : List Event) : Prop where
  removed_iff : ∀ c, c ∈ waitingIn old ↔ .cancel k c code ∈ s.log ∨ s.holds k code c
  code_eq : ∀ c code', .cancel k c code' ∈ s.log → code' = code
  not_run : ∀ c ∈ waitingIn old, .runCall c ∉ s.log

theorem Refines.removesWaiting (h : Refines s A) (ha : Admits s.log A) (hd : DetachesOnce s)
    {k : CancelId} {code : Int} {new old : List Event}
    (hlog : s.log = new ++ .detach k code :: old) : RemovesWaiting s k code old := by
  have htaken : ∀ c code', (A.life c).takenBy k code' → code' = code ∧ c ∈ waitingIn old := by
    intro c code' hc
    obtain ⟨new', old', hlog', hw⟩ := ha.taken_at hc
    obtain ⟨he, rfl⟩ := eq_of_countP_le_one (p := Event.isDetach k) (hlog ▸ hlog')
      (hlog ▸ (hd k).1) (by simp [Event.isDetach]) (by simp [Event.isDetach])
    cases he
    exact ⟨rfl, hw⟩
  have hmem : ∀ c code', .cancel k c code' ∈ s.log ↔ (A.life c).fate = some (.cancelled k code') :=
    fun c code' => mem_of_count (ha.count_cancel c k code')
  have htakes : ∀ c ∈ waitingIn old, (A.life c).takenBy k code := fun c hc => (hlog ▸ ha).takes hc
  refine ⟨fun c => ⟨fun hc => ?_, fun hc => ?_⟩, fun c code' hc => ?_, fun c hc hrun => ?_⟩
  · rcases htakes c hc with hl | hl
    · exact .inr (h.holds_iff.mpr hl)
    · exact .inl ((hmem c code).mpr hl)
  · refine (htaken c code ?_).2
    exact hc.elim (fun hc => .inr ((hmem c code).mp hc)) fun hc => .inl (h.holds_iff.mp hc)
  · exact (htaken c code' (.inr ((hmem c code').mp hc))).1
  · have hran := (mem_of_count (ha.count_runCall c)).mp hrun
    rcases htakes c hc with hl | hl
    · rw [hl] at hran; cases hran
    · obtain ⟨r, hr⟩ := Life.ran_of_fate hl hran
      cases hr

/-! ## Results and waiters -/

structure Delivered (s : State ρ κ χ) (c : TaskId) (r : Int) : Prop where
  ran : (s.args c).wait = true → ∀ r', .runReturn c r' ∈ s.log → r = r'
  cancelled : (s.args c).wait = true → ∀ k code, .cancel k c code ∈ s.log → r = code
  settled : (s.args c).wait = true → .append c ∈ s.log →
    .runReturn c r ∈ s.log ∨ ∃ k, .cancel k c r ∈ s.log
  posted : (s.args c).wait = false → (r = DeviceResult.ok ↔ .append c ∈ s.log)
  refused : .append c ∉ s.log → r = DeviceResult.threadFailed ∨ r = DeviceResult.deviceFailed

theorem Life.linked_of_fate {l : Life} {f : Fate} (hf : l.fate = some f) :
    l.linked = true ↔ f.disposed := by
  simp [Life.linked, hf, Fate.disposed]

theorem Life.posted.linked {l : Life} (h : l.posted) : l.linked = true := by
  cases l <;> simp_all [Life.posted, Life.linked, Life.fate, Fate.disposed]

theorem Refines.delivered (h : Refines s A) (ha : Admits s.log A) {c : TaskId} {r : Int}
    (hr : s.submits c = .returned r) : Delivered s c r := by
  have happend := mem_of_count (ha.count_append c)
  have hran := fun r' => mem_of_count (ha.count_runReturn c r')
  have hcancel := fun k code => mem_of_count (ha.count_cancel c k code)
  have hsub : SubmitOk _ _ _ (.returned r) := hr ▸ h.submit c
  have hfail : ∀ r : Int, r = DeviceResult.threadFailed ∨ r = DeviceResult.deviceFailed →
      r ≠ DeviceResult.ok := by rintro r (rfl | rfl) <;> decide
  rcases hsub with ⟨hl, hr⟩ | ⟨hl, rfl⟩ | ⟨hw, f, hf, hl, rfl⟩ | ⟨hw, rfl, hl⟩
  · have hno : .append c ∉ s.log := by rw [happend, hl]; nofun
    refine ⟨fun _ r' e => ?_, fun _ k code e => ?_, fun _ e => (hno e).elim,
      fun _ => iff_of_false (hfail r hr) hno, fun _ => hr⟩
    · rw [hran, hl] at e; cases e
    · rw [hcancel, hl] at e; cases e
  · have hno : .append c ∉ s.log := by rw [happend, hl]; nofun
    refine ⟨fun _ r' e => ?_, fun _ k code e => ?_, fun _ e => (hno e).elim,
      fun _ => iff_of_false (by decide) hno, fun _ => .inl rfl⟩
    · rw [hran, hl] at e; cases e
    · rw [hcancel, hl] at e; cases e
  · have hfate : (A.life c).fate = some f := by rw [hl]; rfl
    refine ⟨fun _ r' e => ?_, fun _ k code e => ?_, fun _ _ => ?_, fun hw' => by simp [hw] at hw',
      fun hno => (hno (happend.mpr ((Life.linked_of_fate hfate).mpr hf))).elim⟩
    · rw [hran, hfate] at e; cases e; rfl
    · rw [hcancel, hfate] at e; cases e; rfl
    · cases f with
      | ran r => exact .inl ((hran r).mpr hfate)
      | cancelled k code => exact .inr ⟨k, (hcancel k code).mpr hfate⟩
      | refused => exact (hf rfl).elim
  · have hlinked : (A.life c).linked = true := by
      rcases hl with hp | ⟨f, hf, hl⟩
      · exact hp.linked
      · exact (Life.linked_of_fate (f := f) (by rcases hl with hl | hl <;> rw [hl] <;> rfl)).mpr hf
    refine ⟨fun hw' => by simp [hw] at hw', fun hw' => by simp [hw] at hw', fun hw' => by simp [hw] at hw',
      fun _ => iff_of_true rfl (happend.mpr hlinked), fun hno => (hno (happend.mpr hlinked)).elim⟩

def State.blocked (s : State ρ κ χ) (c : TaskId) : Prop :=
  s.submits c = .waiting ∨ s.submits c = .asleep

inductive Attended (s : State ρ κ χ) (c : TaskId) : Prop
  | queued : c ∈ waitingIn s.log → Attended s c
  | worker : s.loop.task = some c → Attended s c
  | canceller (k : CancelId) (code : Int) : s.holds k code c → Attended s c
  | done : (s.heap c).done = true → Attended s c

theorem Refines.attended (h : Refines s A) (ha : Admits s.log A) {c : TaskId}
    (hc : s.blocked c) : Attended s c := by
  have hsub := h.submit c
  have hp : (A.life c).posted ∨ (s.heap c).done = true := by
    rcases hc with hc | hc <;> rw [hc] at hsub
    · exact hsub.2.imp_right fun ⟨_, _, _, hd, _⟩ => hd
    · exact .inl hsub.2
  rcases hp with hp | hd
  · rcases hp.holder (s.args c).wait with hl | hl | ⟨k, hl⟩
    · exact .queued (ha.pending_eq ▸ (h.pending_iff c).mpr hl)
    · exact .worker ((h.loop c).task_iff.mpr hl)
    · have hended := (h.cancel k c).ended
      generalize hA : A.life c = l at *
      match l, hl with
      | .detached k' code, hk =>
        exact .canceller k' code (h.holds_iff.mpr hA)
      | .ended (.cancelled k' code), hk => exact (hended code (by rw [show k' = k from hk])).elim
  · exact .done hd

theorem Refines.asleep_undone (h : Refines s A) {c : TaskId} (hc : s.submits c = .asleep) :
    (s.heap c).done = false :=
  (h.task c).undone (.inr (hc ▸ h.submit c : SubmitOk _ _ _ .asleep).2)

/-- The worker runs its tasks in the order in which they were appended; its list is what the
history left in the queue; a cancelling call removes exactly that list; results reach their
submitters; and no waiter is stranded. -/
theorem fifo_delivery (h : Reachable s) :
    (runOrder s.log).Sublist (appendOrder s.log) ∧
    LinkedQueue s.next s.head s.tail (waitingIn s.log) ∧
    (∀ k code new old, s.log = new ++ .detach k code :: old → RemovesWaiting s k code old) ∧
    (∀ c r, s.submits c = .returned r → Delivered s c r) ∧
    (∀ c, s.blocked c → Attended s c) ∧
    (∀ c, s.submits c = .asleep → (s.heap c).done = false) ∧
    (s.stop = .returned → ∀ c, s.blocked c →
      (s.heap c).done = true ∨ ∃ k code, s.holds k code c) := by
  obtain ⟨A, ha, href⟩ := Reachable.traced h
  refine ⟨?_, ha.pending_eq ▸ href.queue, fun _ _ _ _ => href.removesWaiting ha (Reachable.history h).2,
    fun _ _ => href.delivered ha, fun _ => href.attended ha, fun _ => href.asleep_undone,
    fun hstop c hc => ?_⟩
  · refine List.Sublist.trans ?_ ha.order
    rw [List.append_assoc]
    exact List.sublist_append_left ..
  · have hexit := (Reachable.control h).joined (.inr (.inr hstop))
    cases href.attended ha hc with
    | queued hq => rw [← ha.pending_eq, (href.exited hexit).2] at hq; cases hq
    | worker ht => rw [hexit] at ht; cases ht
    | canceller k code hk => exact .inr ⟨k, code, hk⟩
    | done hd => exact .inl hd

def cancelRun : List (Action Unit Unit Unit) :=
  [.submitCall 0 ⟨some (), none, none, false⟩, .submit 0 .ok, .submit 0 .ok, .submit 0 .ok, .loop,
    .loop, .submitCall 1 ⟨some (), none, none, true⟩, .submit 1 .ok, .submit 1 .ok, .submit 1 .ok,
    .submit 1 .ok, .cancelCall 0 (-3), .cancel 0, .cancel 0, .cancel 0, .cancel 0, .submit 1 .ok,
    .submit 1 .ok, .submit 1 .ok]

theorem fifo_delivery_cancelRun :
    ∃ s : State Unit Unit Unit, Runs.run step (deviceWorkerStart Unit Unit Unit) cancelRun = some s ∧
      runOrder s.log = [0] ∧ appendOrder s.log = [0, 1] ∧ Delivered s 1 (-3) ∧
      ∃ old, waitingIn old = [1] ∧ RemovesWaiting s 0 (-3) old := by
  obtain ⟨s, hs⟩ : ∃ s, Runs.run step (deviceWorkerStart Unit Unit Unit) cancelRun = some s := ⟨_, rfl⟩
  have hlog : some (s.log, s.submits 1) = some ([.destroy 1, .cleanup 1 false, .touch 1, .settle 1,
      .cancel 0 1 (-3)] ++ .detach 0 (-3) :: [.touch 1, .append 1, .create 1, .submit 1, .runCall 0,
      .dequeue 0, .append 0, .create 0, .submit 0], .returned (-3)) :=
    (congrArg (Option.map fun s : State Unit Unit Unit => (s.log, s.submits 1)) hs).symm.trans rfl
  simp only [Option.some.injEq, Prod.mk.injEq] at hlog
  obtain ⟨-, -, htakes, hdeliver, -⟩ := fifo_delivery (Runs.Reachable.run (.start rfl) hs)
  exact ⟨s, hs, by rw [hlog.1]; rfl, by rw [hlog.1]; rfl, hdeliver 1 _ hlog.2, _, by decide,
    htakes 0 (-3) _ _ hlog.1⟩

end RemoteDevice.Worker
