import RemoteDevice.Lib.LinkedQueue
import RemoteDevice.Worker.History

/-! The worker's linked list, program counters and task memory refine the ledger. -/

namespace RemoteDevice.Worker
open Function (update)

variable {ρ κ χ : Type}

def State.next (s : State ρ κ χ) (t : TaskId) : Option TaskId := (s.heap t).next

def LoopPc.hand : LoopPc → Option TaskId
  | .taken t => some t
  | _ => none

def CancelPc.rest : CancelPc → Option (Option TaskId × Int)
  | .next cur code | .cleaned _ cur code => some (cur, code)
  | _ => none

def Fate.disposed (f : Fate) : Prop := f ≠ .refused

theorem Fate.ran_disposed (r : Int) : (Fate.ran r).disposed := nofun

theorem Fate.cancelled_disposed (k : CancelId) (code : Int) : (Fate.cancelled k code).disposed := nofun

def Life.posted : Life → Prop
  | .queued | .taken | .running | .detached _ _ => True
  | .ended f => f.disposed
  | _ => False

def SubmitOk (a : SubmitArgs ρ κ χ) (task : DeviceTask ρ κ χ) (l : Life) : SubmitPc → Prop
  | .idle => l = .unborn
  | .called | .creating => l = .offered
  | .rejecting r =>
    l = .offered ∧ (r = DeviceResult.threadFailed ∨ r = DeviceResult.deviceFailed)
  | .created => l = .created
  | .refused => l = .ended .refused
  | .refusedClean => l = .cleaned .refused
  | .waiting => a.wait = true ∧
    (l.posted ∨ ∃ f : Fate, f.disposed ∧ l = .settled f ∧ task.done = true ∧ task.result = f.result)
  | .asleep => a.wait = true ∧ l.posted
  | .finished r => a.wait = true ∧ ∃ f : Fate, f.disposed ∧ l = .settled f ∧ r = f.result
  | .finishedClean r => a.wait = true ∧ ∃ f : Fate, f.disposed ∧ l = .cleaned f ∧ r = f.result
  | .returned r =>
    (l = .rejected ∧ (r = DeviceResult.threadFailed ∨ r = DeviceResult.deviceFailed)) ∨
    (l = .gone .refused ∧ r = DeviceResult.threadFailed) ∨
    (a.wait = true ∧ ∃ f : Fate, f.disposed ∧ l = .gone f ∧ r = f.result) ∨
    (a.wait = false ∧ r = DeviceResult.ok ∧
      (l.posted ∨ ∃ f : Fate, f.disposed ∧ (l = .cleaned f ∨ l = .gone f)))

structure TaskOk (a : SubmitArgs ρ κ χ) (task : DeviceTask ρ κ χ) (l : Life) : Prop where
  fields : l.allocated → task.run = a.run ∧ task.cleanup = a.cleanup ∧
    task.context = a.context ∧ task.wait = a.wait
  unlinked : l = .created → task.next = none
  undone : l = .created ∨ l.posted → task.done = false

structure LoopOk (pc : LoopPc) (wait : Bool) (t : TaskId) (l : Life) : Prop where
  taken : pc = .taken t ↔ l = .taken
  running : pc = .running t ↔ l = .running
  ran : ∀ r, pc = .ran t r ↔ l = .ended (.ran r)
  cleaned : pc = .cleaned t ↔ wait = false ∧ ∃ r, l = .cleaned (.ran r)

structure CancelOk (pc : CancelPc) (k : CancelId) (wait : Bool) (t : TaskId) (l : Life) : Prop where
  cleaned : ∀ code, (∃ n, pc = .cleaned t n code) ↔ wait = false ∧ l = .cleaned (.cancelled k code)
  ended : ∀ code, l ≠ .ended (.cancelled k code)
  detached : ∀ code, l = .detached k code → ∃ cur, pc.rest = some (cur, code)

structure Refines (s : State ρ κ χ) (A : Ledger) : Prop where
  queue : LinkedQueue s.next s.head s.tail A.pending
  pending_iff : ∀ t, t ∈ A.pending ↔ A.life t = .queued
  hand : A.hand = s.loop.hand
  asleep : s.loop = .asleep → s.running = true ∧ A.pending = []
  exited : s.loop = .exited → s.running = false ∧ A.pending = []
  submit : ∀ c, SubmitOk (s.args c) (s.heap c) (A.life c) (s.submits c)
  task : ∀ c, TaskOk (s.args c) (s.heap c) (A.life c)
  loop : ∀ t, LoopOk s.loop (s.args t).wait t (A.life t)
  cancel : ∀ k t, CancelOk (s.cancels k) k (s.args t).wait t (A.life t)
  rest : ∀ k cur code, (s.cancels k).rest = some (cur, code) →
    ∃ l, Chain s.next cur l ∧ ∀ t, t ∈ l ↔ A.life t = .detached k code

theorem refines_start : Refines (deviceWorkerStart ρ κ χ) Ledger.empty where
  queue := .empty
  pending_iff := by simp [Ledger.empty]
  hand := rfl
  asleep := nofun
  exited := nofun
  submit := fun _ => rfl
  task := fun _ => ⟨nofun, nofun, fun h => (h.resolve_left nofun).elim⟩
  loop := fun _ => by constructor <;> simp [deviceWorkerStart, Ledger.empty]
  cancel := fun _ _ => by constructor <;> simp [deviceWorkerStart, Ledger.empty]
  rest := nofun

/-! ## Frames: what a step on one task leaves alone -/

def LoopPc.task : LoopPc → Option TaskId
  | .taken t | .running t | .ran t _ | .cleaned t => some t
  | _ => none

theorem LoopOk.of_ne {pc pc' : LoopPc} {wait : Bool} {u : TaskId} {l : Life}
    (h : LoopOk pc wait u l) (hu : pc.task ≠ some u) (hu' : pc'.task ≠ some u) :
    LoopOk pc' wait u l := by
  obtain ⟨h1, h2, h3, h4⟩ := h
  constructor
  · rw [← h1]; constructor <;> rintro rfl <;> simp_all [LoopPc.task]
  · rw [← h2]; constructor <;> rintro rfl <;> simp_all [LoopPc.task]
  · intro r
    rw [← h3]; constructor <;> rintro rfl <;> simp_all [LoopPc.task]
  · rw [← h4]; constructor <;> rintro rfl <;> simp_all [LoopPc.task]

theorem SubmitOk.posted_iff {a : SubmitArgs ρ κ χ} {task : DeviceTask ρ κ χ} {l : Life}
    {pc : SubmitPc} (hl : l.posted) : SubmitOk a task l pc ↔
      (a.wait = true ∧ (pc = .waiting ∨ pc = .asleep)) ∨
      (a.wait = false ∧ pc = .returned DeviceResult.ok) := by
  cases l <;> cases pc <;> simp_all [SubmitOk, Life.posted, Fate.disposed]

theorem SubmitOk.of_posted {a : SubmitArgs ρ κ χ} {task task' : DeviceTask ρ κ χ} {l l' : Life}
    {pc : SubmitPc} (h : SubmitOk a task l pc) (hl : l.posted) (hl' : l'.posted) :
    SubmitOk a task' l' pc := (posted_iff hl').mpr ((posted_iff hl).mp h)

theorem Life.posted.allocated {l : Life} (h : l.posted) : l.allocated := by
  cases l <;> simp_all [Life.posted, Life.allocated]

theorem TaskOk.of_posted {a : SubmitArgs ρ κ χ} {task : DeviceTask ρ κ χ} {l l' : Life}
    (h : TaskOk a task l) (hl : l.posted) (hl' : l'.posted) (n : Option TaskId) :
    TaskOk a { task with next := n } l' :=
  ⟨fun _ => h.fields hl.allocated, fun e => (e ▸ hl' : Life.posted .created).elim,
    fun _ => h.undone (.inr hl)⟩

theorem SubmitOk.relink {a : SubmitArgs ρ κ χ} {task : DeviceTask ρ κ χ} {l : Life} {pc : SubmitPc}
    (h : SubmitOk a task l pc) (n : Option TaskId) : SubmitOk a { task with next := n } l pc := by
  cases pc <;> exact h

theorem TaskOk.relink {a : SubmitArgs ρ κ χ} {task : DeviceTask ρ κ χ} {l : Life}
    (h : TaskOk a task l) (hl : l ≠ .created) (n : Option TaskId) :
    TaskOk a { task with next := n } l := ⟨h.fields, fun e => (hl e).elim, h.undone⟩

theorem SubmitOk.cleaned {a : SubmitArgs ρ κ χ} {task task' : DeviceTask ρ κ χ} {l : Life}
    {f : Fate} {pc : SubmitPc} (h : SubmitOk a task l pc) (hl : l.posted) (hw : a.wait = false)
    (hf : f.disposed) : SubmitOk a task' (.cleaned f) pc := by
  obtain ⟨hw', -⟩ | ⟨-, rfl⟩ := (posted_iff hl).mp h
  · simp [hw] at hw'
  · exact .inr (.inr (.inr ⟨hw, rfl, .inr ⟨f, hf, .inl rfl⟩⟩))

theorem SubmitOk.gone {a : SubmitArgs ρ κ χ} {task task' : DeviceTask ρ κ χ} {f : Fate}
    {pc : SubmitPc} (h : SubmitOk a task (.cleaned f) pc) (hw : a.wait = false) (hf : f.disposed) :
    SubmitOk a task' (.gone f) pc := by
  cases pc <;> simp_all [SubmitOk, Life.posted, Fate.disposed]

def Life.atSubmitter (wait : Bool) : Life → Prop
  | .queued | .taken | .running | .detached _ _ => False
  | .ended f => f = .refused
  | .cleaned f => f = .refused ∨ wait = true
  | _ => True

def Life.atWorker (wait : Bool) : Life → Prop
  | .taken | .running | .ended (.ran _) => True
  | .cleaned (.ran _) => wait = false
  | _ => False

theorem LoopOk.task_iff {pc : LoopPc} {wait : Bool} {t : TaskId} {l : Life}
    (h : LoopOk pc wait t l) : pc.task = some t ↔ l.atWorker wait := by
  obtain ⟨h1, h2, h3, h4⟩ := h
  constructor
  · intro hp
    cases pc <;> simp only [LoopPc.task, reduceCtorEq, Option.some.injEq] at hp <;> subst hp
    · rw [h1.mp rfl]; trivial
    · rw [h2.mp rfl]; trivial
    · rw [(h3 _).mp rfl]; trivial
    · obtain ⟨hw, r, hr⟩ := h4.mp rfl
      rw [hr]; exact hw
  · intro hl
    match l, hl with
    | .taken, _ => rw [h1.mpr rfl]; rfl
    | .running, _ => rw [h2.mpr rfl]; rfl
    | .ended (.ran r), _ => rw [(h3 r).mpr rfl]; rfl
    | .cleaned (.ran r), hw => rw [h4.mpr ⟨hw, r, rfl⟩]; rfl

theorem LoopOk.of_not_atWorker {pc : LoopPc} {wait : Bool} {t : TaskId} {l : Life}
    (hl : ¬ l.atWorker wait) (hp : pc.task ≠ some t) : LoopOk pc wait t l := by
  constructor
  · exact ⟨by rintro rfl; exact (hp rfl).elim, by rintro rfl; exact (hl trivial).elim⟩
  · exact ⟨by rintro rfl; exact (hp rfl).elim, by rintro rfl; exact (hl trivial).elim⟩
  · exact fun r => ⟨by rintro rfl; exact (hp rfl).elim, by rintro rfl; exact (hl trivial).elim⟩
  · exact ⟨by rintro rfl; exact (hp rfl).elim, by rintro ⟨hw, r, rfl⟩; exact (hl hw).elim⟩

theorem LoopOk.of_elsewhere {pc : LoopPc} {wait : Bool} {t : TaskId} {l l' : Life}
    (h : LoopOk pc wait t l) (hl : ¬ l.atWorker wait) (hl' : ¬ l'.atWorker wait) :
    LoopOk pc wait t l' := .of_not_atWorker hl' fun e => hl (h.task_iff.mp e)

theorem LoopOk.wake {pc : LoopPc} {wait : Bool} {t : TaskId} {l : Life} (h : LoopOk pc wait t l) :
    LoopOk (if pc = .asleep then .top else pc) wait t l := by
  split
  · next e => exact h.of_ne (by rw [e]; nofun) nofun
  · exact h

theorem Life.atSubmitter.not_atWorker {l : Life} {wait : Bool} (hl : l.atSubmitter wait) :
    ¬ l.atWorker wait := by
  match l, hl with
  | .ended f, hl => rw [show f = .refused from hl]; exact id
  | .cleaned (.ran r), hl => simpa [Life.atWorker] using hl.resolve_left nofun
  | .cleaned .refused, _ | .cleaned (.cancelled _ _), _ => exact id
  | .unborn, _ | .offered, _ | .rejected, _ | .created, _ | .settled _, _ | .gone _, _ => exact id

def Life.atCanceller (k : CancelId) (wait : Bool) : Life → Prop
  | .detached k' _ | .ended (.cancelled k' _) => k' = k
  | .cleaned (.cancelled k' _) => k' = k ∧ wait = false
  | _ => False

theorem Life.atCanceller.canceller_unique {l : Life} {k k' : CancelId} {wait : Bool}
    (h : l.atCanceller k wait) (h' : l.atCanceller k' wait) : k = k' := by
  match l, h, h' with
  | .detached _ _, h, h' | .ended (.cancelled _ _), h, h' => exact h.symm.trans h'
  | .cleaned (.cancelled _ _), h, h' => exact h.1.symm.trans h'.1

theorem CancelOk.not_cleaned {pc : CancelPc} {k : CancelId} {wait : Bool} {t : TaskId} {l : Life}
    (h : CancelOk pc k wait t l) (hl : ¬ l.atCanceller k wait) (n : Option TaskId) (code : Int) :
    pc ≠ .cleaned t n code := fun hp => by
  obtain ⟨hw, hc⟩ := (h.cleaned code).mp ⟨n, hp⟩
  exact hl (by rw [hc]; exact ⟨rfl, hw⟩)

theorem CancelOk.not_atCanceller {pc : CancelPc} {k : CancelId} {wait : Bool} {t : TaskId}
    {l : Life} (h : CancelOk pc k wait t l) (hpc : pc.rest = none) : ¬ l.atCanceller k wait := by
  intro hl
  match l, hl with
  | .detached _ code, rfl =>
    obtain ⟨cur, hcur⟩ := h.detached code rfl
    rw [hpc] at hcur
    cases hcur
  | .ended (.cancelled _ code), rfl => exact h.ended code rfl
  | .cleaned (.cancelled _ code), ⟨rfl, hw⟩ =>
    obtain ⟨n, rfl⟩ := (h.cleaned code).mpr ⟨hw, rfl⟩
    cases hpc

theorem CancelOk.of_not_atCanceller {pc : CancelPc} {k : CancelId} {wait : Bool} {t : TaskId}
    {l : Life} (hl : ¬ l.atCanceller k wait) (hp : ∀ n code, pc ≠ .cleaned t n code) :
    CancelOk pc k wait t l :=
  ⟨fun code => ⟨fun ⟨n, hn⟩ => (hp n code hn).elim, fun ⟨hw, hc⟩ => (hl (hc ▸ ⟨rfl, hw⟩)).elim⟩,
    fun _ hc => (hl (hc ▸ (rfl : k = k))).elim, fun _ hc => (hl (hc ▸ (rfl : k = k))).elim⟩

theorem CancelOk.of_elsewhere {pc : CancelPc} {k : CancelId} {wait : Bool} {t : TaskId}
    {l l' : Life} (h : CancelOk pc k wait t l) (hl : ¬ l.atCanceller k wait)
    (hl' : ¬ l'.atCanceller k wait) : CancelOk pc k wait t l' :=
  .of_not_atCanceller hl' (h.not_cleaned hl)

theorem Life.atSubmitter.not_atCanceller {l : Life} {wait : Bool} (hl : l.atSubmitter wait)
    (k : CancelId) : ¬ l.atCanceller k wait := by
  match l, hl with
  | .ended f, hl => rw [show f = .refused from hl]; exact id
  | .cleaned (.cancelled _ _), hl =>
    have hw : wait = true := hl.resolve_left nofun
    rintro ⟨-, hw'⟩
    simp [hw] at hw'
  | .cleaned .refused, _ | .cleaned (.ran _), _ => exact id
  | .unborn, _ | .offered, _ | .rejected, _ | .created, _ | .settled _, _ | .gone _, _ => exact id

theorem Life.atWorker.not_atCanceller {l : Life} {wait : Bool} (hl : l.atWorker wait)
    (k : CancelId) : ¬ l.atCanceller k wait := by
  match l, hl with
  | .taken, _ | .running, _ | .ended (.ran _), _ | .cleaned (.ran _), _ => exact id

theorem Life.posted.holder {l : Life} (hl : l.posted) (wait : Bool) :
    l = .queued ∨ l.atWorker wait ∨ ∃ k, l.atCanceller k wait := by
  match l, hl with
  | .queued, _ => exact .inl rfl
  | .taken, _ | .running, _ | .ended (.ran _), _ => exact .inr (.inl trivial)
  | .detached k _, _ | .ended (.cancelled k _), _ => exact .inr (.inr ⟨k, rfl⟩)
  | .ended .refused, hl => exact (hl rfl).elim

structure SameOutside (s s' : State ρ κ χ) (c : TaskId) : Prop where
  head : s'.head = s.head
  tail : s'.tail = s.tail
  running : s'.running = s.running
  heap : ∀ t, t ≠ c → s'.heap t = s.heap t
  args : ∀ t, t ≠ c → s'.args t = s.args t
  submits : ∀ t, t ≠ c → s'.submits t = s.submits t

theorem SameOutside.trans {s₁ s₂ s₃ : State ρ κ χ} {c : TaskId} (h : SameOutside s₁ s₂ c)
    (h' : SameOutside s₂ s₃ c) : SameOutside s₁ s₃ c where
  head := h'.head.trans h.head
  tail := h'.tail.trans h.tail
  running := h'.running.trans h.running
  heap := fun t ht => (h'.heap t ht).trans (h.heap t ht)
  args := fun t ht => (h'.args t ht).trans (h.args t ht)
  submits := fun t ht => (h'.submits t ht).trans (h.submits t ht)

theorem Refines.single {s s' : State ρ κ χ} {A : Ledger} {c : TaskId} {l : Life}
    (h : Refines s A) (hs : SameOutside s s' c) (hl : A.life c ≠ .queued) (hl' : l ≠ .queued)
    (hasleep : s'.loop = .asleep → s.loop = .asleep)
    (hexited : s'.loop = .exited → s.loop = .exited)
    (hsub : SubmitOk (s'.args c) (s'.heap c) l (s'.submits c))
    (htask : TaskOk (s'.args c) (s'.heap c) l)
    (hloop : LoopOk s'.loop (s'.args c).wait c l)
    (hloop' : ∀ t, t ≠ c → LoopOk s'.loop (s.args t).wait t (A.life t))
    (hcancel : ∀ k, CancelOk (s'.cancels k) k (s'.args c).wait c l)
    (hcancel' : ∀ k t, t ≠ c → CancelOk (s'.cancels k) k (s.args t).wait t (A.life t))
    (hrest : ∀ k cur code, (s'.cancels k).rest = some (cur, code) →
      ∃ q, Chain s.next cur q ∧ c ∉ q ∧ ∀ t, t ∈ q ↔ (A.move c l).life t = .detached k code) :
    Refines s' { A.move c l with hand := s'.loop.hand } := by
  have hnext : ∀ t, t ≠ c → s'.next t = s.next t := fun t ht => congrArg _ (hs.heap t ht)
  have hq : c ∉ A.pending := fun hc => hl ((h.pending_iff c).mp hc)
  -- every field speaks of `c`, where it is a hypothesis, or of a task the step leaves alone
  constructor <;> simp only [Ledger.move_life]
  · rw [hs.head, hs.tail]
    exact h.queue.congr fun t ht => hnext t fun e => hq (e ▸ ht)
  · intro t
    split
    · next ht => exact ⟨fun hc => (hq (ht ▸ hc)).elim, fun e => (hl' e).elim⟩
    · exact h.pending_iff t
  · exact fun e => hs.running ▸ h.asleep (hasleep e)
  · exact fun e => hs.running ▸ h.exited (hexited e)
  · intro t
    split
    · next ht => exact ht ▸ hsub
    · next ht => rw [hs.heap t ht, hs.args t ht, hs.submits t ht]; exact h.submit t
  · intro t
    split
    · next ht => exact ht ▸ htask
    · next ht => rw [hs.heap t ht, hs.args t ht]; exact h.task t
  · intro t
    split
    · next ht => exact ht ▸ hloop
    · next ht => rw [hs.args t ht]; exact hloop' t ht
  · intro k t
    split
    · next ht => exact ht ▸ hcancel k
    · next ht => rw [hs.args t ht]; exact hcancel' k t ht
  · intro k cur code hk
    obtain ⟨q, hch, hcq, hmem⟩ := hrest k cur code hk
    refine ⟨q, hch.congr fun t ht => hnext t fun e => hcq (e ▸ ht), fun t => ?_⟩
    rw [hmem t, Ledger.move_life]

theorem Refines.rest_move {s : State ρ κ χ} {A : Ledger} {c : TaskId} {l : Life}
    (h : Refines s A) {k : CancelId} (hl : ∀ code, A.life c ≠ .detached k code)
    (hl' : ∀ code, l ≠ .detached k code) {cur : Option TaskId} {code : Int}
    (hk : (s.cancels k).rest = some (cur, code)) :
    ∃ q, Chain s.next cur q ∧ c ∉ q ∧ ∀ t, t ∈ q ↔ (A.move c l).life t = .detached k code := by
  obtain ⟨q, hch, hmem⟩ := h.rest k cur code hk
  have hcq : c ∉ q := fun hc => hl code ((hmem c).mp hc)
  refine ⟨q, hch, hcq, fun t => ?_⟩
  rw [Ledger.move_life]
  split
  · next ht => exact ⟨fun hc => (hcq (ht ▸ hc)).elim, fun e => (hl' code e).elim⟩
  · exact hmem t

theorem Refines.submit_step {s s' : State ρ κ χ} {A : Ledger} {c : TaskId} {l : Life}
    (h : Refines s A) (hs : SameOutside s s' c) (hloop : s'.loop = s.loop)
    (hcancels : s'.cancels = s.cancels)
    (hl : (A.life c).atSubmitter (s.args c).wait) (hl' : l.atSubmitter (s'.args c).wait)
    (hsub : SubmitOk (s'.args c) (s'.heap c) l (s'.submits c))
    (htask : TaskOk (s'.args c) (s'.heap c) l) : Refines s' (A.move c l) := by
  have hlc : s.loop.task ≠ some c := fun e => hl.not_atWorker ((h.loop c).task_iff.mp e)
  have hcc := fun k => (h.cancel k c).not_cleaned (hl.not_atCanceller k)
  have hnot : ∀ {l : Life} {w : Bool}, l.atSubmitter w → l ≠ .queued ∧ ∀ k code, l ≠ .detached k code :=
    fun hl => ⟨by rintro rfl; exact hl, by rintro k code rfl; exact hl⟩
  have key := h.single (l := l) hs (hnot hl).1 (hnot hl').1 (hloop ▸ id) (hloop ▸ id) hsub htask
    (hloop ▸ .of_not_atWorker hl'.not_atWorker hlc) (fun t _ => hloop ▸ h.loop t)
    (fun k => hcancels ▸ .of_not_atCanceller (hl'.not_atCanceller k) (hcc k))
    (fun k t _ => hcancels ▸ h.cancel k t)
    (fun k cur code hk => h.rest_move ((hnot hl).2 k) ((hnot hl').2 k) (hcancels ▸ hk))
  rwa [hloop, ← h.hand] at key

theorem Refines.worker_step {s s' : State ρ κ χ} {A : Ledger} {c : TaskId} {l : Life}
    (h : Refines s A) (hs : SameOutside s s' c) (hargs : s'.args = s.args)
    (hcancels : s'.cancels = s.cancels)
    (hpc : s.loop.task = some c) (hpc' : s'.loop.task = some c ∨ s'.loop = .top) (hl' : l ≠ .queued)
    (hloop : LoopOk s'.loop (s.args c).wait c l)
    (hcancel : ∀ k, ¬ l.atCanceller k (s.args c).wait)
    (hsub : SubmitOk (s.args c) (s'.heap c) l (s'.submits c))
    (htask : TaskOk (s.args c) (s'.heap c) l) :
    Refines s' { A.move c l with hand := s'.loop.hand } := by
  have hlife : (A.life c).atWorker (s.args c).wait := (h.loop c).task_iff.mp hpc
  have hq : A.life c ≠ .queued := fun e => by rw [e] at hlife; exact hlife
  have hd : ∀ k code, A.life c ≠ .detached k code := fun k code e => by rw [e] at hlife; exact hlife
  have hbusy : s'.loop ≠ .asleep ∧ s'.loop ≠ .exited := by
    rcases hpc' with hp | hp <;> constructor <;> intro e <;> simp [e, LoopPc.task] at hp
  refine h.single hs hq hl' (fun e => (hbusy.1 e).elim) (fun e => (hbusy.2 e).elim)
    (hargs ▸ hsub) (hargs ▸ htask) (hargs ▸ hloop) (fun t ht => ?_)
    (fun k => hargs ▸ hcancels ▸ .of_not_atCanceller (hcancel k)
      ((h.cancel k c).not_cleaned (hlife.not_atCanceller k))) (fun k t _ => hcancels ▸ h.cancel k t)
    (fun k cur code hk => h.rest_move (hd k) (fun _ e => hcancel k (by rw [e]; exact rfl))
      (hcancels ▸ hk))
  refine (h.loop t).of_ne ?_ ?_
  · rw [hpc]; exact fun e => ht (Option.some.inj e).symm
  · rcases hpc' with hp | hp
    · rw [hp]; exact fun e => ht (Option.some.inj e).symm
    · rw [hp]; nofun

theorem Refines.cancel_holds {s : State ρ κ χ} {A : Ledger} {k : CancelId} {c : TaskId}
    {cur : Option TaskId} {code : Int} (h : Refines s A)
    (hpc : s.cancels k = .next (some c) code ∧ cur = s.next c ∨ s.cancels k = .cleaned c cur code) :
    (A.life c = .detached k code ∨
      (s.args c).wait = false ∧ A.life c = .cleaned (.cancelled k code)) ∧
    ∃ q, Chain s.next cur q ∧ c ∉ q ∧ ∀ t, t ≠ c → (t ∈ q ↔ A.life t = .detached k code) := by
  rcases hpc with ⟨hk, rfl⟩ | hk
  · obtain ⟨q, hch, hmem⟩ := h.rest k (some c) code (by rw [hk]; rfl)
    cases q with
    | nil => exact absurd hch (by simp [Chain])
    | cons a q =>
      obtain rfl : c = a := Option.some.inj hch.1
      refine ⟨.inl ((hmem c).mp (List.mem_cons_self ..)), q, hch.2,
        (List.nodup_cons.mp hch.nodup).1, fun t ht => ?_⟩
      rw [← hmem t, List.mem_cons, or_iff_right ht]
  · obtain ⟨q, hch, hmem⟩ := h.rest k cur code (by rw [hk]; rfl)
    have hc := ((h.cancel k c).cleaned code).mp ⟨cur, hk⟩
    exact ⟨.inr hc, q, hch, fun hcq => by simpa [hc.2] using (hmem c).mp hcq, fun t _ => hmem t⟩

theorem Refines.cancel_step {s s' : State ρ κ χ} {A : Ledger} {k : CancelId} {c : TaskId} {l : Life}
    {p : CancelPc} {cur : Option TaskId} {code : Int} (h : Refines s A) (hs : SameOutside s s' c)
    (hargs : s'.args = s.args) (hloop : s'.loop = s.loop) (hcancels : s'.cancels = update s.cancels k p)
    (hold : s.cancels k = .next (some c) code ∧ cur = s.next c ∨ s.cancels k = .cleaned c cur code)
    (hnew : p = .next cur code ∨ p = .cleaned c cur code)
    (hl : ¬ l.atWorker (s.args c).wait) (hq : l ≠ .queued) (hd : ∀ k code, l ≠ .detached k code)
    (hcancel : ∀ k', CancelOk (update s.cancels k p k') k' (s.args c).wait c l)
    (hsub : SubmitOk (s.args c) (s'.heap c) l (s'.submits c))
    (htask : TaskOk (s.args c) (s'.heap c) l) : Refines s' (A.move c l) := by
  obtain ⟨hlife, q, hch, hcq, hmem⟩ := h.cancel_holds hold
  have hlc : s.loop.task ≠ some c := fun e => by
    have := (h.loop c).task_iff.mp e
    rcases hlife with ho | ⟨-, ho⟩ <;> rw [ho] at this <;> exact this
  have hdk : ∀ k' code', A.life c = .detached k' code' → k' = k := fun k' code' e => by
    rcases hlife with ho | ⟨-, ho⟩ <;> rw [ho] at e <;> simp_all
  have hrest : p.rest = some (cur, code) := by rcases hnew with rfl | rfl <;> rfl
  -- `c` alone moves; the rest of the detached list stays with the call
  have key := h.single (l := l) hs (by rcases hlife with ho | ⟨-, ho⟩ <;> simp [ho]) hq
    (hloop ▸ id) (hloop ▸ id) (hargs ▸ hsub) (hargs ▸ htask)
    (hloop ▸ .of_not_atWorker (hargs ▸ hl) hlc) (fun t _ => hloop ▸ h.loop t)
    (fun k' => hargs ▸ hcancels ▸ hcancel k') (fun k' t ht => ?_) (fun k' cur' code' hk => ?_)
  · rwa [hloop, ← h.hand] at key
  · rw [hcancels]
    by_cases hk : k' = k
    · subst k'
      rw [Function.update_self]
      obtain ⟨h1, h2, h3⟩ := h.cancel k t
      refine ⟨fun code' => ⟨?_, fun hw => ?_⟩, h2, fun code' e => ?_⟩
      · rintro ⟨n, rfl⟩
        rcases hnew with e | e <;> cases e
        exact (ht rfl).elim
      · obtain ⟨n, e⟩ := (h1 code').mpr hw
        rcases hold with ⟨ho, -⟩ | ho <;> rw [ho] at e <;> cases e
        exact (ht rfl).elim
      · obtain ⟨cur', e'⟩ := h3 code' e
        refine ⟨cur, ?_⟩
        rcases hold with ⟨ho, -⟩ | ho <;> rw [ho] at e' <;> cases e' <;> exact hrest
    · rw [Function.update_of_ne hk]; exact h.cancel k' t
  · rw [hcancels] at hk
    by_cases hkk : k' = k
    · subst k'
      rw [Function.update_self, hrest] at hk
      cases hk
      refine ⟨q, hch, hcq, fun t => ?_⟩
      rw [Ledger.move_life]
      split
      · next ht => exact ⟨fun hc => (hcq (ht ▸ hc)).elim, fun e => (hd _ _ e).elim⟩
      · next ht => exact hmem t ht
    · rw [Function.update_of_ne hkk] at hk
      exact h.rest_move (fun code e => hkk (hdk _ _ e)) (hd k') hk

/-! ## The three steps on the queue -/

theorem linkTask_next (s : State ρ κ χ) (c : TaskId) : (linkTask s c).next =
    match s.tail with
    | none => s.next
    | some l => update s.next l (some c) := by
  unfold linkTask
  cases s.tail with
  | none => rfl
  | some l =>
    funext t
    by_cases ht : t = l
    · subst t; simp [State.next, State.setTask, State.emit]
    · simp [State.next, State.setTask, State.emit, ht]

theorem linkTask_heap (s : State ρ κ χ) (c t : TaskId) :
    ∃ n, (linkTask s c).heap t = { s.heap t with next := n } ∧ (s.tail ≠ some t → n = s.next t) := by
  unfold linkTask
  cases s.tail with
  | none => exact ⟨_, rfl, fun _ => rfl⟩
  | some l =>
    by_cases ht : t = l
    · subst t; exact ⟨some c, by simp [State.setTask, State.emit], fun e => (e rfl).elim⟩
    · exact ⟨(s.heap t).next, by simp [State.setTask, State.emit, ht], fun _ => rfl⟩

theorem linkTask_queue {s : State ρ κ χ} {q : List TaskId} {c : TaskId}
    (h : LinkedQueue s.next s.head s.tail q) (hc : s.next c = none) (hm : c ∉ q) :
    LinkedQueue (linkTask s c).next (linkTask s c).head (linkTask s c).tail (q ++ [c]) := by
  rw [linkTask_next]
  unfold linkTask
  cases ht : s.tail with
  | none =>
    obtain rfl := h.tail_none.mp ht
    exact .push_empty hc
  | some l => exact (ht ▸ h).push hc hm

theorem Refines.tail_queued {s : State ρ κ χ} {A : Ledger} {t : TaskId} (h : Refines s A)
    (ht : s.tail = some t) : A.life t = .queued :=
  (h.pending_iff t).mp (LinkedQueue.tail_mem (ht ▸ h.queue))

theorem Refines.linkTask_next_eq {s : State ρ κ χ} {A : Ledger} (h : Refines s A) (c : TaskId)
    {t : TaskId} (ht : A.life t ≠ .queued) : (linkTask s c).next t = s.next t := by
  obtain ⟨n, hn, hnt⟩ := linkTask_heap s c t
  rw [State.next, hn, hnt fun e => ht (h.tail_queued e)]

theorem Refines.linkTask_submit {s : State ρ κ χ} {A : Ledger} (h : Refines s A) (c t : TaskId) :
    SubmitOk (s.args t) ((linkTask s c).heap t) (A.life t) (s.submits t) := by
  obtain ⟨n, hn, -⟩ := linkTask_heap s c t
  exact hn ▸ (h.submit t).relink n

theorem Refines.linkTask_task {s : State ρ κ χ} {A : Ledger} (h : Refines s A) (c t : TaskId) :
    TaskOk (s.args t) ((linkTask s c).heap t) (A.life t) := by
  obtain ⟨n, hn, hnt⟩ := linkTask_heap s c t
  rw [hn]
  by_cases hl : A.life t = .created
  · have htail : s.tail ≠ some t := fun e => by simp [h.tail_queued e] at hl
    rw [hnt htail]
    exact h.task t
  · exact (h.task t).relink hl n

theorem Refines.append {s s' : State ρ κ χ} {A : Ledger} {c : TaskId} (h : Refines s A)
    (hc : A.life c = .created) (hrun : s.running = true)
    (hs : s' = ((((linkTask s c).emit (.append c)).signalWorker).setSubmit c
      (if (s.args c).wait then .waiting else .returned DeviceResult.ok))) :
    Refines s' { A.move c .queued with pending := A.pending ++ [c] } := by
  have hcq : c ∉ A.pending := fun hm => by simp [(h.pending_iff c).mp hm] at hc
  rw [State.signalWorker_eq] at hs
  have hheap : s'.heap = (linkTask s c).heap := hs ▸ rfl
  have hargs : s'.args = s.args := hs ▸ linkTask_args s c
  have hcancels : s'.cancels = s.cancels := hs ▸ linkTask_cancels s c
  have hloop : s'.loop = if s.loop = .asleep then .top else s.loop := by
    rw [← linkTask_loop s c, hs]; rfl
  have hsubmits : s'.submits = update s.submits c
      (if (s.args c).wait then .waiting else .returned DeviceResult.ok) := by
    rw [← linkTask_submits s c, hs]; rfl
  constructor <;> simp only [Ledger.move_life]
  · -- the queue
    rw [show s'.next = (linkTask s c).next from hs ▸ rfl,
      show s'.head = (linkTask s c).head from hs ▸ rfl,
      show s'.tail = (linkTask s c).tail from hs ▸ rfl]
    exact linkTask_queue h.queue ((h.task c).unlinked hc) hcq
  · intro t
    rw [List.mem_append, List.mem_singleton, h.pending_iff]
    split <;> simp_all
  · -- the worker thread is woken at most
    show A.hand = _
    rw [h.hand, hloop]
    split
    · next e => rw [e]; rfl
    · rfl
  · intro e; rw [hloop] at e; split at e <;> simp_all
  · intro e
    rw [hloop] at e
    split at e
    · cases e
    · exact absurd (h.exited e).1 (by simp [hrun])
  · -- the submitting call waits for the task or returns
    intro t
    rw [hargs, hsubmits]
    split
    · next ht =>
      subst t
      rw [Function.update_self]
      split <;> simp_all [SubmitOk, Life.posted]
    · next ht => rw [Function.update_of_ne ht, hheap]; exact h.linkTask_submit c t
  · intro t
    rw [hargs, hheap]
    have htask := h.linkTask_task c t
    split
    · next ht =>
      subst t
      rw [hc] at htask
      exact ⟨fun _ => htask.fields rfl, nofun, fun _ => htask.undone (.inl rfl)⟩
    · exact htask
  · intro t
    rw [hargs, hloop]
    apply LoopOk.wake
    split
    · next ht => subst t; exact (h.loop c).of_elsewhere (by rw [hc]; exact id) id
    · exact h.loop t
  · intro k t
    rw [hargs, hcancels]
    split
    · next ht => subst t; exact (h.cancel k c).of_elsewhere (by rw [hc]; exact id) id
    · exact h.cancel k t
  · -- a cancelling call only walks over tasks that have left the queue
    intro k cur code hk
    rw [hcancels] at hk
    obtain ⟨q, hch, hcq, hmem⟩ := h.rest_move (l := .queued) (by rw [hc]; nofun) nofun hk
    simp only [Ledger.move_life] at hmem
    refine ⟨q, hch.congr fun t ht => ?_, hmem⟩
    have htc : t ≠ c := fun e => hcq (e ▸ ht)
    have hdet := (hmem t).mp ht
    rw [if_neg htc] at hdet
    rw [show s'.next = (linkTask s c).next from hs ▸ rfl]
    exact h.linkTask_next_eq c (by rw [hdet]; nofun)

theorem Refines.dequeue {s : State ρ κ χ} {A : Ledger} {t : TaskId} {q : List TaskId}
    (h : Refines s A) (hq : A.pending = t :: q) (htop : s.loop = .top) :
    Refines (({ s with head := s.next t, tail := if s.next t = none then none else s.tail }.emit
        (.dequeue t)).setLoop (.taken t))
      { A.move t .taken with pending := q, hand := some t } := by
  have hlife : A.life t = .queued := (h.pending_iff t).mp (hq ▸ List.mem_cons_self ..)
  have htq : t ∉ q := (List.nodup_cons.mp (hq ▸ h.queue.chain.nodup)).1
  constructor <;> simp only [Ledger.move_life]
  · exact (hq ▸ h.queue).pop
  · intro u
    split
    · next hu => subst u; simp [htq]
    · next hu => rw [← h.pending_iff, hq, List.mem_cons, or_iff_right hu]
  · rfl
  · nofun
  · nofun
  · intro u
    show SubmitOk (s.args u) (s.heap u) _ (s.submits u)
    split
    · next hu => subst u; exact (h.submit t).of_posted (by rw [hlife]; trivial) trivial
    · exact h.submit u
  · intro u
    show TaskOk (s.args u) (s.heap u) _
    split
    · next hu =>
      subst u
      exact (h.task t).of_posted (by rw [hlife]; trivial) (show Life.posted .taken from trivial) _
    · exact h.task u
  · intro u
    show LoopOk (.taken t) (s.args u).wait u _
    split
    · next hu => subst u; constructor <;> simp
    · next hu => exact (h.loop u).of_ne (by rw [htop]; nofun) (fun e => hu (Option.some.inj e).symm)
  · intro k u
    show CancelOk (s.cancels k) k (s.args u).wait u _
    split
    · next hu => subst u; exact (h.cancel k t).of_elsewhere (by rw [hlife]; exact id) id
    · exact h.cancel k u
  · intro k cur code hk
    obtain ⟨l, hch, -, hmem⟩ := h.rest_move (l := .taken) (by rw [hlife]; nofun) nofun hk
    simp only [Ledger.move_life] at hmem
    exact ⟨l, hch, hmem⟩

theorem Refines.detach {s : State ρ κ χ} {A : Ledger} {k : CancelId} {code : Int}
    (h : Refines s A) (hk : s.cancels k = .locking code) :
    Refines (({ s with head := none, tail := none }.emit (.detach k code)).setCancel k
        (.next s.head code))
      { A with
        pending := []
        life := fun t => if A.life t = .queued then .detached k code else A.life t } := by
  have hnone : ∀ t code', A.life t ≠ .detached k code' := fun t code' e => by
    obtain ⟨cur, hr⟩ := (h.cancel k t).detached code' e
    rw [hk] at hr; cases hr
  constructor <;> dsimp only [State.setCancel, State.emit]
  · exact .empty
  · intro t
    split <;> simp_all
  · exact h.hand
  · exact fun e => ⟨(h.asleep e).1, rfl⟩
  · exact fun e => ⟨(h.exited e).1, rfl⟩
  · intro t
    split
    · next e => exact (h.submit t).of_posted (by rw [e]; trivial) trivial
    · exact h.submit t
  · intro t
    split
    · next e =>
      have hp : Life.posted (.detached k code) := trivial
      exact (h.task t).of_posted (by rw [e]; trivial) hp _
    · exact h.task t
  · intro t
    split
    · next e => exact (h.loop t).of_elsewhere (by rw [e]; exact id) id
    · exact h.loop t
  · -- the call itself now holds the queue, any other call what it held before
    intro k' t
    by_cases hkk : k' = k
    · subst k'
      rw [Function.update_self]
      obtain ⟨h1, h2, -⟩ := h.cancel k t
      rw [hk] at h1
      split
      · constructor <;> simp [CancelPc.rest]
      · exact ⟨by simpa using h1, h2, fun code' e => (hnone t code' e).elim⟩
    · rw [Function.update_of_ne hkk]
      split
      · next e => exact (h.cancel k' t).of_elsewhere (by rw [e]; exact id) (Ne.symm hkk)
      · exact h.cancel k' t
  · intro k' cur code' hr
    by_cases hkk : k' = k
    · subst k'
      rw [Function.update_self] at hr
      cases hr
      refine ⟨A.pending, h.queue.chain, fun t => ?_⟩
      rw [h.pending_iff]
      split <;> simp_all
    · rw [Function.update_of_ne hkk] at hr
      obtain ⟨l, hch, hmem⟩ := h.rest k' cur code' hr
      refine ⟨l, hch, fun t => ?_⟩
      rw [hmem t]
      split <;> simp_all [Ne.symm hkk]

end RemoteDevice.Worker
