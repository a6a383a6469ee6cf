import Mathlib.Data.List.Count
import RemoteDevice.Worker.Model

/-! The purpose of a worker, stated on histories: a FIFO queue each of whose tasks is disposed
of once. `Ledger` follows what became of every task; an event that the ledger does not allow
has no successor. -/

namespace RemoteDevice.Worker
open Function (update)

inductive Fate
  | ran (r : Int)
  | cancelled (k : CancelId) (code : Int)
  | refused
  deriving DecidableEq

def Fate.result : Fate → Int
  | ran r => r
  | cancelled _ code => code
  | refused => DeviceResult.threadFailed

inductive Life
  | unborn
  | offered
  | rejected
  | created
  | queued
  | taken
  | running
  | detached (k : CancelId) (code : Int)
  | ended (f : Fate)
  | settled (f : Fate)
  | cleaned (f : Fate)
  | gone (f : Fate)
  deriving DecidableEq

structure Ledger where
  /-- Appended and neither dequeued nor detached, oldest first. -/
  pending : List TaskId
  /-- Dequeued, `run` not called yet. -/
  hand : Option TaskId
  life : TaskId → Life

namespace Ledger

def empty : Ledger := ⟨[], none, fun _ => .unborn⟩

def move (A : Ledger) (c : TaskId) (l : Life) : Ledger := { A with life := update A.life c l }

def step (A : Ledger) : Event → Option Ledger
  | .submit c => match A.life c with
    | .unborn => some (A.move c .offered)
    | _ => none
  | .create c => match A.life c with
    | .offered => some (A.move c .created)
    | _ => none
  | .refuse c => match A.life c with
    | .created => some (A.move c (.ended .refused))
    | _ => none
  | .append c => match A.life c with
    | .created => some { A.move c .queued with pending := A.pending ++ [c] }
    | _ => none
  | .dequeue c => match A.pending, A.hand with
    | t :: q, none =>
      if t = c ∧ A.life c = .queued then some { A.move c .taken with pending := q, hand := some c }
      else none
    | _, _ => none
  | .runCall c => match A.life c with
    | .taken => some { A.move c .running with hand := none }
    | _ => none
  | .runReturn c r => match A.life c with
    | .running => some (A.move c (.ended (.ran r)))
    | _ => none
  -- `device_worker_cancel_pending` takes the whole queue in one section
  | .detach k code =>
    some { A with
      pending := []
      life := fun t => if A.life t = .queued then .detached k code else A.life t }
  | .cancel k c code =>
    if A.life c = .detached k code then some (A.move c (.ended (.cancelled k code))) else none
  | .settle c => match A.life c with
    | .ended f => some (A.move c (.settled f))
    | _ => none
  | .cleanup c _ => match A.life c with
    | .offered => some (A.move c .rejected)
    | .ended f | .settled f => some (A.move c (.cleaned f))
    | _ => none
  | .destroy c => match A.life c with
    | .cleaned f => some (A.move c (.gone f))
    | _ => none
  | .touch c => match A.life c with
    | .unborn | .offered | .rejected | .gone _ => none
    | _ => some A

end Ledger

@[simp] theorem Ledger.move_life (A : Ledger) (c t : TaskId) (l : Life) :
    (A.move c l).life t = if t = c then l else A.life t := Function.update_apply ..

inductive Admits : List Event → Ledger → Prop
  | nil : Admits [] Ledger.empty
  | cons {log : List Event} {A B : Ledger} (e : Event) :
      Admits log A → A.step e = some B → Admits (e :: log) B

def Event.touches : Event → TaskId → Bool
  | .detach _ _, _ => false
  | .submit c, t | .create c, t | .refuse c, t | .append c, t | .dequeue c, t | .runCall c, t
  | .runReturn c _, t | .cancel _ c _, t | .settle c, t | .cleanup c _, t | .destroy c, t
  | .touch c, t => c = t

/-! ## What one event does to one task -/

inductive LifeStep (c : TaskId) : Event → Life → Life → Prop
  | submit : LifeStep c (.submit c) .unborn .offered
  | create : LifeStep c (.create c) .offered .created
  | refuse : LifeStep c (.refuse c) .created (.ended .refused)
  | append : LifeStep c (.append c) .created .queued
  | dequeue : LifeStep c (.dequeue c) .queued .taken
  | runCall : LifeStep c (.runCall c) .taken .running
  | runReturn (r : Int) : LifeStep c (.runReturn c r) .running (.ended (.ran r))
  | detach (k : CancelId) (code : Int) : LifeStep c (.detach k code) .queued (.detached k code)
  | cancel (k : CancelId) (code : Int) :
      LifeStep c (.cancel k c code) (.detached k code) (.ended (.cancelled k code))
  | settle (f : Fate) : LifeStep c (.settle c) (.ended f) (.settled f)
  | reject (b : Bool) : LifeStep c (.cleanup c b) .offered .rejected
  | cleanup (f : Fate) (b : Bool) : LifeStep c (.cleanup c b) (.ended f) (.cleaned f)
  | collect (f : Fate) (b : Bool) : LifeStep c (.cleanup c b) (.settled f) (.cleaned f)
  | destroy (f : Fate) : LifeStep c (.destroy c) (.cleaned f) (.gone f)

def Event.moves : Event → TaskId → Bool
  | .detach _ _, _ | .touch _, _ => false
  | .submit c, t | .create c, t | .refuse c, t | .append c, t | .dequeue c, t | .runCall c, t
  | .runReturn c _, t | .cancel _ c _, t | .settle c, t | .cleanup c _, t | .destroy c, t => c = t

theorem Ledger.step_life {A B : Ledger} {e : Event} (h : A.step e = some B) (c : TaskId) :
    LifeStep c e (A.life c) (B.life c) ∨ (B.life c = A.life c ∧ e.moves c = false) := by
  cases e with
  | detach k code =>
    cases h
    by_cases hq : A.life c = .queued
    · left; simpa [hq] using .detach k code
    · right; simp [hq, Event.moves]
  | touch t =>
    right
    simp only [step] at h
    split at h <;> cases h
    exact ⟨rfl, rfl⟩
  | cancel k t code =>
    simp only [step] at h
    split at h <;> cases h
    next hd =>
    by_cases hc : t = c
    · subst hc; left; simpa [move, hd] using .cancel k code
    · right; simp [move, Function.update_of_ne (Ne.symm hc), Event.moves, hc]
  | _ t =>
    simp only [step] at h
    repeat' split at h
    all_goals cases h
    all_goals by_cases hc : t = c
    all_goals first
      | (left; subst hc; simp_all [move]; constructor)
      | (right; simp [move, Function.update_of_ne (Ne.symm hc), Event.moves, hc])

theorem Admits.countP_eq {log : List Event} {A : Ledger} (h : Admits log A) {c : TaskId}
    (p : Event → Bool) (n : Life → Nat) (h0 : n .unborn = 0) (hp : ∀ e, e.moves c = false → p e = false)
    (hstep : ∀ e l l', LifeStep c e l l' → n l' = n l + if p e then 1 else 0) :
    log.countP p = n (A.life c) := by
  induction h with
  | nil => exact h0.symm
  | cons e _ hs ih =>
    rw [List.countP_cons, ih]
    rcases Ledger.step_life hs c with hl | ⟨hl, hm⟩
    · exact (hstep e _ _ hl).symm
    · rw [hl, hp e hm]; rfl

/-! ## Reading a history off the ledger -/

def Life.fate : Life → Option Fate
  | .ended f | .settled f | .cleaned f | .gone f => some f
  | _ => none

def Life.ran (l : Life) : Bool :=
  match l.fate with
  | some (.ran _) => true
  | _ => l = .running

def Life.cleanedUp : Life → Bool
  | .rejected | .cleaned _ | .gone _ => true
  | _ => false

def Life.destroyed : Life → Bool
  | .gone _ => true
  | _ => false

def Life.allocated : Life → Bool
  | .unborn | .offered | .rejected => false
  | _ => true

def Life.linked (l : Life) : Bool :=
  match l.fate with
  | some f => f ≠ .refused
  | none => match l with
    | .queued | .taken | .running | .detached _ _ => true
    | _ => false

theorem Life.ran_of_fate {l : Life} {f : Fate} (hf : l.fate = some f) (hl : l.ran = true) :
    ∃ r, f = .ran r := by
  cases f with
  | ran r => exact ⟨r, rfl⟩
  | _ => cases l <;> simp_all [Life.ran, Life.fate]

def Event.isCleanup (c : TaskId) : Event → Bool
  | .cleanup t _ => t = c
  | _ => false

section
variable {log : List Event} {A : Ledger} (h : Admits log A) (c : TaskId)
include h

theorem Admits.count_runCall : log.count (.runCall c) = if (A.life c).ran then 1 else 0 :=
  h.countP_eq (c := c) _ (fun l => if l.ran then 1 else 0) rfl
    (fun e he => by cases e <;> simp_all [Event.moves])
    (fun e l l' hl => by cases hl <;> simp [Life.ran, Life.fate])

theorem Admits.count_destroy : log.count (.destroy c) = if (A.life c).destroyed then 1 else 0 :=
  h.countP_eq (c := c) _ (fun l => if l.destroyed then 1 else 0) rfl
    (fun e he => by cases e <;> simp_all [Event.moves])
    (fun e l l' hl => by cases hl <;> simp [Life.destroyed])

theorem Admits.count_create : log.count (.create c) = if (A.life c).allocated then 1 else 0 :=
  h.countP_eq (c := c) _ (fun l => if l.allocated then 1 else 0) rfl
    (fun e he => by cases e <;> simp_all [Event.moves])
    (fun e l l' hl => by cases hl <;> simp [Life.allocated])

theorem Admits.count_append : log.count (.append c) = if (A.life c).linked then 1 else 0 :=
  h.countP_eq (c := c) _ (fun l => if l.linked then 1 else 0) rfl
    (fun e he => by cases e <;> simp_all [Event.moves])
    (fun e l l' hl => by cases hl <;> simp [Life.linked, Life.fate])

theorem Admits.countP_cleanup :
    log.countP (Event.isCleanup c) = if (A.life c).cleanedUp then 1 else 0 :=
  h.countP_eq (c := c) _ (fun l => if l.cleanedUp then 1 else 0) rfl
    (fun e he => by cases e <;> simp_all [Event.moves, Event.isCleanup])
    (fun e l l' hl => by cases hl <;> simp [Life.cleanedUp, Event.isCleanup])

theorem Admits.count_runReturn (r : Int) :
    log.count (.runReturn c r) = if (A.life c).fate = some (.ran r) then 1 else 0 :=
  h.countP_eq (c := c) _ (fun l => if l.fate = some (.ran r) then 1 else 0) rfl
    (fun e he => by cases e <;> simp_all [Event.moves])
    (fun e l l' hl => by cases hl <;> simp [Life.fate])

theorem Admits.count_cancel (k : CancelId) (code : Int) :
    log.count (.cancel k c code) = if (A.life c).fate = some (.cancelled k code) then 1 else 0 :=
  h.countP_eq (c := c) _ (fun l => if l.fate = some (.cancelled k code) then 1 else 0) rfl
    (fun e he => by cases e <;> simp_all [Event.moves])
    (fun e l l' hl => by cases hl <;> simp [Life.fate])

end

theorem mem_of_count {α : Type*} [DecidableEq α] {l : List α} {a : α} {P : Prop} [Decidable P]
    (h : l.count a = if P then 1 else 0) : a ∈ l ↔ P := by
  rw [← List.count_pos_iff, h]
  split <;> simp_all

/-! ## Cutting a history in two -/

theorem Admits.split {new old : List Event} {A : Ledger} (h : Admits (new ++ old) A) :
    ∃ B, Admits old B ∧ ∀ (c : TaskId) (P : Life → Prop),
      (∀ e ∈ new, ∀ l l', LifeStep c e l l' → P l → P l') → P (B.life c) → P (A.life c) := by
  induction new generalizing A with
  | nil => exact ⟨A, h, fun _ _ _ => id⟩
  | cons e new ih =>
    cases h with
    | cons _ h hs =>
      obtain ⟨B, hB, hP⟩ := ih h
      refine ⟨B, hB, fun c P hstep hPB => ?_⟩
      have hPA := hP c P (fun e he => hstep e (List.mem_cons_of_mem _ he)) hPB
      rcases Ledger.step_life hs c with hl | ⟨hl, -⟩
      · exact hstep e (List.mem_cons_self ..) _ _ hl hPA
      · rwa [hl]

theorem LifeStep.fate {c : TaskId} {e : Event} {l l' : Life} {f : Fate} (h : LifeStep c e l l')
    (hl : l.fate = some f) : l'.fate = some f := by
  cases h <;> simp_all [Life.fate]

theorem LifeStep.rejected {c : TaskId} {e : Event} {l' : Life} : ¬ LifeStep c e .rejected l' := nofun

theorem Ledger.step_gone {A B : Ledger} {e : Event} {c : TaskId} (h : A.step e = some B)
    (hc : (A.life c).destroyed = true) : e.touches c = false := by
  obtain ⟨f, hf⟩ : ∃ f, A.life c = .gone f := by
    cases hl : A.life c <;> simp_all [Life.destroyed]
  rcases step_life h c with hl | ⟨-, hm⟩
  · rw [hf] at hl; cases hl
  · cases e with
    | touch t =>
      apply decide_eq_false
      rintro rfl
      simp [step, hf] at h
    | _ => exact hm

/-! ## The order of a history -/

/-- The tasks appended and since then neither dequeued nor detached, oldest first. -/
def waitingIn : List Event → List TaskId
  | [] => []
  | .append c :: log => waitingIn log ++ [c]
  | .dequeue c :: log => (waitingIn log).erase c
  | .detach _ _ :: _ => []
  | _ :: log => waitingIn log

def appendOrder : List Event → List TaskId
  | [] => []
  | .append c :: log => appendOrder log ++ [c]
  | _ :: log => appendOrder log

def runOrder : List Event → List TaskId
  | [] => []
  | .runCall c :: log => runOrder log ++ [c]
  | _ :: log => runOrder log

theorem Admits.pending_eq {log : List Event} {A : Ledger} (h : Admits log A) :
    A.pending = waitingIn log := by
  induction h with
  | nil => rfl
  | cons e h hs ih =>
    cases e with
    | detach k code => cases hs; rfl
    | dequeue c =>
      simp only [Ledger.step] at hs
      split at hs
      · next t q hp hh =>
        split at hs <;> cases hs
        next ht => simp [waitingIn, ← ih, hp, ht.1]
      · cases hs
    | _ =>
      simp only [Ledger.step] at hs
      repeat' split at hs
      all_goals cases hs
      all_goals simp_all [waitingIn, Ledger.move]

theorem Admits.taken_iff {log : List Event} {A : Ledger} (h : Admits log A) (t : TaskId) :
    A.life t = .taken ↔ A.hand = some t := by
  induction h generalizing t with
  | nil => simp [Ledger.empty]
  | cons e h hs ih =>
    cases e with
    | detach k code =>
      cases hs
      rw [← ih t]
      show (if _ then _ else _) = _ ↔ _
      split <;> simp_all
    | runCall c =>
      simp only [Ledger.step] at hs
      split at hs <;> cases hs
      next hc =>
      have hhand := (ih c).mp hc
      rw [Ledger.move_life]
      by_cases ht : t = c
      · simp [ht]
      · simp [ht, ih t, hhand, Ne.symm ht]
    | dequeue c =>
      simp only [Ledger.step] at hs
      split at hs
      · next hp hh =>
        split at hs <;> cases hs
        rw [Ledger.move_life]
        by_cases ht : t = c
        · simp [ht]
        · simp [ht, ih t, hh, Ne.symm ht]
      · cases hs
    | _ =>
      simp only [Ledger.step] at hs
      repeat' split at hs
      all_goals cases hs
      all_goals first
        | exact ih t
        | (rw [Ledger.move_life]; split <;> simp_all [Ledger.move, ← ih])

theorem Admits.order {log : List Event} {A : Ledger} (h : Admits log A) :
    (runOrder log ++ A.hand.toList ++ A.pending).Sublist (appendOrder log) := by
  induction h with
  | nil => exact List.Sublist.refl _
  | @cons log A B e h hs ih =>
    cases e with
    | detach k code =>
      cases hs
      refine List.Sublist.trans ?_ ih
      exact List.Sublist.append (List.Sublist.refl _) (List.nil_sublist _)
    | append c =>
      simp only [Ledger.step] at hs
      split at hs <;> cases hs
      show (runOrder log ++ A.hand.toList ++ (A.pending ++ [c])).Sublist (appendOrder log ++ [c])
      rw [← List.append_assoc]
      exact ih.append (List.Sublist.refl _)
    -- the task passes from the queue to the hand, and then to the run order
    | dequeue c =>
      simp only [Ledger.step] at hs
      split at hs <;> try cases hs
      next t q hp hh =>
      split at hs <;> cases hs
      next ht =>
      rw [hp, hh, ht.1] at ih
      simpa [runOrder, appendOrder] using ih
    | runCall c =>
      have htaken := (h.taken_iff c).mp
      simp only [Ledger.step] at hs
      split at hs <;> cases hs
      next hc =>
      rw [htaken hc] at ih
      simpa [runOrder, appendOrder, Ledger.move] using ih
    | _ =>
      simp only [Ledger.step] at hs
      repeat' split at hs
      all_goals cases hs
      all_goals exact ih

end RemoteDevice.Worker
