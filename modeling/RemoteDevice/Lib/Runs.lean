import Mathlib.Logic.Relation

/-! Runs of a system given by a partial step function: an action that is not
enabled gives `none`. -/

namespace Runs

variable {σ τ α β : Type*}

def run (step : σ → α → Option σ) : σ → List α → Option σ
  | s, [] => some s
  | s, a :: as => (step s a).bind fun t => run step t as

inductive Reachable (init : σ → Prop) (step : σ → α → Option σ) : σ → Prop
  | start {s : σ} : init s → Reachable init step s
  | next {s t : σ} (a : α) : Reachable init step s → step s a = some t → Reachable init step t

def guarded (ok : σ → α → Prop) [∀ s a, Decidable (ok s a)] (step : σ → α → Option σ) :
    σ → α → Option σ :=
  fun s a => if ok s a then step s a else none

variable {init : σ → Prop} {step : σ → α → Option σ}

theorem run_cons (s : σ) (a : α) (as : List α) :
    run step s (a :: as) = (step s a).bind fun t => run step t as := rfl

theorem run_append (s : σ) (as bs : List α) :
    run step s (as ++ bs) = (run step s as).bind fun t => run step t bs := by
  induction as generalizing s with
  | nil => rfl
  | cons a as ih =>
    simp only [List.cons_append, run_cons, Option.bind_assoc]
    exact congrArg _ (funext ih)

theorem run_replicate_add {s t u : σ} {a : α} {m n : Nat}
    (h : run step s (List.replicate m a) = some t) (h' : run step t (List.replicate n a) = some u) :
    run step s (List.replicate (m + n) a) = some u := by
  rw [← List.replicate_append_replicate, run_append, h]
  exact h'

def Leads (step : σ → α → Option σ) (a : α) (P : σ → Prop) (s : σ) : Prop :=
  ∃ n t, run step s (List.replicate n a) = some t ∧ P t

theorem Leads.now {a : α} {P : σ → Prop} {s : σ} (h : P s) : Leads step a P s := ⟨0, s, rfl, h⟩

theorem Leads.later {a : α} {P : σ → Prop} {s t : σ} (hs : step s a = some t)
    (h : Leads step a P t) : Leads step a P s := by
  obtain ⟨n, u, hrun, hu⟩ := h
  refine ⟨n + 1, u, ?_, hu⟩
  rw [List.replicate_succ, run_cons, hs]
  exact hrun

theorem Reachable.run {s t : σ} (h : Reachable init step s) {as : List α}
    (hr : Runs.run step s as = some t) : Reachable init step t := by
  induction as generalizing s with
  | nil => exact Option.some.inj hr ▸ h
  | cons a as ih =>
    obtain ⟨u, hu, hr⟩ := Option.bind_eq_some_iff.mp hr
    exact ih (.next a h hu) hr

/-- A run that can be evaluated ends in a reachable state. -/
theorem Reachable.exists_of_run {s : σ} (h : Reachable init step s) (as : List α) (p : σ → Bool)
    (hr : (Runs.run step s as).any p = true) : ∃ t, Reachable init step t ∧ p t = true := by
  obtain ⟨t, ht, hp⟩ := (Option.any_eq_true _ _).mp hr
  exact ⟨t, h.run ht, hp⟩

theorem Reachable.invariant {P : σ → Prop} (h0 : ∀ s, init s → P s)
    (hs : ∀ s a t, P s → step s a = some t → P t) {s : σ} (h : Reachable init step s) : P s := by
  induction h with
  | start hi => exact h0 _ hi
  | next a _ hst ih => exact hs _ a _ ih hst

theorem Reachable.invariant_of_reachable {P : σ → Prop} (h0 : ∀ s, init s → P s)
    (hs : ∀ s a t, Reachable init step s → P s → step s a = some t → P t)
    {s : σ} (h : Reachable init step s) : P s := by
  induction h with
  | start hi => exact h0 _ hi
  | next a hr hst ih => exact hs _ a _ hr ih hst

theorem run_invariant {P : σ → Prop} (hs : ∀ s a t, P s → step s a = some t → P t)
    {s t : σ} {as : List α} (h : P s) (hr : run step s as = some t) : P t := by
  induction as generalizing s with
  | nil => exact Option.some.inj hr ▸ h
  | cons a as ih =>
    obtain ⟨u, hu, hr⟩ := Option.bind_eq_some_iff.mp hr
    exact ih (hs _ _ _ h hu) hr

/-- A map under which every step is a step of the other system or leaves the image alone
sends reachable states to reachable states. -/
theorem Reachable.map {init' : τ → Prop} {step' : τ → β → Option τ} (f : σ → τ)
    (h0 : ∀ s, init s → init' (f s))
    (hs : ∀ s a t, step s a = some t → f t = f s ∨ ∃ b, step' (f s) b = some (f t))
    {s : σ} (h : Reachable init step s) : Reachable init' step' (f s) := by
  induction h with
  | start hi => exact .start (h0 _ hi)
  | next a _ hst ih =>
    obtain heq | ⟨b, hb⟩ := hs _ a _ hst
    · exact heq ▸ ih
    · exact .next b ih hb

theorem guarded_eq_some {ok : σ → α → Prop} [∀ s a, Decidable (ok s a)] {s t : σ} {a : α} :
    guarded ok step s a = some t ↔ ok s a ∧ step s a = some t := by
  unfold guarded
  split <;> simp_all

theorem Reachable.of_guarded {ok : σ → α → Prop} [∀ s a, Decidable (ok s a)] {s : σ}
    (h : Reachable init (guarded ok step) s) : Reachable init step s := by
  induction h with
  | start hi => exact .start hi
  | next a _ hst ih => exact .next a ih (guarded_eq_some.mp hst).2

/-! ## What a run puts out -/

def outputs (step : σ → α → Option σ) (out : σ → α → List β) : σ → List α → List β
  | _, [] => []
  | s, a :: as => out s a ++ ((step s a).map fun t => outputs step out t as).getD []

section
variable {γ : Type*} {out : σ → α → List β} {out' : σ → α → List γ} {s t : σ} {a : α} {as : List α}

theorem outputs_cons (h : step s a = some t) :
    outputs step out s (a :: as) = out s a ++ outputs step out t as := by
  rw [outputs, h]
  rfl

theorem outputs_rel {R : List β → List γ → Prop} (hnil : R [] [])
    (happend : ∀ {l l' k k'}, R l k → R l' k' → R (l ++ l') (k ++ k')) (hr : run step s as = some t)
    (h : ∀ u, ∀ a ∈ as, (step u a).isSome = true → R (out u a) (out' u a)) :
    R (outputs step out s as) (outputs step out' s as) := by
  induction as generalizing s with
  | nil => exact hnil
  | cons a as ih =>
    obtain ⟨u, hu, hr⟩ := Option.bind_eq_some_iff.mp hr
    rw [outputs_cons hu, outputs_cons hu]
    exact happend (h s a List.mem_cons_self (by rw [hu]; rfl))
      (ih hr fun u b hb => h u b (List.mem_cons_of_mem _ hb))

end

end Runs
