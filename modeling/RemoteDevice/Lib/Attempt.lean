import Mathlib.Tactic.SplitIfs

/-! Operations that report their outcome by a result code: an operation that fails is answered by
undoing what was done before it, and the caller sees the code of the failure. -/

namespace Attempt

variable {ρ σ τ : Type*} [DecidableEq ρ]

/-- `first`, then `next`; where `first` fails, `undo` and its result. -/
def andThen (ok : ρ) (first : σ → ρ × σ) (undo : σ → σ) (next : σ → ρ × σ) (s : σ) : ρ × σ :=
  if (first s).1 = ok then next (first s).2 else ((first s).1, undo (first s).2)

def inOrder (ok : ρ) (ops : List (σ → ρ × σ)) : σ → ρ × σ :=
  ops.foldr (fun op rest => andThen ok op id rest) fun s => (ok, s)

def Meets (ok : ρ) (op : σ → ρ × σ) (P Q E : σ → Prop) : Prop :=
  ∀ s, P s → if (op s).1 = ok then Q (op s).2 else E (op s).2

variable {ok : ρ} {op first next : σ → ρ × σ} {undo : σ → σ} {P P' Q Q' M E E' F : σ → Prop}

theorem Meets.mono (h : Meets ok op P Q E) (hP : ∀ s, P' s → P s) (hQ : ∀ s, Q s → Q' s)
    (hE : ∀ s, E s → E' s) : Meets ok op P' Q' E' := by
  intro s hs
  have hop := h s (hP s hs)
  split_ifs at hop ⊢ with hok
  · exact hQ _ hop
  · exact hE _ hop

theorem meets_pure (h : ∀ s, P s → Q s) : Meets ok (fun s => (ok, s)) P Q E := by
  intro s hs
  rw [if_pos rfl]
  exact h s hs

theorem Meets.andThen (hfirst : Meets ok first P M F) (hundo : ∀ s, F s → E (undo s))
    (hnext : Meets ok next M Q E) : Meets ok (andThen ok first undo next) P Q E := by
  intro s hs
  have h := hfirst s hs
  unfold Attempt.andThen
  by_cases hok : (first s).1 = ok
  · rw [if_pos hok] at h ⊢
    exact hnext _ h
  · rw [if_neg hok] at h ⊢
    rw [if_neg hok]
    exact hundo _ h

theorem Meets.inOrder {ops : List (σ → ρ × σ)} (h : ∀ op ∈ ops, Meets ok op P P E) :
    Meets ok (inOrder ok ops) P P E := by
  induction ops with
  | nil => exact meets_pure fun _ hs => hs
  | cons op ops ih =>
    have hop := h op List.mem_cons_self
    have hops := ih fun op' hmem => h op' (List.mem_cons_of_mem _ hmem)
    exact hop.andThen (fun _ hs => hs) hops

def within (get : σ → τ) (set : σ → τ → σ) (op : τ → ρ × τ) (s : σ) : ρ × σ :=
  ((op (get s)).1, set s (op (get s)).2)

theorem Meets.within {op : τ → ρ × τ} {get : σ → τ} {set : σ → τ → σ} {P' Q' E' : τ → Prop}
    (h : Meets ok op P' Q' E') (hP : ∀ s, P s → P' (get s))
    (hQ : ∀ s x, P s → Q' x → Q (set s x)) (hE : ∀ s x, P s → E' x → E (set s x)) :
    Meets ok (within get set op) P Q E := by
  intro s hs
  have hop := h _ (hP s hs)
  unfold Attempt.within
  split_ifs at hop ⊢ with hok
  · exact hQ s _ hs hop
  · exact hE s _ hs hop

end Attempt
