import Mathlib.Order.WellFounded
import RemoteDevice.Lib.Runs

/-! Schedules. The scheduler picks the thread that moves next, the environment picks the step that
the thread makes; `owner` says whose step an action is. -/

namespace Runs

variable {σ τ α β θ : Type*}

/-- There is a schedule under which the system gets to a state with the property, whatever the
threads do in their turns. -/
inductive Forces (owner : σ → α → Option θ) (step : σ → α → Option σ) (P : σ → Prop) : σ → Prop
  | now {s : σ} (h : P s) : Forces owner step P s
  | turn {s : σ} (i : θ) (hready : ∃ a t, owner s a = some i ∧ step s a = some t)
      (h : ∀ a t, owner s a = some i → step s a = some t → Forces owner step P t) :
      Forces owner step P s

variable {owner : σ → α → Option θ} {step : σ → α → Option σ} {P Q I : σ → Prop} {s : σ}

theorem Forces.bind (h : Forces owner step P s) (hQ : ∀ t, P t → Forces owner step Q t) :
    Forces owner step Q s := by
  induction h with
  | now hp => exact hQ _ hp
  | turn i hready _ ih => exact .turn i hready ih

theorem Forces.mono (h : Forces owner step P s) (hPQ : ∀ t, P t → Q t) : Forces owner step Q s :=
  h.bind fun t ht => .now (hPQ t ht)

/-- A schedule that leads to the property or to smaller and smaller states of an invariant. -/
theorem Forces.of_measure {γ : Type*} {r : γ → γ → Prop} (hr : WellFounded r) (μ : σ → γ)
    (h : ∀ s, I s → Forces owner step (fun t => P t ∨ I t ∧ r (μ t) (μ s)) s) (hs : I s) :
    Forces owner step P s := by
  induction hμ : μ s using hr.induction generalizing s with
  | _ m ih =>
    refine (h s hs).bind fun t ht => ?_
    rcases ht with hp | ⟨ht, hlt⟩
    · exact .now hp
    · exact ih (μ t) (hμ ▸ hlt) ht rfl

theorem Forces.keep (h : Forces owner step P s)
    (hstep : ∀ s i a t, I s → ¬ P s → owner s a = some i → step s a = some t → I t) (hs : I s) :
    Forces owner step (fun t => I t ∧ P t) s := by
  induction h with
  | now hp => exact .now ⟨hs, hp⟩
  | @turn s i hready _ ih =>
    by_cases hp : P s
    · exact .now ⟨hs, hp⟩
    · exact .turn i hready fun a t ho ht => ih a t ho ht (hstep s i a t hs hp ho ht)

/-- A schedule of a component is one of the system, if every thread that can move in the component
can move in the system, and moves the component as its own step or to the goal. -/
theorem Forces.lift {owner' : τ → β → Option θ} {step' : τ → β → Option τ} {P : τ → Prop}
    (f : σ → τ) {s : σ} (h : Forces owner' step' P (f s)) (hs : I s)
    (hP : ∀ s, I s → P (f s) → Forces owner step Q s)
    (hready : ∀ s i b t, I s → owner' (f s) b = some i → step' (f s) b = some t →
      ∃ a u, owner s a = some i ∧ step s a = some u)
    (hstep : ∀ s i a t, I s → owner s a = some i → step s a = some t →
      Q t ∨ I t ∧ ∃ b, owner' (f s) b = some i ∧ step' (f s) b = some (f t)) :
    Forces owner step Q s := by
  generalize hx : f s = x at h
  induction h generalizing s with
  | now hp => exact hP s hs (hx ▸ hp)
  | @turn x i hmove _ ih =>
    subst hx
    obtain ⟨b, t, ho, ht⟩ := hmove
    refine .turn i (hready s i b t hs ho ht) fun a u hoa hu => ?_
    rcases hstep s i a u hs hoa hu with hq | ⟨hu', b', ho', hb'⟩
    · exact .now hq
    · exact ih b' (f u) ho' hb' hu' rfl

/-- The system whose environment has so many steps of a kind left. -/
def limited (cost : α → ℕ) (step : σ → α → Option σ) : σ × ℕ → α → Option (σ × ℕ)
  | (s, n), a => if cost a ≤ n then (step s a).map (·, n - cost a) else none

theorem limited_eq_some {cost : α → ℕ} {x y : σ × ℕ} {a : α} :
    limited cost step x a = some y ↔
      cost a ≤ x.2 ∧ step x.1 a = some y.1 ∧ y.2 = x.2 - cost a := by
  obtain ⟨s, n⟩ := x
  obtain ⟨t, m⟩ := y
  simp only [limited, Option.ite_none_right_eq_some, Option.map_eq_some_iff, Prod.mk.injEq]
  constructor
  · rintro ⟨hcost, u, hu, rfl, rfl⟩
    exact ⟨hcost, hu, rfl⟩
  · rintro ⟨hcost, hu, rfl⟩
    exact ⟨hcost, t, hu, rfl, rfl⟩

end Runs
