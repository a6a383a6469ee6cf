import Mathlib.Logic.Function.Basic
import Mathlib.Data.List.Basic

/-! Two writers that go over the same cells, cell by cell. As long as neither overtakes the other,
what is left when both have finished is what one of them has written. -/

namespace Passes

/-! ## One writer -/

section
variable {ι κ β : Type*} [DecidableEq κ] {place : ι → κ}

def writeAll (place : ι → κ) (values : ι → β) (l : List ι) (f : κ → β) : κ → β :=
  l.foldl (fun f i => Function.update f (place i) (values i)) f

theorem writeAll_other {k : κ} (values : ι → β) {l : List ι} (h : ∀ i ∈ l, k ≠ place i) (f : κ → β) :
    writeAll place values l f k = f k := by
  induction l generalizing f with
  | nil => rfl
  | cons i l ih =>
    have hrest := ih (fun j hj => h j (List.mem_cons_of_mem i hj)) (Function.update f (place i) (values i))
    rw [Function.update_of_ne (h i List.mem_cons_self)] at hrest
    exact hrest

theorem writeAll_place (hplace : Function.Injective place) (values : ι → β) {l : List ι} {i : ι}
    (h : i ∈ l) (f : κ → β) : writeAll place values l f (place i) = values i := by
  induction l generalizing f with
  | nil => exact absurd h List.not_mem_nil
  | cons j l ih =>
    by_cases hmem : i ∈ l
    · exact ih hmem _
    · obtain rfl : i = j := (List.mem_cons.mp h).resolve_right hmem
      have hlater : ∀ j ∈ l, place i ≠ place j := by
        intro j hj heq
        exact hmem (hplace heq ▸ hj)
      have hrest := writeAll_other values hlater (Function.update f (place i) (values i))
      rw [Function.update_self] at hrest
      exact hrest

end

/-! ## Two writers -/

variable {n : Nat} {α : Type*}

structure Pass (n : Nat) (α : Type*) where
  values : Fin n → α
  done : Nat

def Pass.onto (p : Pass n α) (cells : Fin n → α) : Fin n → α :=
  fun j => if j.val < p.done then p.values j else cells j

def onto (p : Option (Pass n α)) (cells : Fin n → α) : Fin n → α :=
  p.elim cells fun p => p.onto cells

/-- What was there, under what the first has written, under what the second has; and the second has
not written more than the first. -/
structure Ahead (base cells : Fin n → α) (first second : Option (Pass n α)) : Prop where
  cells_eq : cells = onto second (onto first base)
  order : ∀ p ∈ first, ∀ q ∈ second, q.done ≤ p.done

def Ordered (base cells : Fin n → α) (a b : Option (Pass n α)) : Prop :=
  Ahead base cells a b ∨ Ahead base cells b a

variable {base cells values : Fin n → α} {a b : Option (Pass n α)} {p q : Pass n α} {k : Nat}

theorem onto_idle (h : ∀ p ∈ a, p.done = 0) (cells : Fin n → α) : onto a cells = cells := by
  cases a with
  | none => rfl
  | some p =>
    funext j
    have hdone : ¬j.val < p.done := by
      rw [h p rfl]
      exact Nat.not_lt_zero j.val
    exact if_neg hdone

theorem onto_end (hdone : n ≤ p.done) (cells : Fin n → α) : p.onto cells = p.values := by
  funext j
  exact if_pos (Nat.lt_of_lt_of_le j.isLt hdone)

theorem update_onto (hk : k < n) (cells : Fin n → α) :
    Function.update ((Pass.mk values k).onto cells) ⟨k, hk⟩ (values ⟨k, hk⟩) =
      (Pass.mk values (k + 1)).onto cells := by
  funext j
  by_cases hj : j = ⟨k, hk⟩
  · subst hj
    rw [Function.update_self]
    exact (if_pos (Nat.lt_succ_self k)).symm
  · have hne : j.val ≠ k := fun heq => hj (Fin.ext heq)
    have hiff : j.val < k ↔ j.val < k + 1 := by omega
    rw [Function.update_of_ne hj]
    exact if_congr hiff rfl rfl

def rest (values : Fin n → α) (k : Nat) (cells : Fin n → α) : Fin n → α :=
  fun j => if j.val < k then cells j else values j

theorem rest_end (values cells : Fin n → α) : rest values n cells = cells := by
  funext j
  exact if_pos j.isLt

theorem rest_rest (values later cells : Fin n → α) (k : Nat) :
    rest later k (rest values k cells) = rest later k cells := by
  funext j
  rw [rest, rest, rest]
  split
  · rfl
  · rfl

theorem rest_update (hk : k < n) (cells : Fin n → α) :
    rest values (k + 1) (Function.update cells ⟨k, hk⟩ (values ⟨k, hk⟩)) = rest values k cells := by
  funext j
  by_cases hj : j = ⟨k, hk⟩
  · subst hj
    rw [rest, if_pos (Nat.lt_succ_self k), Function.update_self]
    exact (if_neg (Nat.lt_irrefl k)).symm
  · have hne : j.val ≠ k := fun heq => hj (Fin.ext heq)
    have hiff : j.val < k + 1 ↔ j.val < k := by omega
    rw [rest, Function.update_of_ne hj]
    exact if_congr hiff rfl rfl

theorem onto_update {j : Fin n} (hj : p.done ≤ j.val) (x : α) (cells : Fin n → α) :
    Function.update (p.onto cells) j x = p.onto (Function.update cells j x) := by
  funext i
  by_cases hi : i = j
  · subst hi
    rw [Function.update_self, Pass.onto, if_neg (Nat.not_lt.mpr hj), Function.update_self]
  · rw [Function.update_of_ne hi, Pass.onto, Pass.onto, Function.update_of_ne hi]

/-- Two passes over the same cells may change places, if those are as the lower one wrote them. -/
theorem onto_swap (hdone : p.done = q.done)
    (hsame : ∀ j : Fin n, j.val < p.done → q.onto (p.onto cells) j = p.values j) :
    q.onto (p.onto cells) = p.onto (q.onto cells) := by
  funext j
  by_cases hj : j.val < p.done
  · rw [hsame j hj]
    exact (if_pos hj).symm
  · have hjq : ¬j.val < q.done := hdone ▸ hj
    rw [Pass.onto, if_neg hjq, Pass.onto, if_neg hj, Pass.onto, if_neg hj, Pass.onto, if_neg hjq]

theorem Ordered.symm (h : Ordered base cells a b) : Ordered base cells b a := Or.symm h

theorem Ordered.idle (h : Ordered base cells a b) (ha : ∀ p ∈ a, p.done = 0)
    (hb : ∀ q ∈ b, q.done = 0) : cells = base := by
  rcases h with h | h
  · rw [h.cells_eq, onto_idle hb, onto_idle ha]
  · rw [h.cells_eq, onto_idle ha, onto_idle hb]

theorem Ordered.start (h : Ordered base cells none b) (values : Fin n → α) :
    Ordered base cells (some ⟨values, 0⟩) b := by
  have hcells : cells = onto b base := by
    rcases h with h | h
    · exact h.cells_eq
    · exact h.cells_eq
  refine .inr ⟨hcells, ?_⟩
  intro p _ q hq
  obtain rfl := Option.some.inj hq
  exact Nat.zero_le p.done

theorem Ahead.write_first (h : Ahead base cells (some ⟨values, k⟩) b) (hk : k < n) :
    Ahead base (Function.update cells ⟨k, hk⟩ (values ⟨k, hk⟩)) (some ⟨values, k + 1⟩) b := by
  constructor
  · rw [h.cells_eq]
    cases b with
    | none => exact update_onto hk base
    | some q =>
      have hq : q.done ≤ k := h.order _ rfl q rfl
      have hcell : Function.update (q.onto ((Pass.mk values k).onto base)) ⟨k, hk⟩ (values ⟨k, hk⟩) =
          q.onto (Function.update ((Pass.mk values k).onto base) ⟨k, hk⟩ (values ⟨k, hk⟩)) :=
        onto_update hq _ _
      rw [update_onto hk base] at hcell
      exact hcell
  · intro p hp q hq
    obtain rfl := Option.some.inj hp
    exact Nat.le_succ_of_le (h.order _ rfl q hq)

theorem Ahead.write_second (h : Ahead base cells a (some ⟨values, k⟩)) (hk : k < n)
    (hbehind : ∀ p ∈ a, k < p.done) :
    Ahead base (Function.update cells ⟨k, hk⟩ (values ⟨k, hk⟩)) a (some ⟨values, k + 1⟩) := by
  constructor
  · rw [h.cells_eq]
    exact update_onto hk _
  · intro p hp q hq
    obtain rfl := Option.some.inj hq
    exact hbehind p hp

/-- A writer takes the next cell. Where the other one is about to take it too, what is written is as the
other one wrote it: this one is ahead, or it has written the same. -/
theorem Ordered.write (h : Ordered base cells (some ⟨values, k⟩) b) (hk : k < n)
    (hfirst : ∀ q ∈ b, q.done = k → ∀ j : Fin n, j.val < k → cells j = q.values j) :
    Ordered base (Function.update cells ⟨k, hk⟩ (values ⟨k, hk⟩)) (some ⟨values, k + 1⟩) b := by
  rcases h with h | h
  · exact .inl (h.write_first hk)
  · by_cases hbehind : ∀ q ∈ b, k < q.done
    · exact .inr (h.write_second hk hbehind)
    · cases b with
      | none => exact absurd (fun q hq => absurd hq (Option.not_mem_none q)) hbehind
      | some q =>
        have htie : q.done = k := by
          have hle : k ≤ q.done := h.order q rfl _ rfl
          by_contra hne
          apply hbehind
          intro r hr
          obtain rfl := Option.some.inj hr
          exact Nat.lt_of_le_of_ne hle (Ne.symm hne)
        have hswap : Ahead base cells (some ⟨values, k⟩) (some q) := by
          constructor
          · have hcells : cells = (Pass.mk values k).onto (q.onto base) := h.cells_eq
            rw [hcells]
            apply onto_swap htie
            intro j hj
            rw [← hcells]
            exact hfirst q rfl htie j (htie ▸ hj)
          · intro p hp r hr
            obtain rfl := Option.some.inj hp
            obtain rfl := Option.some.inj hr
            exact Nat.le_of_eq htie
        exact .inl (hswap.write_first hk)

theorem Ordered.finish (h : Ordered base cells (some ⟨values, n⟩) b) (hb : ∀ q ∈ b, q.done < n) :
    Ordered values cells none b := by
  rcases h with h | h
  · refine .inl ⟨?_, fun p hp => absurd hp (Option.not_mem_none p)⟩
    rw [h.cells_eq]
    exact congrArg (onto b) (onto_end (Nat.le_refl n) base)
  · cases b with
    | none =>
      refine .inl ⟨?_, fun p hp => absurd hp (Option.not_mem_none p)⟩
      rw [h.cells_eq]
      exact onto_end (Nat.le_refl n) base
    | some q =>
      have hle : n ≤ q.done := h.order q rfl _ rfl
      exact absurd (hb q rfl) (Nat.not_lt.mpr hle)

end Passes
