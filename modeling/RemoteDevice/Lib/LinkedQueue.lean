import Mathlib.Data.List.Nodup
import Mathlib.Logic.Function.Basic

/-! A FIFO queue kept as a chain of `next` pointers with a head and a tail pointer. -/

variable {ι : Type*}

/-- Following `next` from `p` visits exactly the cells of the list and then stops. -/
def Chain (next : ι → Option ι) : Option ι → List ι → Prop
  | p, [] => p = none
  | p, a :: l => p = some a ∧ Chain next (next a) l

structure LinkedQueue (next : ι → Option ι) (head tail : Option ι) (q : List ι) : Prop where
  chain : Chain next head q
  tail_eq : tail = q.getLast?

namespace Chain

variable {next next' : ι → Option ι} {p : Option ι}

theorem unique {l l' : List ι} (h : Chain next p l) (h' : Chain next p l') : l = l' := by
  induction l generalizing p l' with
  | nil =>
    cases l' with
    | nil => rfl
    | cons b l' => exact absurd (h.symm.trans h'.1) (by simp)
  | cons a l ih =>
    cases l' with
    | nil => exact absurd (h'.symm.trans h.1) (by simp)
    | cons b l' =>
      obtain rfl : a = b := Option.some.inj (h.1.symm.trans h'.1)
      exact congrArg _ (ih h.2 h'.2)

theorem congr {l : List ι} (hn : ∀ a ∈ l, next' a = next a) (h : Chain next p l) :
    Chain next' p l := by
  induction l generalizing p with
  | nil => exact h
  | cons a l ih =>
    refine ⟨h.1, ?_⟩
    rw [hn a (List.mem_cons_self ..)]
    exact ih (fun b hb => hn b (List.mem_cons_of_mem _ hb)) h.2

theorem suffix_of_mem {l : List ι} (h : Chain next p l) {a : ι} (ha : a ∈ l) :
    ∃ m, Chain next (next a) m ∧ m.length < l.length := by
  induction l generalizing p with
  | nil => cases ha
  | cons b l ih =>
    obtain rfl | ha := List.mem_cons.mp ha
    · exact ⟨l, h.2, Nat.lt_succ_self _⟩
    · obtain ⟨m, hm, hl⟩ := ih h.2 ha
      exact ⟨m, hm, Nat.lt_succ_of_lt hl⟩

theorem nodup {l : List ι} (h : Chain next p l) : l.Nodup := by
  induction l generalizing p with
  | nil => exact List.nodup_nil
  | cons a l ih =>
    refine List.nodup_cons.mpr ⟨fun ha => ?_, ih h.2⟩
    obtain ⟨m, hm, hl⟩ := suffix_of_mem h.2 ha
    exact absurd hl (by rw [hm.unique h.2]; exact Nat.lt_irrefl _)

end Chain

namespace LinkedQueue

variable {next : ι → Option ι} {head tail : Option ι} {q : List ι}

theorem empty : LinkedQueue next none none [] := ⟨rfl, rfl⟩

theorem head_eq (h : LinkedQueue next head tail q) : head = q.head? := by
  cases q with
  | nil => exact h.chain
  | cons a q => exact h.chain.1

theorem head_none (h : LinkedQueue next head tail q) : head = none ↔ q = [] := by
  rw [h.head_eq, List.head?_eq_none_iff]

theorem tail_none (h : LinkedQueue next head tail q) : tail = none ↔ q = [] := by
  rw [h.tail_eq, List.getLast?_eq_none_iff]

theorem tail_mem {a : ι} (h : LinkedQueue next head (some a) q) : a ∈ q :=
  List.mem_of_getLast? h.tail_eq.symm

theorem congr {next' : ι → Option ι} (h : LinkedQueue next head tail q)
    (hn : ∀ a ∈ q, next' a = next a) : LinkedQueue next' head tail q :=
  ⟨h.chain.congr hn, h.tail_eq⟩

theorem pop {a : ι} (h : LinkedQueue next head tail (a :: q)) :
    LinkedQueue next (next a) (if next a = none then none else tail) q := by
  refine ⟨h.chain.2, ?_⟩
  cases q with
  | nil => rw [if_pos (show next a = none from h.chain.2)]; rfl
  | cons b q =>
    rw [if_neg (by rw [h.chain.2.1]; simp), h.tail_eq, List.getLast?_cons_cons]

theorem push_empty {t : ι} (ht : next t = none) : LinkedQueue next (some t) (some t) [t] :=
  ⟨⟨rfl, ht⟩, rfl⟩

section Push

variable [DecidableEq ι]

theorem push_chain {l : ι} {t : ι} {p : Option ι} (ht : next t = none)
    (h : Chain next p (q ++ [l])) (hm : t ∉ q ++ [l]) :
    Chain (Function.update next l (some t)) p (q ++ [l] ++ [t]) := by
  induction q generalizing p with
  | nil =>
    have hlt : t ≠ l := fun e => hm (by simp [e])
    exact ⟨h.1, by simp [Chain, hlt, ht]⟩
  | cons a q ih =>
    have hal : a ≠ l := by
      rintro rfl
      exact (List.nodup_cons.mp h.nodup).1 (by simp)
    refine ⟨h.1, ?_⟩
    rw [Function.update_of_ne hal]
    exact ih h.2 fun hq => hm (List.mem_cons_of_mem _ hq)

theorem push {l t : ι} (h : LinkedQueue next head (some l) q) (ht : next t = none) (hm : t ∉ q) :
    LinkedQueue (Function.update next l (some t)) head (some t) (q ++ [t]) := by
  obtain ⟨q', rfl⟩ : ∃ q', q = q' ++ [l] := List.getLast?_eq_some_iff.mp h.tail_eq.symm
  exact ⟨push_chain ht h.chain hm, by simp⟩

end Push
end LinkedQueue
