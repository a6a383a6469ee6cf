import Mathlib.Algebra.Ring.Nat
import Mathlib.Data.List.Basic
import Mathlib.Data.List.Chain

/-! Timelines as run-length encodings: segments of a value and a duration, and what they say at each
moment. -/

namespace Timeline

variable {α : Type*}

def expand (segments : List (α × Nat)) : List α := segments.flatMap fun s => List.replicate s.2 s.1

@[simp] theorem expand_nil : expand ([] : List (α × Nat)) = [] := rfl

@[simp] theorem expand_cons (s : α × Nat) (segments : List (α × Nat)) :
    expand (s :: segments) = List.replicate s.2 s.1 ++ expand segments := rfl

theorem expand_append (l r : List (α × Nat)) : expand (l ++ r) = expand l ++ expand r :=
  List.flatMap_append

theorem expand_length (segments : List (α × Nat)) :
    (expand segments).length = (segments.map Prod.snd).sum := by
  induction segments with
  | nil => rfl
  | cons s segments ih => simp [ih]

theorem duration_le {segments : List (α × Nat)} {s : α × Nat} (h : s ∈ segments) :
    s.2 ≤ (expand segments).length := by
  induction segments with
  | nil => simp at h
  | cons t segments ih =>
    rw [expand_cons, List.length_append, List.length_replicate]
    rcases List.mem_cons.mp h with rfl | h
    · exact Nat.le_add_right _ _
    · exact (ih h).trans (Nat.le_add_left _ _)

structure Reduced (segments : List (α × Nat)) : Prop where
  adjacent : segments.IsChain fun s t => s.1 ≠ t.1
  positive : ∀ s ∈ segments, 0 < s.2

theorem Reduced.nil : Reduced ([] : List (α × Nat)) := ⟨.nil, by simp⟩

variable [DecidableEq α]

def push (segments : List (α × Nat)) (s : α × Nat) : List (α × Nat) :=
  if s.2 = 0 then segments
  else
    match segments.getLast? with
    | some last =>
      if last.1 = s.1 then segments.dropLast ++ [(last.1, last.2 + s.2)] else segments ++ [s]
    | none => segments ++ [s]

def encode (segments : List (α × Nat)) : List (α × Nat) := segments.foldl push []

theorem push_zero (segments : List (α × Nat)) {s : α × Nat} (h : s.2 = 0) :
    push segments s = segments := if_pos h

theorem push_same (front : List (α × Nat)) {last s : α × Nat} (hpos : 0 < s.2)
    (hsame : last.1 = s.1) :
    push (front ++ [last]) s = front ++ [(last.1, last.2 + s.2)] := by
  rw [push, if_neg hpos.ne', List.getLast?_concat, List.dropLast_concat]
  exact if_pos hsame

theorem push_other {segments : List (α × Nat)} {s : α × Nat} (hpos : 0 < s.2)
    (hother : ∀ last ∈ segments.getLast?, last.1 ≠ s.1) : push segments s = segments ++ [s] := by
  rw [push, if_neg hpos.ne']
  cases hlast : segments.getLast? with
  | none => rfl
  | some last => exact if_neg (hother last hlast)

theorem push_cases (segments : List (α × Nat)) (s : α × Nat) :
    (s.2 = 0 ∧ push segments s = segments) ∨
    (∃ front last, segments = front ++ [last] ∧ 0 < s.2 ∧ last.1 = s.1 ∧
      push segments s = front ++ [(last.1, last.2 + s.2)]) ∨
    (0 < s.2 ∧ (∀ last ∈ segments.getLast?, last.1 ≠ s.1) ∧ push segments s = segments ++ [s]) := by
  rcases Nat.eq_zero_or_pos s.2 with hzero | hpos
  · exact .inl ⟨hzero, push_zero segments hzero⟩
  by_cases hother : ∀ last ∈ segments.getLast?, last.1 ≠ s.1
  · exact .inr (.inr ⟨hpos, hother, push_other hpos hother⟩)
  · push Not at hother
    obtain ⟨last, hlast, hsame⟩ := hother
    obtain ⟨front, rfl⟩ := List.getLast?_eq_some_iff.mp hlast
    exact .inr (.inl ⟨front, last, rfl, hpos, hsame, push_same front hpos hsame⟩)

theorem expand_push (segments : List (α × Nat)) (s : α × Nat) :
    expand (push segments s) = expand segments ++ List.replicate s.2 s.1 := by
  obtain ⟨hzero, h⟩ | ⟨front, last, rfl, -, hsame, h⟩ | ⟨-, -, h⟩ := push_cases segments s
  · rw [h, hzero, List.replicate_zero, List.append_nil]
  · rw [h, expand_append, expand_append, List.append_assoc]
    simp only [expand_cons, expand_nil, List.append_nil, List.replicate_add, hsame]
  · rw [h, expand_append, expand_cons, expand_nil, List.append_nil]

theorem Reduced.push {segments : List (α × Nat)} (h : Reduced segments) (s : α × Nat) :
    Reduced (push segments s) := by
  obtain ⟨-, heq⟩ | ⟨front, last, rfl, hpos, -, heq⟩ | ⟨hpos, hlast, heq⟩ := push_cases segments s
  · rwa [heq]
  · have hsplit := List.isChain_append.mp h.adjacent
    rw [heq]
    refine ⟨List.isChain_append.mpr ⟨hsplit.1, .singleton _, ?_⟩, ?_⟩
    · simpa using hsplit.2.2
    · intro t ht
      rcases List.mem_append.mp ht with ht | ht
      · exact h.positive t (List.mem_append_left _ ht)
      · rw [List.mem_singleton.mp ht]
        exact Nat.add_pos_right _ hpos
  · rw [heq]
    refine ⟨List.isChain_append.mpr ⟨h.adjacent, .singleton _, ?_⟩, ?_⟩
    · simpa using hlast
    · intro t ht
      rcases List.mem_append.mp ht with ht | ht
      · exact h.positive t ht
      · rwa [List.mem_singleton.mp ht]

theorem forall_push {P : α → Prop} {segments : List (α × Nat)} {s : α × Nat}
    (h : ∀ t ∈ segments, P t.1) (hs : P s.1) : ∀ t ∈ push segments s, P t.1 := by
  obtain ⟨-, heq⟩ | ⟨front, last, rfl, -, hsame, heq⟩ | ⟨-, -, heq⟩ := push_cases segments s
  · rwa [heq]
  · rw [heq]
    intro t ht
    rcases List.mem_append.mp ht with ht | ht
    · exact h t (List.mem_append_left _ ht)
    · rw [List.mem_singleton.mp ht, hsame]
      exact hs
  · rw [heq]
    intro t ht
    rcases List.mem_append.mp ht with ht | ht
    · exact h t ht
    · rwa [List.mem_singleton.mp ht]

theorem forall_foldl_push {P : α → Prop} {segments more : List (α × Nat)}
    (h : ∀ t ∈ segments, P t.1) (hmore : ∀ t ∈ more, P t.1) :
    ∀ t ∈ more.foldl push segments, P t.1 := by
  induction more generalizing segments with
  | nil => exact h
  | cons s more ih =>
    have hpush := forall_push h (hmore s List.mem_cons_self)
    exact ih hpush fun t ht => hmore t (List.mem_cons_of_mem _ ht)

theorem le_push {segments : List (α × Nat)} {t : α × Nat} (s : α × Nat) (h : t ∈ segments) :
    ∃ u ∈ push segments s, t.2 ≤ u.2 := by
  obtain ⟨-, heq⟩ | ⟨front, last, rfl, -, -, heq⟩ | ⟨-, -, heq⟩ := push_cases segments s
  · exact ⟨t, by rwa [heq], le_rfl⟩
  · rw [heq]
    rcases List.mem_append.mp h with h | h
    · exact ⟨t, List.mem_append_left _ h, le_rfl⟩
    · refine ⟨_, List.mem_append_right _ (List.mem_singleton_self _), ?_⟩
      rw [List.mem_singleton.mp h]
      exact Nat.le_add_right _ _
  · exact ⟨t, by rw [heq]; exact List.mem_append_left _ h, le_rfl⟩

theorem le_foldl_push {segments : List (α × Nat)} {t : α × Nat} (more : List (α × Nat))
    (h : t ∈ segments) : ∃ u ∈ more.foldl push segments, t.2 ≤ u.2 := by
  induction more generalizing segments t with
  | nil => exact ⟨t, h, le_rfl⟩
  | cons s more ih =>
    obtain ⟨u, hu, hle⟩ := le_push s h
    obtain ⟨v, hv, hle'⟩ := ih hu
    exact ⟨v, hv, hle.trans hle'⟩

theorem expand_foldl_push (segments more : List (α × Nat)) :
    expand (more.foldl push segments) = expand segments ++ expand more := by
  induction more generalizing segments with
  | nil => simp
  | cons s more ih => rw [List.foldl_cons, ih, expand_push, List.append_assoc, expand_cons]

theorem expand_encode (segments : List (α × Nat)) : expand (encode segments) = expand segments :=
  expand_foldl_push [] segments

theorem Reduced.foldl_push {segments : List (α × Nat)} (h : Reduced segments)
    (more : List (α × Nat)) : Reduced (more.foldl Timeline.push segments) := by
  induction more generalizing segments with
  | nil => exact h
  | cons s more ih => exact ih (h.push s)

theorem encode_reduced (segments : List (α × Nat)) : Reduced (encode segments) :=
  Reduced.nil.foldl_push segments

theorem encode_same {v : α} {segments : List (α × Nat)} (hsame : ∀ s ∈ segments, s.1 = v)
    (hlong : 0 < (expand segments).length) : encode segments = [(v, (expand segments).length)] := by
  have hvalue : ∀ s ∈ encode segments, s.1 = v :=
    forall_foldl_push (P := (· = v)) (fun _ ht => absurd ht List.not_mem_nil) hsame
  have hreduced := encode_reduced segments
  rw [← expand_encode] at hlong ⊢
  generalize encode segments = code at hvalue hreduced hlong ⊢
  match code with
  | [] => exact absurd hlong (Nat.lt_irrefl 0)
  | [s] =>
    have hs := hvalue s List.mem_cons_self
    simp only [expand_cons, expand_nil, List.append_nil, List.length_replicate, ← hs]
  | s :: t :: rest =>
    have hadjacent := (List.isChain_cons_cons.mp hreduced.adjacent).1
    have hs := hvalue s List.mem_cons_self
    have ht := hvalue t (List.mem_cons_of_mem _ List.mem_cons_self)
    exact absurd (hs.trans ht.symm) hadjacent

end Timeline
