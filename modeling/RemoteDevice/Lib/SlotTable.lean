import Mathlib.Data.List.Perm.Basic

/-! A table of a fixed number of slots: an entry is put into the first empty slot and taken out by
a search for it. -/

namespace SlotTable

variable {α : Type*} [DecidableEq α] {empty x y : α} {l l' : List α}

/-- The entries of a table whose free slots hold `empty`. -/
def occupied (empty : α) (l : List α) : List α := l.filter (· ≠ empty)

theorem mem_occupied : x ∈ occupied empty l ↔ x ∈ l ∧ x ≠ empty := by simp [occupied]

theorem occupied_cons_empty : occupied empty (empty :: l) = occupied empty l := by simp [occupied]

theorem occupied_cons (h : x ≠ empty) : occupied empty (x :: l) = x :: occupied empty l := by
  simp [occupied, h]

theorem occupied_replicate (n : Nat) : occupied empty (List.replicate n empty) = [] := by
  simp [occupied]

theorem replace_cons_of_ne (h : y ≠ x) (z : α) : (y :: l).replace x z = y :: l.replace x z := by
  have hne : (x == y) = false := by simpa using Ne.symm h
  rw [List.replace_cons, hne]

theorem occupied_put (hfree : empty ∈ l) (hx : x ≠ empty) :
    (occupied empty (l.replace empty x)).Perm (x :: occupied empty l) := by
  induction l with
  | nil => cases hfree
  | cons y l ih =>
    by_cases hy : y = empty
    · subst hy
      rw [List.replace_cons_self, occupied_cons hx, occupied_cons_empty]
    · have hl : empty ∈ l := (List.mem_cons.mp hfree).resolve_left (Ne.symm hy)
      rw [replace_cons_of_ne hy, occupied_cons hy, occupied_cons hy]
      exact ((ih hl).cons y).trans (.swap x y _)

theorem put_of_full (hfull : empty ∉ l) : l.replace empty x = l :=
  List.replace_of_not_mem (by simpa using hfull)

theorem occupied_remove (hx : x ≠ empty) :
    occupied empty (l.replace x empty) = (occupied empty l).erase x := by
  induction l with
  | nil => rfl
  | cons y l ih =>
    by_cases hyx : y = x
    · subst hyx
      rw [List.replace_cons_self, occupied_cons_empty, occupied_cons hx, List.erase_cons_head]
    · rw [replace_cons_of_ne hyx]
      by_cases hy : y = empty
      · subst hy
        rw [occupied_cons_empty, occupied_cons_empty, ih]
      · rw [occupied_cons hy, occupied_cons hy, List.erase_cons_tail (by simpa using hyx), ih]

theorem free_iff : empty ∈ l ↔ (occupied empty l).length < l.length := by
  unfold occupied
  rw [List.length_filter_lt_length_iff_exists]
  simp

end SlotTable
