import RemoteDevice.Lib.CText

/-! The decimal numerals that `strtol` reads: white space, an optional sign and digits. -/

namespace CText

structure IsDigits (s : CText) : Prop where
  ne_nil : s ≠ []
  digits : ∀ b ∈ s, isDigit b = true

inductive Numeral : CText → Int → Prop
  | unsigned {s : CText} (h : IsDigits s) : Numeral s (digitsValue s)
  | plus {s : CText} (h : IsDigits s) : Numeral (43 :: s) (digitsValue s)
  | minus {s : CText} (h : IsDigits s) : Numeral (45 :: s) (-digitsValue s)

theorem Numeral.ne_nil {s : CText} {n : Int} (h : Numeral s n) : s ≠ [] := by
  cases h with
  | unsigned h => exact h.ne_nil
  | plus | minus => exact List.cons_ne_nil _ _

theorem not_isSpace_of_isDigit {b : UInt8} (h : isDigit b = true) : isSpace b = false := by
  simp only [isDigit, Bool.and_eq_true, decide_eq_true_eq, UInt8.le_iff_toNat_le] at h
  simp only [isSpace, Bool.or_eq_false_iff, Bool.and_eq_false_iff, decide_eq_false_iff_not,
    UInt8.le_iff_toNat_le, ← UInt8.toNat_inj]
  have hlow : 48 ≤ b.toNat := h.1
  exact ⟨fun h32 => absurd h32 (by simp; omega), .inr (by simp; omega)⟩

theorem IsDigits.takeWhile {s : CText} (h : IsDigits s) : s.takeWhile isDigit = s :=
  List.takeWhile_eq_self_iff.mpr h.digits

theorem IsDigits.dropWhile {s : CText} (h : IsDigits s) : s.dropWhile isDigit = [] :=
  List.dropWhile_eq_nil_iff.mpr h.digits

theorem IsDigits.signed {s : CText} (h : IsDigits s) : signed s = (false, s) := by
  cases s with
  | nil => exact absurd rfl h.ne_nil
  | cons b s =>
    have hb := h.digits b List.mem_cons_self
    have hplus : b ≠ 43 := by rintro rfl; exact absurd hb (by decide)
    have hminus : b ≠ 45 := by rintro rfl; exact absurd hb (by decide)
    unfold CText.signed
    split
    · next heq => exact absurd (List.cons.inj heq).1 hplus
    · next heq => exact absurd (List.cons.inj heq).1 hminus
    · rfl

theorem Numeral.dropWhile_isSpace {s spaces : CText} {n : Int} (h : Numeral s n)
    (hspaces : ∀ b ∈ spaces, isSpace b = true) : (spaces ++ s).dropWhile isSpace = s := by
  rw [List.dropWhile_append_of_pos hspaces]
  cases h with
  | unsigned h =>
    cases s with
    | nil => rfl
    | cons b s =>
      have hb := not_isSpace_of_isDigit (h.digits b List.mem_cons_self)
      simp [hb]
  | plus h | minus h => rfl

theorem Numeral.no_spaces {s spaces token : CText} {m n : Int} (hs : Numeral s m)
    (ht : Numeral token n) (hspaces : ∀ b ∈ spaces, isSpace b = true) (heq : s = spaces ++ token) :
    spaces = [] := by
  have hself : ([] ++ s).dropWhile isSpace = s := hs.dropWhile_isSpace nofun
  rw [List.nil_append, heq, ht.dropWhile_isSpace hspaces] at hself
  exact List.self_eq_append_left.mp hself

theorem Numeral.strtol {s spaces : CText} {n : Int} (h : Numeral s n)
    (hspaces : ∀ b ∈ spaces, isSpace b = true) :
    CText.strtol (spaces ++ s) =
      if n < -2 ^ 63 then ⟨-2 ^ 63, [], true⟩
      else if 2 ^ 63 ≤ n then ⟨2 ^ 63 - 1, [], true⟩
      else ⟨n, [], false⟩ := by
  unfold CText.strtol
  rw [h.dropWhile_isSpace hspaces]
  cases h with
  | unsigned h => simp only [h.signed, h.takeWhile, h.dropWhile, h.ne_nil, if_false, Bool.false_eq_true]
  | plus h => simp only [CText.signed, h.takeWhile, h.dropWhile, h.ne_nil, if_false, Bool.false_eq_true]
  | minus h => simp only [CText.signed, h.takeWhile, h.dropWhile, h.ne_nil, if_false, if_true]

theorem signed_cases (s : CText) :
    signed s = (false, s) ∨ (∃ t, s = 43 :: t ∧ signed s = (false, t)) ∨
      ∃ t, s = 45 :: t ∧ signed s = (true, t) := by
  unfold signed
  split
  · exact .inr (.inl ⟨_, rfl, rfl⟩)
  · exact .inr (.inr ⟨_, rfl, rfl⟩)
  · exact .inl rfl

theorem numeral_of_strtol {s : CText} (hne : s ≠ []) (hend : (strtol s).endptr = []) :
    ∃ spaces t n, s = spaces ++ t ∧ (∀ b ∈ spaces, isSpace b = true) ∧ Numeral t n := by
  have hsplit := List.takeWhile_append_dropWhile (p := isSpace) (l := s)
  have hspaces : ∀ b ∈ s.takeWhile isSpace, isSpace b = true := fun b hb => List.mem_takeWhile_imp hb
  -- the digits end the string: otherwise `endptr` is not at its end
  have hdigits : IsDigits (signed (s.dropWhile isSpace)).2 := by
    unfold strtol at hend
    generalize signed (s.dropWhile isSpace) = r at hend
    obtain ⟨minus, t⟩ := r
    simp only at hend ⊢
    by_cases hnil : t.takeWhile isDigit = []
    · rw [if_pos hnil] at hend
      exact absurd hend hne
    · rw [if_neg hnil] at hend
      have hdrop : t.dropWhile isDigit = [] := by split_ifs at hend <;> exact hend
      have hall := List.takeWhile_append_dropWhile (p := isDigit) (l := t)
      rw [hdrop, List.append_nil] at hall
      exact ⟨fun h => hnil (by rw [h]; rfl), List.takeWhile_eq_self_iff.mp hall⟩
  have hnumeral : ∃ n, Numeral (s.dropWhile isSpace) n := by
    rcases signed_cases (s.dropWhile isSpace) with hs | ⟨t, ht, hs⟩ | ⟨t, ht, hs⟩
    · rw [hs] at hdigits
      exact ⟨_, .unsigned hdigits⟩
    · rw [hs] at hdigits
      rw [ht]
      exact ⟨_, .plus hdigits⟩
    · rw [hs] at hdigits
      rw [ht]
      exact ⟨_, .minus hdigits⟩
  obtain ⟨n, hn⟩ := hnumeral
  exact ⟨_, _, n, hsplit.symm, hspaces, hn⟩

end CText
