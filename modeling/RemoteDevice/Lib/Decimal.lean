import RemoteDevice.Lib.Numeral

/-! What `%d` prints, and that `strtol` reads it back. -/

namespace CText

def digits (n : Nat) : CText := (Nat.toDigits 10 n).map fun c => c.toNat.toUInt8

theorem decimal_eq (n : Int) : decimal n = if n < 0 then 45 :: digits n.natAbs else digits n.natAbs := rfl

theorem toNat_of_isDigit {c : Char} (h : c.isDigit = true) :
    c.toNat.toUInt8.toNat = c.toNat ∧ 48 ≤ c.toNat ∧ c.toNat ≤ 57 := by
  simp only [Char.isDigit, Bool.and_eq_true, decide_eq_true_eq, UInt32.le_iff_toNat_le] at h
  have hlow : 48 ≤ c.toNat := h.1
  have hhigh : c.toNat ≤ 57 := h.2
  refine ⟨?_, hlow, hhigh⟩
  rw [Nat.toUInt8, UInt8.toNat_ofNat']
  omega

theorem isDigit_of_mem_digits {n : Nat} {b : UInt8} (h : b ∈ digits n) : isDigit b = true := by
  obtain ⟨c, hc, rfl⟩ := List.mem_map.mp h
  have hdigit := Nat.isDigit_of_mem_toDigits (by decide) (by decide) hc
  obtain ⟨hbyte, hlow, hhigh⟩ := toNat_of_isDigit hdigit
  simp only [isDigit, Bool.and_eq_true, decide_eq_true_eq, UInt8.le_iff_toNat_le]
  rw [hbyte]
  exact ⟨hlow, hhigh⟩

theorem isDigits_digits (n : Nat) : IsDigits (digits n) where
  ne_nil := fun h => Nat.toDigits_ne_nil (List.map_eq_nil_iff.mp h)
  digits := fun _ => isDigit_of_mem_digits

theorem foldl_digits (cs : List Char) (h : ∀ c ∈ cs, c.isDigit = true) (init : Nat) :
    (cs.map fun c => c.toNat.toUInt8).foldl (fun n b => 10 * n + (b.toNat - 48)) init =
      Nat.ofDigitChars 10 cs init := by
  induction cs generalizing init with
  | nil => rfl
  | cons c cs ih =>
    obtain ⟨hbyte, -⟩ := toNat_of_isDigit (h c List.mem_cons_self)
    rw [List.map_cons, List.foldl_cons, Nat.ofDigitChars_cons, hbyte,
      ih fun d hd => h d (List.mem_cons_of_mem _ hd)]
    rfl

theorem digitsValue_digits (n : Nat) : digitsValue (digits n) = n := by
  rw [digitsValue, digits, foldl_digits _ fun c hc => Nat.isDigit_of_mem_toDigits (by decide) (by decide) hc]
  exact Nat.ofDigitChars_ten_toDigits

theorem numeral_decimal (n : Int) : Numeral (decimal n) n := by
  rw [decimal_eq]
  split
  · next hneg =>
    have hminus := Numeral.minus (isDigits_digits n.natAbs)
    rwa [digitsValue_digits, show -(n.natAbs : Int) = n by omega] at hminus
  · next hpos =>
    have hplain := Numeral.unsigned (isDigits_digits n.natAbs)
    rwa [digitsValue_digits, show (n.natAbs : Int) = n by omega] at hplain

theorem strtol_decimal {n : Int} (hlow : -2 ^ 63 ≤ n) (hhigh : n < 2 ^ 63) :
    strtol (decimal n) = ⟨n, [], false⟩ := by
  have hread := (numeral_decimal n).strtol (fun b (h : b ∈ []) => absurd h List.not_mem_nil)
  rwa [List.nil_append, if_neg (by omega), if_neg (by omega)] at hread

theorem decimal_length {n : Int} (hlow : -2 ^ 31 ≤ n) (hhigh : n < 2 ^ 31) : (decimal n).length ≤ 11 := by
  have hten : (digits n.natAbs).length ≤ 10 := by
    rw [digits, List.length_map]
    apply (Nat.length_toDigits_le_iff (by decide) (by decide)).mpr
    omega
  rw [decimal_eq]
  split
  · rw [List.length_cons]
    omega
  · omega

theorem mem_decimal {n : Int} {b : UInt8} (h : b ∈ decimal n) : b = 45 ∨ isDigit b = true := by
  rw [decimal_eq] at h
  split at h
  · rcases List.mem_cons.mp h with hminus | hdigit
    · exact .inl hminus
    · exact .inr (isDigit_of_mem_digits hdigit)
  · exact .inr (isDigit_of_mem_digits h)

end CText
