import Mathlib.Algebra.Group.Int.Defs
import Mathlib.Data.List.TakeWhile

/-! C strings as their bytes before the terminating NUL, and the functions of the C library that
read them, in the C locale. -/

abbrev CText := List UInt8

namespace CText

def ascii (s : String) : CText := s.toList.map fun c => c.toNat.toUInt8

def ofBuffer (bytes : List UInt8) : CText := bytes.takeWhile (· ≠ 0)

theorem ofBuffer_eq {bytes : List UInt8} (h : 0 ∉ bytes) : ofBuffer bytes = bytes := by
  apply List.takeWhile_eq_self_iff.mpr
  intro b hb
  simp only [decide_eq_true_eq]
  exact fun h0 => h (h0 ▸ hb)

def decimal (n : Int) : CText :=
  let digits := (Nat.toDigits 10 n.natAbs).map fun c => c.toNat.toUInt8
  if n < 0 then 45 :: digits else digits

def tolower (b : UInt8) : UInt8 := if 65 ≤ b ∧ b ≤ 90 then b + 32 else b

def caseEq (left right : CText) : Bool := left.map tolower = right.map tolower

/-! ## strtol -/

def isSpace (b : UInt8) : Bool := b = 32 || (9 ≤ b && b ≤ 13)

def isDigit (b : UInt8) : Bool := 48 ≤ b && b ≤ 57

def digitsValue (digits : CText) : Nat := digits.foldl (fun n b => 10 * n + (b.toNat - 48)) 0

/-- The number returned, the string at `endptr`, and whether `errno` is `ERANGE`. -/
structure Strtol where
  number : Int
  endptr : CText
  erange : Bool
  deriving DecidableEq

def signed : CText → Bool × CText
  | 43 :: s => (false, s)
  | 45 :: s => (true, s)
  | s => (false, s)

/-- `strtol(s, &endptr, 10)` with a 64-bit `long`. Without digits `endptr` is `s` itself. -/
def strtol (s : CText) : Strtol :=
  let (minus, t) := signed (s.dropWhile isSpace)
  let digits := t.takeWhile isDigit
  let endptr := t.dropWhile isDigit
  if digits = [] then ⟨0, s, false⟩
  else
    let number : Int := if minus then -digitsValue digits else digitsValue digits
    if number < -2 ^ 63 then ⟨-2 ^ 63, endptr, true⟩
    else if 2 ^ 63 ≤ number then ⟨2 ^ 63 - 1, endptr, true⟩
    else ⟨number, endptr, false⟩

/-! ## strtok_r -/

def strtok (delim : UInt8 → Bool) (s : CText) : Option (CText × CText) :=
  match s.dropWhile delim with
  | [] => none
  | b :: s => some (b :: s.takeWhile (!delim ·), (s.dropWhile (!delim ·)).drop 1)

def tokens (delim : UInt8 → Bool) (s : CText) : List CText :=
  (s.splitOnP delim).filter (!·.isEmpty)

variable {delim : UInt8 → Bool}

theorem tokens_nil : tokens delim [] = [] := rfl

theorem tokens_cons_delim {b : UInt8} {s : CText} (h : delim b) :
    tokens delim (b :: s) = tokens delim s := by
  simp [tokens, List.splitOnP_cons_eq_if_modifyHead, h]

theorem tokens_dropWhile (s : CText) : tokens delim (s.dropWhile delim) = tokens delim s := by
  induction s with
  | nil => rfl
  | cons b s ih =>
    rw [List.dropWhile_cons]
    split
    · next h => rw [ih, tokens_cons_delim h]
    · rfl

theorem tokens_append_delim (s t : CText) {b : UInt8} (h : delim b) :
    tokens delim (s ++ b :: t) = tokens delim s ++ tokens delim t := by
  rw [tokens, List.splitOnP_append_cons _ _ h, List.filter_append]
  rfl

theorem delim_of_dropWhile {s t : CText} {b : UInt8} (h : s.dropWhile delim = b :: t) :
    delim b = false := by
  have hlt : 0 < (s.dropWhile delim).length := by simp [h]
  have hb := List.dropWhile_get_zero_not delim s hlt
  simpa [h] using hb

theorem tokens_of_not_delim {s : CText} (hne : s ≠ []) (h : ∀ b ∈ s, delim b = false) :
    tokens delim s = [s] := by
  rw [tokens, List.splitOnP_eq_singleton h]
  simp [hne]

theorem tokens_eq (s : CText) : tokens delim s =
    match strtok delim s with
    | none => []
    | some (token, rest) => token :: tokens delim rest := by
  rw [← tokens_dropWhile, strtok]
  cases h : s.dropWhile delim with
  | nil => rfl
  | cons b t =>
    have hb := delim_of_dropWhile h
    have htoken : ∀ c ∈ b :: t.takeWhile (!delim ·), delim c = false := by
      intro c hc
      rcases List.mem_cons.mp hc with rfl | hc
      · exact hb
      · simpa using List.mem_takeWhile_imp hc
    have hsplit := List.takeWhile_append_dropWhile (p := (!delim ·)) (l := t)
    simp only
    cases hrest : t.dropWhile (!delim ·) with
    | nil =>
      rw [hrest, List.append_nil] at hsplit
      rw [hsplit] at htoken ⊢
      exact tokens_of_not_delim (List.cons_ne_nil b t) htoken
    | cons d u =>
      rw [hrest] at hsplit
      have hd : delim d := by simpa using delim_of_dropWhile hrest
      conv => left; rw [← hsplit, ← List.cons_append, tokens_append_delim _ _ hd,
        tokens_of_not_delim (List.cons_ne_nil _ _) htoken]
      rfl

end CText
