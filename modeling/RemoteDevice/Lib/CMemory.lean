import Mathlib.Data.List.DropRight
import RemoteDevice.Lib.Checked
import RemoteDevice.Lib.CText

/-! C strings in arrays, and the functions of the C library that go through them byte by byte: they
stop with a fault where they leave the array. -/

namespace CMemory
open Checked CText

variable {α : Type} {n m : Nat}

def read (a : Buffer n α) (i : Nat) : Result α :=
  if h : i < n then pure (a ⟨i, h⟩) else throw .outOfBounds

def seekFrom (a : Buffer n α) (p : α → Bool) : Nat → Nat → Result Nat
  | 0, _ => throw .outOfBounds
  | left + 1, i => do
    let x ← read a i
    if p x then seekFrom a p left (i + 1) else pure i

def seek (a : Buffer n α) (p : α → Bool) (i : Nat) : Result Nat := seekFrom a p (n - i) i

def seekBack (a : Buffer n α) (p : α → Bool) (low : Nat) : Nat → Result Nat
  | 0 => pure 0
  | i + 1 =>
    if i + 1 > low then do
      let x ← read a (i + 1)
      if p x then seekBack a p low i else pure (i + 1)
    else pure (i + 1)

def fill (a : Buffer n α) : Nat → List α → Result (Buffer n α)
  | _, [] => pure a
  | i, x :: l => do
    let a ← a.write i x
    fill a (i + 1) l

def strlen (a : Buffer n UInt8) (i : Nat) : Result Nat := do
  let last ← seek a (· ≠ 0) i
  pure (last - i)

def strchr (a : Buffer n UInt8) (i : Nat) (c : UInt8) : Result (Option Nat) := do
  let place ← seek a (fun b => b ≠ c && b ≠ 0) i
  let b ← read a place
  pure (if b = c then some place else none)

def strcmpZero (a : Buffer n UInt8) : Nat → CText → Result Bool
  | i, [] => do
    let b ← read a i
    pure (b = 0)
  | i, c :: text => do
    let b ← read a i
    if b = c then strcmpZero a (i + 1) text else pure false

/-- `strncpy(dest + i, src + j, count)`, which fills up with NULs behind the string. -/
def strncpy (dest : Buffer m UInt8) (i : Nat) (src : Buffer n UInt8) (j : Nat) :
    Nat → Result (Buffer m UInt8)
  | 0 => pure dest
  | count + 1 => do
    let b ← read src j
    let dest ← dest.write i b
    if b = 0 then fill dest (i + 1) (List.replicate count 0)
    else strncpy dest (i + 1) src (j + 1) count

def textFrom (a : Buffer n UInt8) : Nat → Nat → Result CText
  | 0, _ => throw .outOfBounds
  | left + 1, i => do
    let b ← read a i
    if b = 0 then pure []
    else do
      let text ← textFrom a left (i + 1)
      pure (b :: text)

def text (a : Buffer n UInt8) (i : Nat) : Result CText := textFrom a (n - i) i

def linePiece : Nat → List UInt8 → List UInt8
  | 0, _ => []
  | _ + 1, [] => []
  | count + 1, b :: rest => if b = 10 then [b] else b :: linePiece count rest

def fgets (a : Buffer n UInt8) (size : Nat) (rest : List UInt8) :
    Result (Option (Buffer n UInt8 × List UInt8)) :=
  if rest = [] then pure none
  else do
    let a ← fill a 0 (linePiece (size - 1) rest ++ [0])
    pure (some (a, rest.drop (linePiece (size - 1) rest).length))

/-! ## What an array holds -/

def Spans (a : Buffer n α) : Nat → List α → Prop
  | _, [] => True
  | i, x :: l => read a i = .ok x ∧ Spans a (i + 1) l

variable {a b : Buffer n α} {i j k : Nat} {x : α} {l r : List α}

theorem lt_of_read (h : read a i = .ok x) : i < n := by
  by_contra hout
  rw [read, dif_neg hout] at h
  exact absurd h nofun

theorem write_lt (a : Buffer n α) (x : α) (h : i < n) :
    ∃ b, a.write i x = .ok b ∧ read b i = .ok x ∧ ∀ j ≠ i, read b j = read a j := by
  refine ⟨_, dif_pos h, ?_, ?_⟩
  · rw [read, dif_pos h, if_pos rfl]
    rfl
  · intro j hj
    rw [read, read]
    split
    · next hlt =>
      have hne : (⟨j, hlt⟩ : Fin n) ≠ ⟨i, h⟩ := fun heq => hj (congrArg Fin.val heq)
      rw [if_neg hne]
    · rfl

theorem write_fault (a : Buffer n α) (x : α) (h : n ≤ i) : a.write i x = .error .outOfBounds :=
  dif_neg (Nat.not_lt.mpr h)

theorem Spans.append_iff : Spans a i (l ++ r) ↔ Spans a i l ∧ Spans a (i + l.length) r := by
  induction l generalizing i with
  | nil => exact ⟨fun h => ⟨trivial, h⟩, And.right⟩
  | cons x l ih =>
    rw [List.cons_append, Spans, Spans, ih, List.length_cons, and_assoc, Nat.add_right_comm]
    rfl

theorem Spans.congr (h : Spans a i l) (hab : ∀ j, i ≤ j → j < i + l.length → read b j = read a j) :
    Spans b i l := by
  induction l generalizing i with
  | nil => exact trivial
  | cons x l ih =>
    rw [List.length_cons] at hab
    refine ⟨?_, ih h.2 fun j hle hlt => hab j (by omega) (by omega)⟩
    rw [hab i (Nat.le_refl i) (by omega)]
    exact h.1

theorem fill_spans (a : Buffer n α) (hfit : i + l.length ≤ n) :
    ∃ b, fill a i l = .ok b ∧ Spans b i l ∧
      ∀ j, j < i ∨ i + l.length ≤ j → read b j = read a j := by
  induction l generalizing a i with
  | nil => exact ⟨a, rfl, trivial, fun _ _ => rfl⟩
  | cons x l ih =>
    rw [List.length_cons] at hfit
    obtain ⟨c, hc, hnew, hold⟩ := write_lt a x (show i < n by omega)
    obtain ⟨b, hb, hspans, hrest⟩ := ih c (show i + 1 + l.length ≤ n by omega)
    refine ⟨b, ?_, ⟨?_, hspans⟩, ?_⟩
    · rw [fill, hc]
      exact hb
    · rw [hrest i (.inl (Nat.lt_succ_self i))]
      exact hnew
    · intro j hj
      rw [List.length_cons] at hj
      rw [hrest j (by omega), hold j (by omega)]

theorem fill_fault (a : Buffer n α) (hover : n < i + l.length) (hne : l ≠ []) :
    fill a i l = .error .outOfBounds := by
  induction l generalizing a i with
  | nil => exact absurd rfl hne
  | cons x l ih =>
    rw [List.length_cons] at hover
    rcases Nat.lt_or_ge i n with hlt | hge
    · obtain ⟨c, hc, -⟩ := write_lt a x hlt
      have hl : l ≠ [] := by
        rintro rfl
        rw [List.length_nil] at hover
        omega
      rw [fill, hc]
      exact ih c (by omega) hl
    · rw [fill, write_fault a x hge]
      rfl

/-! ## Strings -/

structure StringAt (a : Buffer n UInt8) (i : Nat) (s : CText) : Prop where
  noNul : 0 ∉ s
  spans : Spans a i (s ++ [0])

variable {a b : Buffer n UInt8} {s t : CText} {c : UInt8}

theorem StringAt.nul (h : StringAt a i s) : read a (i + s.length) = .ok 0 :=
  (Spans.append_iff.mp h.spans).2.1

theorem StringAt.lt (h : StringAt a i s) : i + s.length < n := lt_of_read h.nul

theorem StringAt.bytes (h : StringAt a i s) : Spans a i s := (Spans.append_iff.mp h.spans).1

theorem StringAt.head (h : StringAt a i s) : read a i = .ok (s.headD 0) := by
  cases s with
  | nil => exact h.nul
  | cons c s => exact h.spans.1

theorem StringAt.mk' (hnul : 0 ∉ s) (hbytes : Spans a i s) (hend : read a (i + s.length) = .ok 0) :
    StringAt a i s := ⟨hnul, Spans.append_iff.mpr ⟨hbytes, hend, trivial⟩⟩

theorem StringAt.drop (h : StringAt a i (s ++ t)) : StringAt a (i + s.length) t := by
  have hspans := h.spans
  rw [List.append_assoc] at hspans
  exact ⟨fun hmem => h.noNul (List.mem_append_right s hmem), (Spans.append_iff.mp hspans).2⟩

theorem StringAt.tail (h : StringAt a i (c :: s)) : StringAt a (i + 1) s := h.drop (s := [c])

theorem StringAt.congr (h : StringAt a i s)
    (hab : ∀ j, i ≤ j → j ≤ i + s.length → read b j = read a j) : StringAt b i s := by
  refine ⟨h.noNul, h.spans.congr ?_⟩
  intro j hle hlt
  rw [List.length_append, List.length_singleton] at hlt
  exact hab j hle (by omega)

theorem StringAt.cut (h : StringAt a i (s ++ t)) :
    ∃ b, a.write (i + s.length) 0 = .ok b ∧ StringAt b i s ∧
      ∀ j ≠ i + s.length, read b j = read a j := by
  have hlt := h.lt
  rw [List.length_append] at hlt
  obtain ⟨b, hb, hnew, hold⟩ := write_lt a (0 : UInt8) (show i + s.length < n by omega)
  refine ⟨b, hb, ?_, hold⟩
  apply StringAt.mk' (fun hmem => h.noNul (List.mem_append_left t hmem)) _ hnew
  exact (Spans.append_iff.mp h.bytes).1.congr fun j _ hj => hold j (by omega)

/-! ## The functions on strings -/

theorem StringAt.seek (h : StringAt a i s) {p : UInt8 → Bool} (hnul : p 0 = false) :
    CMemory.seek a p i = .ok (i + (s.takeWhile p).length) := by
  have hlt := h.lt
  rw [CMemory.seek]
  generalize hleft : n - i = left
  induction s generalizing i left with
  | nil =>
    obtain ⟨left, rfl⟩ := Nat.exists_eq_succ_of_ne_zero (show left ≠ 0 by
      rw [List.length_nil] at hlt
      omega)
    have hread : read a i = .ok 0 := h.nul
    rw [seekFrom, hread]
    simp only [bind, Except.bind, hnul, Bool.false_eq_true, if_false]
    rfl
  | cons c s ih =>
    rw [List.length_cons] at hlt
    obtain ⟨left, rfl⟩ := Nat.exists_eq_succ_of_ne_zero (show left ≠ 0 by omega)
    have hread : read a i = .ok c := h.head
    rw [seekFrom, hread]
    simp only [bind, Except.bind]
    cases hc : p c with
    | false =>
      rw [List.takeWhile_cons_of_neg (by rw [hc]; exact Bool.false_ne_true)]
      rfl
    | true =>
      rw [if_pos rfl, ih h.tail (by omega) left (by omega), List.takeWhile_cons_of_pos hc,
        List.length_cons]
      congr 1
      omega

theorem takeWhile_ne_zero (h : 0 ∉ s) : s.takeWhile (· ≠ 0) = s := by
  apply List.takeWhile_eq_self_iff.mpr
  intro b hb
  rw [decide_eq_true_eq]
  rintro rfl
  exact h hb

theorem StringAt.strlen (h : StringAt a i s) : CMemory.strlen a i = .ok s.length := by
  rw [CMemory.strlen, h.seek (by decide), takeWhile_ne_zero h.noNul]
  simp only [bind, Except.bind, Nat.add_sub_cancel_left]
  rfl

theorem StringAt.strcmpZero (h : StringAt a i s) {text : CText} (htext : 0 ∉ text) :
    CMemory.strcmpZero a i text = .ok (decide (s = text)) := by
  induction text generalizing i s with
  | nil =>
    cases s with
    | nil =>
      have hread : read a i = .ok 0 := h.head
      rw [CMemory.strcmpZero, hread]
      rfl
    | cons c s =>
      have hread : read a i = .ok c := h.head
      have hc : c ≠ 0 := fun hzero => h.noNul (hzero ▸ List.mem_cons_self)
      rw [CMemory.strcmpZero, hread, decide_eq_false (List.cons_ne_nil c s)]
      exact congrArg Except.ok (decide_eq_false hc)
  | cons d text ih =>
    cases s with
    | nil =>
      have hread : read a i = .ok 0 := h.head
      have hd : 0 ≠ d := fun hzero => htext (hzero ▸ List.mem_cons_self)
      rw [CMemory.strcmpZero, hread, decide_eq_false (List.cons_ne_nil d text).symm]
      exact if_neg hd
    | cons c s =>
      have hread : read a i = .ok c := h.head
      rw [CMemory.strcmpZero, hread]
      by_cases hcd : c = d
      · have hrest := ih h.tail fun hmem => htext (List.mem_cons_of_mem _ hmem)
        rw [hcd, decide_eq_decide.mpr (List.cons_inj_right d), ← hrest]
        exact if_pos rfl
      · have hne : c :: s ≠ d :: text := fun heq => hcd (List.cons.inj heq).1
        rw [decide_eq_false hne]
        exact if_neg hcd

theorem StringAt.text (h : StringAt a i s) : CMemory.text a i = .ok s := by
  have hlt := h.lt
  rw [CMemory.text]
  generalize hleft : n - i = left
  induction s generalizing i left with
  | nil =>
    obtain ⟨left, rfl⟩ := Nat.exists_eq_succ_of_ne_zero (show left ≠ 0 by
      rw [List.length_nil] at hlt
      omega)
    have hread : read a i = .ok 0 := h.nul
    rw [textFrom, hread]
    rfl
  | cons c s ih =>
    rw [List.length_cons] at hlt
    obtain ⟨left, rfl⟩ := Nat.exists_eq_succ_of_ne_zero (show left ≠ 0 by omega)
    have hc : c ≠ 0 := fun hzero => h.noNul (hzero ▸ List.mem_cons_self)
    have hread : read a i = .ok c := h.head
    rw [textFrom, hread]
    simp only [bind, Except.bind, if_neg hc, ih h.tail (by omega) left (by omega)]
    rfl

theorem takeWhile_and_ne_zero (h : 0 ∉ s) (c : UInt8) :
    s.takeWhile (fun b => b ≠ c && b ≠ 0) = s.takeWhile (· ≠ c) := by
  induction s with
  | nil => rfl
  | cons b s ih =>
    have hb : b ≠ 0 := fun hzero => h (hzero ▸ List.mem_cons_self)
    have hrest := ih fun hmem => h (List.mem_cons_of_mem _ hmem)
    rw [List.takeWhile_cons, List.takeWhile_cons, hrest]
    simp only [hb, ne_eq, not_false_eq_true, decide_true, Bool.and_true]

theorem StringAt.strchr_none (h : StringAt a i s) (hc : c ∉ s) (hne : c ≠ 0) :
    CMemory.strchr a i c = .ok none := by
  have hall : s.takeWhile (· ≠ c) = s := by
    apply List.takeWhile_eq_self_iff.mpr
    intro b hb
    rw [decide_eq_true_eq]
    rintro rfl
    exact hc hb
  have hseek := h.seek (p := fun b => b ≠ c && b ≠ 0) (by simp)
  rw [takeWhile_and_ne_zero h.noNul, hall] at hseek
  rw [CMemory.strchr, hseek]
  simp only [bind, Except.bind, h.nul, if_neg hne.symm]
  rfl

theorem StringAt.strchr_some (h : StringAt a i (s ++ c :: t)) (hc : c ∉ s) :
    CMemory.strchr a i c = .ok (some (i + s.length)) := by
  have hall : ∀ b ∈ s, decide (b ≠ c) = true := by
    intro b hb
    rw [decide_eq_true_eq]
    rintro rfl
    exact hc hb
  have hfront : (s ++ c :: t).takeWhile (· ≠ c) = s := by
    rw [List.takeWhile_append_of_pos hall, List.takeWhile_cons_of_neg (by simp), List.append_nil]
  have hseek := h.seek (p := fun b => b ≠ c && b ≠ 0) (by simp)
  rw [takeWhile_and_ne_zero h.noNul, hfront] at hseek
  have hread : read a (i + s.length) = .ok c := h.drop.head
  rw [CMemory.strchr, hseek]
  simp only [bind, Except.bind, hread, if_true]
  rfl

theorem StringAt.seekBack {p : UInt8 → Bool} (h : StringAt a i (c :: s)) :
    CMemory.seekBack a p i (i + s.length) = .ok (i + (s.rdropWhile p).length) := by
  have hspans := h.bytes
  clear h
  induction s using List.reverseRecOn with
  | nil =>
    rw [List.rdropWhile_nil]
    cases i with
    | zero => rfl
    | succ i => exact if_neg (Nat.lt_irrefl _)
  | append_singleton s d ih =>
    rw [← List.cons_append] at hspans
    obtain ⟨hfront, hd, -⟩ := Spans.append_iff.mp hspans
    have hread : read a (i + s.length + 1) = .ok d := hd
    rw [List.length_append, List.length_singleton, ← Nat.add_assoc, CMemory.seekBack,
      if_pos (show i + s.length + 1 > i by omega), hread, List.rdropWhile_concat]
    simp only [bind, Except.bind]
    cases hp : p d with
    | true => exact ih hfront
    | false =>
      rw [if_neg Bool.false_ne_true, if_neg Bool.false_ne_true, List.length_append,
        List.length_singleton, ← Nat.add_assoc]
      rfl

theorem StringAt.strncpy {src : Buffer n UInt8} (h : StringAt src j s) (dest : Buffer m UInt8)
    {count : Nat} (hfit : i + count ≤ m) :
    ∃ b, CMemory.strncpy dest i src j count = .ok b ∧
      Spans b i (s.take count ++ List.replicate (count - s.length) 0) ∧
      ∀ k, k < i ∨ i + count ≤ k → read b k = read dest k := by
  induction count generalizing s dest i j with
  | zero =>
    rw [List.take_zero, Nat.zero_sub]
    exact ⟨dest, rfl, trivial, fun _ _ => rfl⟩
  | succ count ih =>
    obtain ⟨d, hd, hnew, hold⟩ := write_lt dest (s.headD 0) (show i < m by omega)
    rw [CMemory.strncpy, h.head]
    simp only [bind, Except.bind, hd]
    cases s with
    | nil =>
      have hlen : (List.replicate count (0 : UInt8)).length = count := List.length_replicate
      obtain ⟨b, hb, hspans, hrest⟩ := fill_spans (l := List.replicate count 0) d
        (show i + 1 + (List.replicate count (0 : UInt8)).length ≤ m by omega)
      refine ⟨b, hb, ⟨?_, hspans⟩, ?_⟩
      · rw [hrest i (.inl (Nat.lt_succ_self i))]
        exact hnew
      · intro k hk
        rw [hrest k (by omega), hold k (by omega)]
    | cons c s =>
      have hc : ¬c = 0 := fun hzero => h.noNul (hzero ▸ List.mem_cons_self)
      obtain ⟨b, hb, hspans, hrest⟩ := ih h.tail d (show i + 1 + count ≤ m by omega)
      refine ⟨b, ?_, ?_, ?_⟩
      · rw [List.headD_cons, if_neg hc]
        exact hb
      · rw [List.take_succ_cons, List.length_cons, Nat.add_sub_add_right, List.cons_append]
        refine ⟨?_, hspans⟩
        rw [hrest i (.inl (Nat.lt_succ_self i))]
        exact hnew
      · intro k hk
        rw [hrest k (by omega), hold k (by omega)]

theorem StringAt.strncpy_fault {src : Buffer n UInt8} (h : StringAt src j s) (dest : Buffer m UInt8)
    {count : Nat} (hi : i ≤ m) (hover : m < i + count) :
    CMemory.strncpy dest i src j count = .error .outOfBounds := by
  induction count generalizing s dest i j with
  | zero => exact absurd hover (Nat.not_lt.mpr hi)
  | succ count ih =>
    rw [CMemory.strncpy, h.head]
    rcases Nat.lt_or_ge i m with hlt | hge
    · obtain ⟨d, hd, -⟩ := write_lt dest (s.headD 0) hlt
      simp only [bind, Except.bind, hd]
      cases s with
      | nil =>
        have hmore : count ≠ 0 := by omega
        have hlen : (List.replicate count (0 : UInt8)).length = count := List.length_replicate
        exact fill_fault d (by omega) fun hnil => hmore (List.replicate_eq_nil_iff _ |>.mp hnil)
      | cons c s =>
        have hc : ¬c = 0 := fun hzero => h.noNul (hzero ▸ List.mem_cons_self)
        rw [List.headD_cons, if_neg hc]
        exact ih h.tail d hlt (by omega)
    · simp only [bind, Except.bind, write_fault dest _ hge]

theorem StringAt.strncpy_terminated {src : Buffer n UInt8} (h : StringAt src j s)
    (dest : Buffer m UInt8) {count : Nat} (hfit : count < m) :
    ∃ b c, CMemory.strncpy dest 0 src j count = .ok b ∧ b.write count 0 = .ok c ∧
      StringAt c 0 (s.take count) := by
  obtain ⟨b, hb, hspans, -⟩ := h.strncpy dest (show 0 + count ≤ m by omega)
  obtain ⟨c, hc, hnew, hold⟩ := write_lt b (0 : UInt8) hfit
  obtain ⟨hcopy, hpad⟩ := Spans.append_iff.mp hspans
  refine ⟨b, c, hb, hc, ?_⟩
  have hlen : (s.take count).length = min count s.length := List.length_take
  apply StringAt.mk' (fun hmem => h.noNul (List.mem_of_mem_take hmem))
  · exact hcopy.congr fun k _ hk => hold k (by omega)
  · rcases Nat.lt_or_ge s.length count with hshort | hlong
    -- the string ends before, and the padding begins with a NUL
    · obtain ⟨more, hmore⟩ := Nat.exists_eq_add_of_lt hshort
      have hrest : count - s.length = more + 1 := by omega
      rw [hrest, List.replicate_succ] at hpad
      rw [hold _ (by omega)]
      exact hpad.1
    · have hend : 0 + (s.take count).length = count := by omega
      rw [hend]
      exact hnew

/-! ## Reading a file by lines -/

theorem linePiece_length (count : Nat) (rest : List UInt8) : (linePiece count rest).length ≤ count := by
  induction count generalizing rest with
  | zero => exact Nat.le_refl 0
  | succ count ih =>
    cases rest with
    | nil => exact Nat.zero_le _
    | cons b rest =>
      rw [linePiece]
      split
      · exact Nat.succ_le_succ (Nat.zero_le count)
      · exact Nat.succ_le_succ (ih rest)

theorem linePiece_line (count : Nat) {l : List UInt8} (hl : 10 ∉ l) (hcount : l.length < count)
    (rest : List UInt8) : linePiece count (l ++ 10 :: rest) = l ++ [10] := by
  induction l generalizing count with
  | nil =>
    obtain ⟨count, rfl⟩ := Nat.exists_eq_succ_of_ne_zero (Nat.ne_of_gt hcount)
    rfl
  | cons b l ih =>
    obtain ⟨count, rfl⟩ := Nat.exists_eq_succ_of_ne_zero (Nat.ne_of_gt (Nat.lt_of_le_of_lt (Nat.zero_le _) hcount))
    have hb : ¬b = 10 := fun heq => hl (heq ▸ List.mem_cons_self)
    rw [List.cons_append, linePiece, if_neg hb,
      ih count (fun hmem => hl (List.mem_cons_of_mem _ hmem)) (Nat.lt_of_succ_lt_succ hcount)]
    rfl

theorem linePiece_full {l : List UInt8} (hl : 10 ∉ l) (count : Nat) (hcount : l.length ≤ count)
    {rest : List UInt8} (hrest : rest = [] ∨ count = l.length) : linePiece count (l ++ rest) = l := by
  induction l generalizing count with
  | nil =>
    rcases hrest with rfl | rfl
    · cases count <;> rfl
    · rfl
  | cons b l ih =>
    obtain ⟨count, rfl⟩ := Nat.exists_eq_succ_of_ne_zero (Nat.ne_of_gt (Nat.lt_of_lt_of_le (Nat.succ_pos _) hcount))
    have hb : ¬b = 10 := fun heq => hl (heq ▸ List.mem_cons_self)
    have hrest' : rest = [] ∨ count = l.length := hrest.imp_right Nat.succ.inj
    rw [List.cons_append, linePiece, if_neg hb,
      ih (fun hmem => hl (List.mem_cons_of_mem _ hmem)) count (Nat.le_of_succ_le_succ hcount) hrest']

theorem fgets_string (a : Buffer n UInt8) {size : Nat} (hsize : 0 < size) (hfit : size ≤ n)
    {rest : List UInt8} (h : rest ≠ []) :
    ∃ b, fgets a size rest =
        .ok (some (b, rest.drop (linePiece (size - 1) rest).length)) ∧
      StringAt b 0 (ofBuffer (linePiece (size - 1) rest)) := by
  have hlen := linePiece_length (size - 1) rest
  have hall : (linePiece (size - 1) rest ++ [0]).length = (linePiece (size - 1) rest).length + 1 :=
    List.length_append
  obtain ⟨b, hb, hspans, -⟩ := fill_spans a (show 0 + (linePiece (size - 1) rest ++ [0]).length ≤ n by omega)
  refine ⟨b, ?_, ?_⟩
  · rw [fgets, if_neg h, hb]
    rfl
  · generalize linePiece (size - 1) rest = piece at hspans
    have hnul : 0 ∉ ofBuffer piece := by
      intro hmem
      have hne := List.mem_takeWhile_imp hmem
      exact absurd hne (by decide)
    -- the first NUL may be one of the file
    have hsplit := List.takeWhile_append_dropWhile (p := fun b : UInt8 => decide (b ≠ 0)) (l := piece)
    rw [← hsplit, List.append_assoc] at hspans
    obtain ⟨hbytes, hbehind⟩ := Spans.append_iff.mp hspans
    apply StringAt.mk' hnul hbytes
    cases hdrop : piece.dropWhile fun b : UInt8 => decide (b ≠ 0) with
    | nil =>
      rw [hdrop] at hbehind
      exact hbehind.1
    | cons c more =>
      rw [hdrop] at hbehind
      have hc : c = 0 := by
        have hstop := delim_of_dropWhile hdrop
        simpa using hstop
      rw [← hc]
      exact hbehind.1

end CMemory
