import RemoteDevice.Lib.CMemory

/-! `fgets` on a stream that is filled by calls of `read`. -/

namespace LineInput
open CMemory

inductive Read
  | data (bytes : List UInt8)
  | eof
  | error
  deriving DecidableEq

inductive Line
  | piece (bytes : List UInt8)
  | eof
  | error
  deriving DecidableEq

/-- What has been read and not been taken yet, and the end-of-file indicator. -/
structure Stream where
  input : List UInt8 := []
  eof : Bool := false
  deriving DecidableEq

def enough (count : Nat) (input : List UInt8) : Bool := 10 ∈ input.take count || count ≤ input.length

/-- `fgets(buffer, count + 1, file)` with the answers of the calls of `read` that it makes. An error
loses what it has taken, the indicator keeps it from reading again. -/
def fgets (count : Nat) (file : Stream) (reads : List Read) : Option (Line × Stream) :=
  if enough count file.input then
    if reads = [] then
      let piece := linePiece count file.input
      some (.piece piece, { file with input := file.input.drop piece.length })
    else none
  else if file.eof then
    if reads = [] then
      some (if file.input = [] then .eof else .piece file.input, { file with input := [] })
    else none
  else
    match reads with
    | [] => none
    | .data bytes :: reads =>
      if bytes = [] then none else fgets count { file with input := file.input ++ bytes } reads
    | .eof :: reads => fgets count { file with eof := true } reads
    | .error :: reads => if reads = [] then some (.error, { file with input := [] }) else none

def readBytes (reads : List Read) : List UInt8 := reads.flatMap fun
  | .data bytes => bytes
  | .eof | .error => []

variable {count : Nat} {file file' : Stream} {reads : List Read} {piece input : List UInt8}

structure IsPiece (count : Nat) (piece : List UInt8) : Prop where
  ne_nil : 0 < count → piece ≠ []
  length : piece.length ≤ count
  newline : 10 ∉ piece.dropLast

theorem linePiece_newline (count : Nat) (input : List UInt8) : 10 ∉ (linePiece count input).dropLast := by
  induction count generalizing input with
  | zero => exact List.not_mem_nil
  | succ count ih =>
    cases input with
    | nil => exact List.not_mem_nil
    | cons b input =>
      rw [linePiece]
      split
      · exact List.not_mem_nil
      · next hb =>
        have hrest := ih input
        cases hpiece : linePiece count input with
        | nil => exact List.not_mem_nil
        | cons c piece =>
          rw [hpiece] at hrest
          rw [List.dropLast_cons_cons]
          intro hmem
          rcases List.mem_cons.mp hmem with heq | hmem
          · exact hb heq.symm
          · exact hrest hmem

theorem linePiece_initial (count : Nat) (input : List UInt8) : linePiece count input <+: input := by
  induction count generalizing input with
  | zero => exact List.nil_prefix
  | succ count ih =>
    cases input with
    | nil => exact List.nil_prefix
    | cons b input =>
      rw [linePiece]
      split
      · exact ⟨input, rfl⟩
      · exact List.cons_prefix_cons.mpr ⟨rfl, ih input⟩

theorem linePiece_ne_nil (hcount : 0 < count) (hinput : input ≠ []) : linePiece count input ≠ [] := by
  obtain ⟨count, rfl⟩ := Nat.exists_eq_succ_of_ne_zero (Nat.ne_of_gt hcount)
  obtain ⟨b, input, rfl⟩ := List.exists_cons_of_ne_nil hinput
  rw [linePiece]
  split <;> exact List.cons_ne_nil _ _

theorem not_enough (h : enough count input = false) : 10 ∉ input ∧ input.length < count := by
  simp only [enough, Bool.or_eq_false_iff, decide_eq_false_iff_not, Nat.not_le] at h
  have htake : input.take count = input := List.take_of_length_le (Nat.le_of_lt h.2)
  rw [htake] at h
  exact h

theorem fgets_piece (h : fgets count file reads = some (.piece piece, file')) :
    IsPiece count piece ∧ piece ++ file'.input = file.input ++ readBytes reads := by
  -- on the answers to `read`, each of which adds to what is buffered
  induction reads generalizing file with
  | nil =>
    rw [fgets.eq_def] at h
    split at h
    · next henough =>
      obtain ⟨hpiece, hfile⟩ := Prod.ext_iff.mp (Option.some.inj h)
      cases hpiece
      cases hfile
      refine ⟨⟨fun hcount => linePiece_ne_nil hcount ?_, linePiece_length .., linePiece_newline _ _⟩, ?_⟩
      · rintro hnil
        rw [hnil, enough, List.take_nil] at henough
        simp only [List.not_mem_nil, decide_false, Bool.false_or, decide_eq_true_eq, List.length_nil] at henough
        omega
      · have hsplit : linePiece count file.input ++ file.input.drop (linePiece count file.input).length =
            file.input := by
          rw [← List.prefix_iff_eq_append]
          exact linePiece_initial ..
        exact hsplit.trans (List.append_nil _).symm
    · next henough =>
      have hnot := not_enough (Bool.eq_false_iff.mpr henough)
      split at h
      · obtain ⟨hpiece, hfile⟩ := Prod.ext_iff.mp (Option.some.inj h)
        cases hfile
        simp only at hpiece
        split at hpiece
        · cases hpiece
        · next hne =>
          cases hpiece
          exact ⟨⟨fun _ => hne, Nat.le_of_lt hnot.2, fun hmem => hnot.1 (List.dropLast_subset _ hmem)⟩, rfl⟩
      · cases h
  | cons r reads ih =>
    rw [fgets.eq_def] at h
    split at h
    · rw [if_neg (List.cons_ne_nil _ _)] at h
      cases h
    split at h
    · rw [if_neg (List.cons_ne_nil _ _)] at h
      cases h
    cases r with
    | data bytes =>
      simp only [Option.ite_none_left_eq_some] at h
      obtain ⟨hpiece, hsplit⟩ := ih h.2
      exact ⟨hpiece, hsplit.trans (List.append_assoc ..)⟩
    | eof =>
      have hend : fgets count { file with eof := true } reads = some (.piece piece, file') := h
      obtain ⟨hpiece, hsplit⟩ := ih hend
      exact ⟨hpiece, hsplit⟩
    | error =>
      simp only at h
      split at h <;> cases h

theorem fgets_eof (h : fgets count file reads = some (.eof, file')) :
    file.input = [] ∧ readBytes reads = [] ∧ file'.input = [] := by
  induction reads generalizing file with
  | nil =>
    rw [fgets] at h
    split at h
    · cases h
    split at h
    · obtain ⟨hline, hfile⟩ := Prod.ext_iff.mp (Option.some.inj h)
      cases hfile
      simp only at hline
      split at hline
      · next hnil => exact ⟨hnil, rfl, rfl⟩
      · cases hline
    · cases h
  | cons r reads ih =>
    rw [fgets.eq_def] at h
    split at h
    · rw [if_neg (List.cons_ne_nil _ _)] at h
      cases h
    split at h
    · rw [if_neg (List.cons_ne_nil _ _)] at h
      cases h
    cases r with
    | data bytes =>
      simp only [Option.ite_none_left_eq_some] at h
      obtain ⟨hinput, -⟩ := ih h.2
      exact absurd (List.append_eq_nil_iff.mp hinput).2 h.1
    | eof =>
      have hend : fgets count { file with eof := true } reads = some (.eof, file') := h
      obtain ⟨hinput, hreads, hleft⟩ := ih hend
      exact ⟨hinput, hreads, hleft⟩
    | error =>
      simp only at h
      split at h <;> cases h

theorem fgets_error (h : fgets count file reads = some (.error, file')) : .error ∈ reads := by
  induction reads generalizing file with
  | nil =>
    rw [fgets] at h
    split at h
    · cases h
    split at h
    · obtain ⟨hline, -⟩ := Prod.ext_iff.mp (Option.some.inj h)
      simp only at hline
      split at hline <;> cases hline
    · cases h
  | cons r reads ih =>
    rw [fgets.eq_def] at h
    split at h
    · rw [if_neg (List.cons_ne_nil _ _)] at h
      cases h
    split at h
    · rw [if_neg (List.cons_ne_nil _ _)] at h
      cases h
    cases r with
    | data bytes =>
      simp only [Option.ite_none_left_eq_some] at h
      exact List.mem_cons_of_mem _ (ih h.2)
    | eof =>
      have hend : fgets count { file with eof := true } reads = some (.error, file') := h
      exact List.mem_cons_of_mem _ (ih hend)
    | error => exact List.mem_cons_self

end LineInput
