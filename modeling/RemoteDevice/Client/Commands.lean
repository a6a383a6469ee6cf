import RemoteDevice.Client.Console
import RemoteDevice.Command.Reply

/-! What the console sends: one command for each line for the server, in the order in which the lines
were typed. -/

namespace RemoteDevice.Client
open CText LineInput

def wire (piece : List UInt8) : Option CText :=
  let line := trimNewline (ofBuffer piece)
  if isBlank line then none
  else
    match localCommand line with
    | some .quit => some (ascii "QUIT\n")
    | some _ => none
    | none => some (commandText line)

structure IsCommand (c : CText) : Prop where
  ne_nil : c ≠ []
  size : c.length ≤ bufferSize - 1
  nulFree : 0 ∉ c
  oneLine : lineEnd ∉ c.dropLast

variable {piece line s : CText}

/-! ## One piece -/

theorem trimNewline_initial (s : CText) : trimNewline s <+: s := List.rdropWhile_prefix _ _

theorem trimNewline_getLast (h : trimNewline s ≠ []) : (trimNewline s).getLast h ≠ lineEnd := by
  intro heq
  have hlast := List.rdropWhile_last_not (fun b : UInt8 => b = 10 || b = 13) s h
  apply hlast
  have hten : (trimNewline s).getLast h = 10 := heq
  simp only [trimNewline] at hten
  simp [hten]

theorem lineEnd_not_mem_line (hpiece : lineEnd ∉ piece.dropLast) :
    lineEnd ∉ trimNewline (ofBuffer piece) := by
  intro hmem
  have hpre : trimNewline (ofBuffer piece) <+: piece :=
    (trimNewline_initial _).trans (List.takeWhile_prefix _)
  have hne : trimNewline (ofBuffer piece) ≠ [] := List.ne_nil_of_mem hmem
  have hlast := trimNewline_getLast hne
  obtain ⟨rest, hrest⟩ := hpre
  rw [← List.dropLast_append_getLast hne] at hmem
  apply hpiece
  rw [← hrest]
  rcases List.mem_append.mp hmem with hmem | hmem
  · cases rest with
    | nil => rwa [List.append_nil]
    | cons b rest =>
      rw [List.dropLast_append_of_ne_nil (List.cons_ne_nil _ _)]
      exact List.mem_append_left _ (List.dropLast_subset _ hmem)
  · exact absurd (List.mem_singleton.mp hmem).symm hlast

theorem nul_not_mem_line (piece : List UInt8) : 0 ∉ trimNewline (ofBuffer piece) := by
  intro hmem
  have hkept := List.mem_takeWhile_imp ((trimNewline_initial _).subset hmem)
  exact absurd hkept (by decide)

theorem commandText_isCommand (hend : lineEnd ∉ line) (hnul : 0 ∉ line) : IsCommand (commandText line) := by
  have hpre : commandText line <+: line ++ [lineEnd] := List.take_prefix ..
  constructor
  · intro hnil
    have hlength := congrArg List.length hnil
    rw [commandText, snprintf, List.length_take, List.length_append] at hlength
    have hone : (ascii "\n").length = 1 := rfl
    simp only [bufferSize, List.length_nil] at hlength
    omega
  · exact List.length_take_le ..
  · intro hmem
    rcases List.mem_append.mp (hpre.subset hmem) with hmem | hmem
    · exact hnul hmem
    · exact absurd (List.mem_singleton.mp hmem) (by decide)
  · intro hmem
    -- all but the last byte of a prefix of the line and its end is of the line
    have hdrop : (commandText line).dropLast <+: (line ++ [lineEnd]).dropLast := by
      rw [List.dropLast_eq_take, List.dropLast_eq_take, List.prefix_iff_eq_take]
      obtain ⟨rest, hrest⟩ := hpre
      have hlength := congrArg List.length hrest
      rw [List.length_append] at hlength
      rw [← hrest, List.take_take, List.length_take, List.take_append_of_le_length (by omega)]
      congr 1
      rw [List.length_append]
      omega
    rw [List.dropLast_concat] at hdrop
    exact hend (hdrop.subset hmem)

theorem wire_isCommand (hpiece : IsPiece maxPiece piece) {c : CText} (h : wire piece = some c) :
    IsCommand c := by
  unfold wire at h
  simp only at h
  split at h
  · cases h
  split at h
  · cases h
    exact ⟨by decide, by decide, by decide, by decide⟩
  · cases h
  · cases h
    exact commandText_isCommand (lineEnd_not_mem_line hpiece.newline) (nul_not_mem_line piece)

/-! ## What the server parses -/

theorem lineTokens_append_delims (s : CText) {ends : CText} (h : ∀ b ∈ ends, isDelim b = true) :
    lineTokens (s ++ ends) = lineTokens s := by
  induction ends generalizing s with
  | nil => rw [List.append_nil]
  | cons b ends ih =>
    have hrest : lineTokens ends = [] := by
      have hnil := ih [] fun c hc => h c (List.mem_cons_of_mem _ hc)
      rwa [List.nil_append] at hnil
    have hsplit : lineTokens (s ++ b :: ends) = lineTokens s ++ lineTokens ends :=
      tokens_append_delim _ _ (h b List.mem_cons_self)
    rw [hsplit, hrest, List.append_nil]

theorem lineTokens_trimNewline (s : CText) : lineTokens (trimNewline s) = lineTokens s := by
  obtain ⟨ends, hends⟩ := trimNewline_initial s
  have hdelims : ∀ b ∈ ends, isDelim b = true := by
    have htake : ends = s.rtakeWhile fun b => b = 10 || b = 13 := by
      have hsplit : trimNewline s ++ s.rtakeWhile (fun b => b = 10 || b = 13) = s :=
        List.rdropWhile_append_rtakeWhile
      exact List.append_cancel_left (hends.trans hsplit.symm)
    intro b hb
    rw [htake] at hb
    have hb := List.mem_rtakeWhile_imp hb
    simp only [Bool.or_eq_true, decide_eq_true_eq] at hb
    rcases hb with rfl | rfl <;> rfl
  conv => right; rw [← hends]
  exact (lineTokens_append_delims _ hdelims).symm

theorem commandParse_commandText (s : CText) :
    commandParse (commandText (trimNewline s)) =
      if (trimNewline s).length + 1 < commandLineMax then parseTokens (lineTokens s)
      else { type := .invalid } := by
  have hlength : (commandText (trimNewline s)).length = min (bufferSize - 1) ((trimNewline s).length + 1) := by
    rw [commandText, snprintf, List.length_take, List.length_append]
    rfl
  split
  · next hshort =>
    have hwhole : commandText (trimNewline s) = trimNewline s ++ [10] := by
      apply snprintf_eq
      rw [List.length_append]
      exact Nat.lt_trans hshort (by decide)
    have hfits : (commandText (trimNewline s)).length < commandLineMax := by
      rw [hlength]
      exact Nat.lt_of_le_of_lt (Nat.min_le_right ..) hshort
    have hend : ∀ b ∈ [(10 : UInt8)], isDelim b = true := fun _ hb => List.mem_singleton.mp hb ▸ rfl
    rw [commandParse_eq hfits, hwhole, lineTokens_append_delims _ hend, lineTokens_trimNewline]
  · next hlong =>
    apply commandParse_long
    rw [hlength]
    exact Nat.le_min.mpr ⟨by decide, Nat.not_lt.mp hlong⟩

/-! ## Runs -/

def State.unsent (s : State) : List CText :=
  match s.pc with
  | .sending => [commandText s.buffer]
  | .quitting => [ascii "QUIT\n"]
  | _ => []

def Action.isQuiet : Action → Bool
  | .fgets _ | .recv (.data _) | .send _ => false
  | _ => true

def Print.response? : Print → Option CText
  | .response text => some text
  | _ => none

def State.shown (s : State) : List CText := s.screen.filterMap Print.response?

inductive Effect (s t : State) : Action → Prop
  | quiet (a : Action) (hfile : t.file = s.file) (hpieces : t.pieces = s.pieces) (hsent : t.sent = s.sent)
      (hreceived : t.received = s.received) (hshown : t.shown = s.shown)
      (hunsent : t.unsent = s.unsent) (ha : a.isQuiet = true) : Effect s t a
  | received (bytes : List UInt8) (hpc : s.pc = .receiving)
      (hbytes : bytes ≠ [] ∧ bytes.length ≤ bufferSize - 1) (hfile : t.file = s.file)
      (hpieces : t.pieces = s.pieces) (hsent : t.sent = s.sent)
      (hreceived : t.received = bytes :: s.received) (hshown : t.shown = ofBuffer bytes :: s.shown)
      (hunsent : t.unsent = s.unsent) : Effect s t (.recv (.data bytes))
  | typed (reads : List Read) (piece : List UInt8)
      (hread : LineInput.fgets maxPiece s.file reads = some (.piece piece, t.file))
      (hpieces : t.pieces = piece :: s.pieces) (hsent : t.sent = s.sent)
      (hreceived : t.received = s.received) (hshown : t.shown = s.shown) (hpc : s.unsent = [])
      (hunsent : t.unsent = (wire piece).toList) : Effect s t (.fgets reads)
  | ended (reads : List Read) (line : Line) (file : LineInput.Stream)
      (hread : LineInput.fgets maxPiece s.file reads = some (line, file))
      (hline : line = .eof ∨ line = .error) (hfile : t.file = { file with eof := false })
      (hpieces : t.pieces = s.pieces) (hsent : t.sent = s.sent) (hreceived : t.received = s.received)
      (hshown : t.shown = s.shown) (hunsent : t.unsent = s.unsent) : Effect s t (.fgets reads)
  | sent (c : CText) (hpc : s.unsent = [c]) (hfile : t.file = s.file) (hpieces : t.pieces = s.pieces)
      (hsent : t.sent = c :: s.sent) (hreceived : t.received = s.received) (hshown : t.shown = s.shown)
      (hunsent : t.unsent = []) : Effect s t (.send true)
  | lost (c : CText) (hpc : s.unsent = [c]) (hfile : t.file = s.file) (hpieces : t.pieces = s.pieces)
      (hsent : t.sent = s.sent) (hreceived : t.received = s.received) (hshown : t.shown = s.shown)
      (hend : t.pc = .left ∨ t.pc = .exited) : Effect s t (.send false)

variable {t : State} {a : Action} {as : List Action}

section
variable {s : State}

theorem State.unsent_eq_nil (h : s.pc ≠ .sending ∧ s.pc ≠ .quitting) : s.unsent = [] := by
  unfold State.unsent
  split
  · exact absurd ‹_› h.1
  · exact absurd ‹_› h.2
  · rfl

theorem handleLine_effect {file : LineInput.Stream} {piece : List UInt8} :
    (handleLine s file piece).file = file ∧ (handleLine s file piece).pieces = piece :: s.pieces ∧
      (handleLine s file piece).sent = s.sent ∧ (handleLine s file piece).received = s.received ∧
      (handleLine s file piece).shown = s.shown ∧
      (handleLine s file piece).unsent = (wire piece).toList := by
  unfold handleLine wire
  simp only
  split
  · exact ⟨rfl, rfl, rfl, rfl, rfl, rfl⟩
  · cases localCommand (trimNewline (ofBuffer piece)) with
    | none => exact ⟨rfl, rfl, rfl, rfl, rfl, rfl⟩
    | some c => cases c <;> exact ⟨rfl, rfl, rfl, rfl, rfl, rfl⟩

theorem step_effect (h : step s a = some t) : Effect s t a := by
  have hidle : ∀ {pc : Pc}, s.pc = pc → pc ≠ .sending ∧ pc ≠ .quitting → s.unsent = [] := by
    rintro pc rfl hpc
    exact State.unsent_eq_nil hpc
  cases a with
  | poll | leave =>
    simp only [step, Option.ite_none_right_eq_some] at h
    obtain ⟨⟨hpc, -⟩, h⟩ := h
    cases h
    exact .quiet _ rfl rfl rfl rfl rfl (hidle hpc (by decide)).symm rfl
  | polled answer =>
    simp only [step, Option.ite_none_right_eq_some] at h
    obtain ⟨hpc, h⟩ := h
    have hunsent := (hidle hpc (by decide)).symm
    cases answer with
    | interrupted | failed =>
      cases h
      exact .quiet _ rfl rfl rfl rfl rfl hunsent rfl
    | ready hangup socketIn stdinIn =>
      cases hangup <;> cases socketIn <;> cases stdinIn <;> cases h <;>
        exact .quiet _ rfl rfl rfl rfl rfl hunsent rfl
  | recv result =>
    simp only [step, Option.ite_none_right_eq_some] at h
    obtain ⟨hpc, h⟩ := h
    have hunsent := (hidle hpc (by decide)).symm
    cases result with
    | error | closed =>
      cases h
      exact .quiet _ rfl rfl rfl rfl rfl hunsent rfl
    | data bytes =>
      obtain ⟨hbytes, h⟩ := Option.ite_none_right_eq_some.mp h
      cases h
      exact .received bytes hpc hbytes rfl rfl rfl rfl rfl hunsent
  | fgets reads =>
    simp only [step, Option.ite_none_right_eq_some, Option.map_eq_some_iff] at h
    obtain ⟨hpc, ⟨line, file⟩, hread, h⟩ := h
    have hunsent := hidle hpc (by decide)
    cases line with
    | piece piece =>
      obtain ⟨hfile, hpieces, hsent, hreceived, hshown, hwire⟩ := @handleLine_effect s file piece
      simp only at h
      subst h
      exact .typed reads piece (hfile.symm ▸ hread) hpieces hsent hreceived hshown hunsent hwire
    | eof =>
      cases h
      exact .ended reads _ file hread (.inl rfl) rfl rfl rfl rfl rfl hunsent.symm
    | error =>
      cases h
      exact .ended reads _ file hread (.inr rfl) rfl rfl rfl rfl rfl hunsent.symm
  | send ok =>
    simp only [step] at h
    split at h
    · next hpc =>
      have hunsent : s.unsent = [commandText s.buffer] := by rw [State.unsent, hpc]
      cases ok with
      | true =>
        cases h
        exact .sent _ hunsent rfl rfl rfl rfl rfl rfl
      | false =>
        cases h
        exact .lost _ hunsent rfl rfl rfl rfl rfl (.inr rfl)
    · next hpc =>
      have hunsent : s.unsent = [ascii "QUIT\n"] := by rw [State.unsent, hpc]
      cases ok with
      | true =>
        cases h
        exact .sent _ hunsent rfl rfl rfl rfl rfl rfl
      | false =>
        cases h
        exact .lost _ hunsent rfl rfl rfl rfl rfl (.inl rfl)
    · cases h
  | sigint =>
    simp only [step] at h
    split at h <;> cases h
    exact .quiet _ rfl rfl rfl rfl rfl rfl rfl

theorem step_of_ended (h : s.pc = .left ∨ s.pc = .exited) : step s a = none := by
  rcases h with h | h <;> cases a <;> simp [step, h]

structure Accounted (s : State) : Prop where
  pieces : ∀ p ∈ s.pieces, IsPiece maxPiece p
  sent : s.pieces.reverse.filterMap wire = s.sent.reverse ++ s.unsent ∨
    (s.pc = .left ∨ s.pc = .exited) ∧ ∃ c, s.pieces.reverse.filterMap wire = s.sent.reverse ++ [c]

theorem Accounted.step (h : Accounted s) (hstep : step s a = some t) : Accounted t := by
  have hsent := h.sent.resolve_right fun hended => by
    rw [step_of_ended hended.1] at hstep
    cases hstep
  cases step_effect hstep with
  | quiet _ _ hpieces hsent' _ _ hunsent | received _ _ _ _ hpieces hsent' _ _ hunsent
  | ended _ _ _ _ _ _ hpieces hsent' _ _ hunsent =>
    refine ⟨hpieces ▸ h.pieces, .inl ?_⟩
    rw [hpieces, hsent', hunsent]
    exact hsent
  | typed reads piece hread hpieces hsent' _ _ hpc hunsent =>
    constructor
    · rw [hpieces]
      exact List.forall_mem_cons.mpr ⟨(fgets_piece hread).1, h.pieces⟩
    · left
      rw [hpc, List.append_nil] at hsent
      rw [hpieces, hsent', hunsent, List.reverse_cons, List.filterMap_append, hsent]
      cases hwire : wire piece <;> simp [hwire]
  | sent c hpc _ hpieces hsent' _ _ hunsent =>
    refine ⟨hpieces ▸ h.pieces, .inl ?_⟩
    rw [hpc] at hsent
    rw [hpieces, hsent', hunsent, List.reverse_cons, List.append_nil]
    exact hsent
  | lost c hpc _ hpieces hsent' _ _ hend =>
    refine ⟨hpieces ▸ h.pieces, .inr ⟨hend, c, ?_⟩⟩
    rw [hpc] at hsent
    rw [hpieces, hsent']
    exact hsent

def typedBy (as : List Action) : List UInt8 :=
  as.flatMap fun
    | .fgets reads => readBytes reads
    | _ => []

def ReadsSucceed (as : List Action) : Prop := ∀ reads, .fgets reads ∈ as → .error ∉ reads

theorem step_typed (h : step s a = some t) (ha : ∀ reads, a = .fgets reads → .error ∉ reads) :
    t.pieces.reverse.flatten ++ t.file.input = s.pieces.reverse.flatten ++ s.file.input ++ typedBy [a] := by
  have hread : ∀ reads, typedBy [.fgets reads] = readBytes reads := fun reads => List.append_nil _
  cases step_effect h with
  | quiet _ hfile hpieces _ _ _ _ hquiet =>
    have hnone : typedBy [a] = [] := by
      cases a with
      | fgets reads => cases hquiet
      | _ => rfl
    rw [hfile, hpieces, hnone, List.append_nil]
  | received _ _ _ hfile hpieces | sent _ _ hfile hpieces | lost _ _ hfile hpieces =>
    rw [hfile, hpieces]
    exact (List.append_nil _).symm
  | typed reads piece hpiece hpieces =>
    rw [hread, hpieces, List.reverse_cons, List.flatten_append, List.append_assoc, List.append_assoc,
      ← (fgets_piece hpiece).2]
    simp
  | ended reads line file hline hkind hfile hpieces =>
    rcases hkind with rfl | rfl
    · obtain ⟨hinput, hreads, hleft⟩ := fgets_eof hline
      rw [hread, hfile, hpieces, hinput, hreads]
      simp [hleft]
    · exact absurd (fgets_error hline) (ha reads rfl)

end

theorem run_typed {s : State} (hrun : Runs.run step s as = some t) (hreads : ReadsSucceed as) :
    t.pieces.reverse.flatten ++ t.file.input = s.pieces.reverse.flatten ++ s.file.input ++ typedBy as := by
  induction as generalizing s with
  | nil =>
    obtain rfl := Option.some.inj hrun
    exact (List.append_nil _).symm
  | cons a as ih =>
    obtain ⟨u, hu, hrun⟩ := Option.bind_eq_some_iff.mp hrun
    have hfirst := step_typed hu fun reads ha => hreads reads (ha ▸ List.mem_cons_self)
    have hrest := ih hrun fun reads hmem => hreads reads (List.mem_cons_of_mem _ hmem)
    have hcons : typedBy (a :: as) = typedBy [a] ++ typedBy as := by simp [typedBy]
    rw [hrest, hfirst, hcons, List.append_assoc, List.append_assoc]

/-! ## What the server makes of it -/

theorem parseTokens_caseEq {word word' : CText} (h : caseEq word word' = true) :
    parseTokens [word] = parseTokens [word'] := by
  have hlower : word.map tolower = word'.map tolower := of_decide_eq_true h
  have hnames : ∀ spec : CommandSpec, spec.Names word none = spec.Names word' none := by
    intro spec
    simp only [CommandSpec.Names, tokenEquals, caseEq, hlower]
  simp only [parseTokens, parseWords, List.getElem?_nil, hnames]

theorem lineTokens_quit (h : caseEq line (ascii "quit") = true) : lineTokens line = [line] := by
  have hlower : line.map tolower = ascii "quit" := of_decide_eq_true h
  apply tokens_of_not_delim
  · rintro rfl
    cases hlower
  · intro b hb
    have hmem : tolower b ∈ ascii "quit" := hlower ▸ List.mem_map_of_mem hb
    by_contra hdelim
    have hdelim : isDelim b = true := by simpa using hdelim
    simp only [isDelim, Bool.or_eq_true, decide_eq_true_eq] at hdelim
    rcases hdelim with ((rfl | rfl) | rfl) | rfl <;> exact absurd hmem (by decide)

theorem commandParse_wire {c : CText} (h : wire piece = some c) :
    commandParse c =
      if (trimNewline (ofBuffer piece)).length + 1 < commandLineMax then
        parseTokens (lineTokens (ofBuffer piece))
      else { type := .invalid } := by
  unfold wire at h
  simp only at h
  split at h
  · cases h
  split at h
  · next hquit =>
    cases h
    have hcase : caseEq (trimNewline (ofBuffer piece)) (ascii "quit") = true := by
      unfold localCommand at hquit
      split at hquit
      · cases hquit
      split at hquit
      · cases hquit
      split at hquit
      · cases hquit
      split at hquit
      · assumption
      · cases hquit
    have hlength : (trimNewline (ofBuffer piece)).length = 4 := by
      have hlower : (trimNewline (ofBuffer piece)).map tolower = ascii "quit" := of_decide_eq_true hcase
      have := congrArg List.length hlower
      rwa [List.length_map] at this
    rw [hlength, if_pos (by decide), ← lineTokens_trimNewline, lineTokens_quit hcase,
      parseTokens_caseEq hcase]
    decide
  · cases h
  · cases h
    exact commandParse_commandText _

/-- In every run of the console, whatever the server sends meanwhile: the pieces of the input are the
bytes that the user typed, each piece for the server makes one command, in order, and of these only the
last may not be sent; every command is one string of at most 1023 bytes with a line end nowhere but at
its end, and the server reads it as the words of the piece. -/
theorem console_commands {s : State} (hrun : Runs.run step {} as = some s) :
    (ReadsSucceed as → s.pieces.reverse.flatten ++ s.file.input = typedBy as) ∧
      (∃ unsent, unsent.length ≤ 1 ∧ s.pieces.reverse.filterMap wire = s.sent.reverse ++ unsent) ∧
      ∀ c ∈ s.sent, IsCommand c ∧ ∃ piece ∈ s.pieces, wire piece = some c ∧
        commandParse c =
          if (trimNewline (ofBuffer piece)).length + 1 < commandLineMax then
            parseTokens (lineTokens (ofBuffer piece))
          else { type := .invalid } := by
  have hstart : Accounted {} := ⟨fun _ h => absurd h List.not_mem_nil, .inl rfl⟩
  have haccounted := Runs.run_invariant (fun _ _ _ hs hstep => hs.step hstep) hstart hrun
  obtain ⟨unsent, hlength, hsent⟩ : ∃ unsent : List CText, unsent.length ≤ 1 ∧
      s.pieces.reverse.filterMap wire = s.sent.reverse ++ unsent := by
    rcases haccounted.sent with hsent | ⟨-, c, hsent⟩
    · refine ⟨s.unsent, ?_, hsent⟩
      unfold State.unsent
      split
      · exact Nat.le_refl 1
      · exact Nat.le_refl 1
      · exact Nat.zero_le 1
    · exact ⟨[c], Nat.le_refl 1, hsent⟩
  refine ⟨fun hreads => run_typed hrun hreads, ⟨unsent, hlength, hsent⟩, fun c hc => ?_⟩
  have hmem : c ∈ s.pieces.reverse.filterMap wire := by
    rw [hsent]
    exact List.mem_append_left _ (List.mem_reverse.mpr hc)
  obtain ⟨piece, hpiece, hwire⟩ := List.mem_filterMap.mp hmem
  have hpiece := List.mem_reverse.mp hpiece
  exact ⟨wire_isCommand (haccounted.pieces piece hpiece) hwire, piece, hpiece, hwire,
    commandParse_wire hwire⟩

def twoLines : List Action := [
  .poll, .polled (.ready false false true), .fgets [.data (ascii "led o"), .data (ascii "n\r\nQuit")],
  .send true,
  .poll, .polled (.ready false true true), .recv (.data (ascii "OK LED ON\n")),
  .poll, .polled (.ready false false true), .fgets [.data (ascii "\n")],
  .send true]

theorem console_commands_two : ∃ s, Runs.run step {} twoLines = some s ∧
    s.sent = [ascii "QUIT\n", ascii "led on\n"] ∧
    (ReadsSucceed twoLines → s.pieces.reverse.flatten ++ s.file.input = typedBy twoLines) ∧
    (∃ unsent, unsent.length ≤ 1 ∧ s.pieces.reverse.filterMap wire = s.sent.reverse ++ unsent) ∧
    ∀ c ∈ s.sent, IsCommand c ∧ ∃ piece ∈ s.pieces, wire piece = some c ∧
      commandParse c =
        if (trimNewline (ofBuffer piece)).length + 1 < commandLineMax then
          parseTokens (lineTokens (ofBuffer piece))
        else { type := .invalid } := by
  have heval : (Runs.run step {} twoLines).any
      (fun s => s.sent = [ascii "QUIT\n", ascii "led on\n"]) = true := by decide +kernel
  obtain ⟨s, hrun, hsent⟩ := (Option.any_eq_true _ _).mp heval
  exact ⟨s, hrun, of_decide_eq_true hsent, console_commands hrun⟩

end RemoteDevice.Client
