import RemoteDevice.Command.Continued
import RemoteDevice.Server.Requests

/-! The log beside the commands: what is recorded of a request is its first line, and what is executed
is the whole of it. -/

namespace RemoteDevice.Server
open CText

def firstLine (s : CText) : CText := s.takeWhile fun b => b ≠ 13 && b ≠ 10

def laterLines (s : CText) : CText := s.dropWhile fun b => b ≠ 13 && b ≠ 10

def Shown (s : CText) : Prop :=
  s.length < commandLineMax ∧ Unaffected (lineTokens (firstLine s)) (lineTokens (laterLines s)) ∨
    commandLineMax ≤ s.length ∧
      (commandLineMax ≤ (firstLine s).length ∨ Malformed (lineTokens (firstLine s)))

/-! ## One request -/

theorem firstLine_length (s : CText) : (firstLine s).length ≤ s.length :=
  (List.takeWhile_prefix _).length_le

theorem lineTokens_firstLine (s : CText) :
    lineTokens s = lineTokens (firstLine s) ++ lineTokens (laterLines s) := by
  have hsplit : firstLine s ++ laterLines s = s := List.takeWhile_append_dropWhile
  cases hlater : laterLines s with
  | nil =>
    rw [hlater, List.append_nil] at hsplit
    rw [hsplit]
    exact (List.append_nil _).symm
  | cons b rest =>
    have hend : isDelim b = true := by
      have hb : (b ≠ 13 && b ≠ 10) = false := delim_of_dropWhile hlater
      rw [Bool.and_eq_false_iff, decide_eq_false_iff_not, decide_eq_false_iff_not, not_not, not_not] at hb
      rcases hb with rfl | rfl <;> rfl
    rw [hlater] at hsplit
    have hrest : lineTokens (b :: rest) = lineTokens rest := tokens_cons_delim hend
    have hall : lineTokens (firstLine s ++ b :: rest) = lineTokens (firstLine s) ++ lineTokens rest :=
      tokens_append_delim _ _ hend
    rw [hrest, ← hall, hsplit]

theorem commandParse_firstLine (s : CText) :
    commandParse (some (firstLine s)) = commandParse (some s) ↔ Shown s := by
  unfold Shown
  rcases Nat.lt_or_ge s.length commandLineMax with hshort | hlong
  · have hfirst := Nat.lt_of_le_of_lt (firstLine_length s) hshort
    rw [commandParse_eq hfirst, commandParse_eq hshort, lineTokens_firstLine s, parseTokens_append_iff]
    constructor
    · exact fun hsame => .inl ⟨hshort, hsame⟩
    · rintro (⟨-, hsame⟩ | ⟨hlong, -⟩)
      · exact hsame
      · exact absurd hshort (Nat.not_lt.mpr hlong)
  · rw [commandParse_long hlong]
    have hnot : ¬s.length < commandLineMax := Nat.not_lt.mpr hlong
    rcases Nat.lt_or_ge (firstLine s).length commandLineMax with hfirst | hfirst
    · rw [commandParse_eq hfirst, ← malformed_iff]
      constructor
      · exact fun hmalformed => .inr ⟨hlong, .inr hmalformed⟩
      · rintro (⟨hshort, -⟩ | ⟨-, hlong' | hmalformed⟩)
        · exact absurd hshort hnot
        · exact absurd hfirst (Nat.not_lt.mpr hlong')
        · exact hmalformed
    · exact iff_of_true (commandParse_long hfirst) (.inr ⟨hlong, .inl hfirst⟩)

/-! ## The log of a run -/

def requestText (bytes : List UInt8) : CText :=
  copySingleLine bufferSize ((ofBuffer bytes).take (bufferSize - 1))

theorem requestText_eq {bytes : List UInt8} (h : bytes.length ≤ bufferSize - 1) :
    requestText bytes = firstLine (ofBuffer bytes) := by
  have hstring : (ofBuffer bytes).length ≤ bufferSize - 1 :=
    Nat.le_trans (List.takeWhile_prefix _).length_le h
  rw [requestText, copySingleLine, List.take_of_length_le hstring]
  exact List.take_of_length_le (Nat.le_trans (firstLine_length _) hstring)

variable {σ : Type} {api : DeviceApi σ} {serverFd : Int} {s t : State σ} {a : Action} {log : List Entry}

def Fits (bytes : List UInt8) : Prop := bytes ≠ [] ∧ bytes.length ≤ bufferSize - 1

def Recorded (log : List Entry) : Prop :=
  ∀ fd request response before, .logged fd request response :: before <:+ log →
    ∃ bytes rest, before = .executed fd (chunkCommand bytes) :: .received fd bytes :: rest ∧
      Fits bytes ∧ request = requestText bytes

structure Accounted (s : State σ) : Prop where
  recorded : Recorded s.log
  executing : ∀ fd bytes events, s.pc = .executing fd bytes events →
    Fits bytes ∧ ∃ rest, s.log = .received fd bytes :: rest

def Entry.isRequest : Entry → Bool
  | .logged _ _ _ => true
  | _ => false

theorem Recorded.cons (h : Recorded log) {e : Entry} (he : e.isRequest = false) :
    Recorded (e :: log) := by
  intro fd request response before hsuffix
  rcases List.suffix_cons_iff.mp hsuffix with heq | hsuffix
  · rw [← (List.cons.inj heq).1] at he
    exact absurd he.symm Bool.false_ne_true
  · exact h fd request response before hsuffix

theorem step_received {bytes : List UInt8} (h : step api serverFd s (.recv (.data bytes)) = some t) :
    Fits bytes := by
  simp only [step] at h
  split at h
  case h_2 => cases h
  split at h
  case isFalse => cases h
  rw [Option.ite_none_right_eq_some] at h
  exact h.1

theorem step_executing (h : step api serverFd s a = some t) {fd : Int} {bytes : List UInt8}
    {events : List Ready} (hpc : s.pc.client = none) (hpc' : t.pc = .executing fd bytes events) :
    Fits bytes := by
  have hclient : t.pc.client = some fd := congrArg Pc.client hpc'
  have hresume : ∀ events : List Ready, (resume events).client ≠ some fd := by
    intro events
    rw [resume_client]
    exact (Option.some_ne_none fd).symm
  cases step_branch h with
  | received bytes' e events' _ hfd =>
    cases hpc'
    exact step_received h
  | poll | leave | waitFailed | acceptFailed => exact absurd hclient (Option.some_ne_none fd).symm
  | ready events' => exact absurd hclient (hresume events')
  | refused _ _ events' | accepted _ _ events' => exact absurd hclient (hresume events')
  | skipped _ events' | dropped _ _ events' => exact absurd hclient (hresume events')
  | executed _ _ _ hexec | sent _ _ _ _ hexec | unsent _ _ _ _ hexec =>
    rw [hexec] at hpc
    exact absurd hpc (Option.some_ne_none _)
  | sigterm => exact absurd (hpc.symm.trans hclient) (Option.some_ne_none fd).symm

theorem not_executing {fd : Int} {bytes : List UInt8} {events : List Ready} (hpc : s.pc.client = none) :
    s.pc ≠ .executing fd bytes events := by
  intro hexec
  rw [hexec] at hpc
  exact absurd hpc (Option.some_ne_none fd)

theorem Accounted.entry (h : Accounted s) {e : Entry} (hlog : t.log = e :: s.log)
    (he : e.isRequest = false) (hpc : t.pc.client = none) : Accounted t := by
  refine ⟨?_, fun _ _ _ hexec => absurd hexec (not_executing hpc)⟩
  rw [hlog]
  exact h.recorded.cons he

theorem Accounted.executed (h : Accounted s) {fd : Int} {bytes : List UInt8} {events : List Ready}
    (hpc : s.pc = .executing fd bytes events) : Accounted (exec api s fd bytes events) := by
  obtain ⟨hfits, rest, hlog⟩ := h.executing fd bytes events hpc
  have hlogged : (exec api s fd bytes events).log =
      .logged fd (requestText bytes)
          (copySingleLine bufferSize ((execCommand api (ofBuffer bytes)).run s.device).1) ::
        .executed fd (chunkCommand bytes) :: s.log := rfl
  have hbefore : Recorded (.executed fd (chunkCommand bytes) :: s.log) := h.recorded.cons rfl
  constructor
  · rw [hlogged]
    intro fd' request response before hsuffix
    rcases List.suffix_cons_iff.mp hsuffix with heq | hsuffix
    · obtain ⟨hentry, hrest⟩ := List.cons.inj heq
      cases hentry
      exact ⟨bytes, rest, by rw [hrest, hlog], hfits, rfl⟩
    · exact hbefore fd' request response before hsuffix
  · intro fd' bytes' events' hexec
    cases hexec

theorem Accounted.step (h : Accounted s) (hstep : step api serverFd s a = some t) : Accounted t := by
  cases step_effect hstep with
  | quiet hpc hlog hfds hdevice =>
    refine ⟨hlog ▸ h.recorded, ?_⟩
    intro fd bytes events hexec
    rcases hpc with hpc | ⟨-, hpc⟩
    · rw [hlog]
      exact h.executing fd bytes events (hpc.symm.trans hexec)
    · exact absurd hexec (not_executing hpc)
  | accepted fd hpc hlog => exact h.entry hlog rfl hpc.2
  | closed fd hpc hlog => exact h.entry hlog rfl hpc.2
  | received fd bytes events hpc hpc' hlog =>
    have hfits := step_executing hstep hpc hpc'
    refine ⟨hlog ▸ h.recorded.cons rfl, ?_⟩
    intro fd' bytes' events' hexec
    cases hpc'.symm.trans hexec
    exact ⟨hfits, s.log, hlog⟩
  | executed fd bytes events hpc ht =>
    rw [ht]
    exact h.executed hpc
  | sent fd response events hpc hpc' hlog =>
    by_cases hfd : fd ≠ -1 ∧ fd ∈ s.clientFds
    · rw [if_pos hfd] at hlog
      exact h.entry hlog rfl hpc'
    · rw [if_neg hfd] at hlog
      exact ⟨hlog ▸ h.recorded, fun _ _ _ hexec => absurd hexec (not_executing hpc')⟩

theorem Accounted.run {as : List Action} (h : Accounted s)
    (hrun : Runs.run (Server.step api serverFd) s as = some t) : Accounted t :=
  Runs.run_invariant (fun _ _ _ hs hstep => hs.step hstep) h hrun

/-- In every run a request is executed as the command that its log line says exactly if what is behind
the first line end of the request makes no difference to the command. -/
theorem log_shows_command_iff {as : List Action} (hpc : s.pc.client = none) (hlog : s.log = [])
    (hrun : Runs.run (step api serverFd) s as = some t) {fd : Int} {request response : CText}
    {before : List Entry} (hentry : .logged fd request response :: before <:+ t.log) :
    ∃ bytes rest, before = .executed fd (chunkCommand bytes) :: .received fd bytes :: rest ∧
      (commandParse (some request) = chunkCommand bytes ↔ Shown (ofBuffer bytes)) := by
  have hstart : Accounted s := by
    refine ⟨?_, fun _ _ _ hexec => absurd hexec (not_executing hpc)⟩
    rw [hlog]
    intro fd request response before hsuffix
    exact absurd (List.suffix_nil.mp hsuffix) (List.cons_ne_nil _ _)
  obtain ⟨bytes, rest, hbefore, hfits, hrequest⟩ :=
    (hstart.run hrun).recorded fd request response before hentry
  refine ⟨bytes, rest, hbefore, ?_⟩
  rw [hrequest, requestText_eq hfits.2, chunkCommand]
  exact commandParse_firstLine _

theorem log_shows_command_iff_led : ∃ t before,
    servedChunks [ascii "LED ON\n"] = some t ∧
    .logged 4 (ascii "LED ON") (ascii "OK LED ON") :: before <:+ t.log ∧
    ∃ bytes rest, before = .executed 4 (chunkCommand bytes) :: .received 4 bytes :: rest ∧
      (commandParse (some (ascii "LED ON")) = chunkCommand bytes ↔ Shown (ofBuffer bytes)) := by
  obtain ⟨t, h, before, hlog⟩ : ∃ t, servedChunks [ascii "LED ON\n"] = some t ∧ ∃ before,
      t.log = .sent 4 (ascii "OK LED ON\n") :: .logged 4 (ascii "LED ON") (ascii "OK LED ON") :: before :=
    ⟨_, rfl, _, rfl⟩
  have hentry : .logged 4 (ascii "LED ON") (ascii "OK LED ON") :: before <:+ t.log :=
    hlog ▸ List.suffix_cons _ _
  exact ⟨t, before, h, hentry, log_shows_command_iff rfl rfl h hentry⟩

/-- The lamp is switched on, and the log shows an empty request. -/
theorem log_hides_command :
    ∃ t : State Unit, servedChunks [ascii "\nLED ON\n"] = some t ∧
      t.log = [.sent 4 (ascii "OK LED ON\n"), .logged 4 [] (ascii "OK LED ON"),
        .executed 4 { type := .ledOn }, .received 4 (ascii "\nLED ON\n")] ∧
      commandParse (some []) ≠ chunkCommand (ascii "\nLED ON\n") :=
  ⟨_, rfl, by decide, by decide⟩

end RemoteDevice.Server
