import RemoteDevice.Config.File

/-! What an INI file means, and what `load_app_config` takes from it. -/

namespace RemoteDevice.Config
open Checked CMemory CText

/-! ## The meaning -/

def iniLines (text : CText) : List Line := (text.splitOn 10).map fun l => lineOf (strip l)

structure Assignment where
  inSection : CText
  key : CText
  value : CText

def assignments (inSection : CText) : List Line → List Assignment
  | [] => []
  | .nothing :: lines => assignments inSection lines
  | .header name :: lines => assignments (strip name) lines
  | .assignment key value :: lines => ⟨inSection, key, value⟩ :: assignments inSection lines

def lastValue (key : CText) (all : List Assignment) : Option CText :=
  ((all.filter fun x => x.inSection = ascii "Server" ∧ x.key = key).map Assignment.value).getLast?

def iniPort (text : CText) (port : Int) : Int :=
  ((lastValue (ascii "port") (assignments [] (iniLines text))).map atoi).getD port

def iniAddr (text addr : CText) : CText :=
  ((lastValue (ascii "addr") (assignments [] (iniLines text))).map (·.take (maxAddrLen - 1))).getD addr

theorem getLast?_getD_cons {α β : Type} (f : α → β) (x : α) (l : List α) (d : β) :
    ((x :: l).getLast?.map f).getD d = (l.getLast?.map f).getD (f x) := by
  rw [List.getLast?_cons]
  cases l.getLast? <;> rfl

theorem takeLines_eq (lines : List Line) (st : Settings) :
    (lines.foldl (Settings.take strip) st).port =
        ((lastValue (ascii "port") (assignments st.inSection lines)).map atoi).getD st.port ∧
      (lines.foldl (Settings.take strip) st).addr =
        ((lastValue (ascii "addr") (assignments st.inSection lines)).map
          (·.take (maxAddrLen - 1))).getD st.addr := by
  induction lines generalizing st with
  | nil => exact ⟨rfl, rfl⟩
  | cons line lines ih =>
    rw [List.foldl_cons]
    cases line with
    | nothing => exact ih st
    | header name => exact ih { st with inSection := strip name }
    | assignment key value =>
      obtain ⟨hport, haddr⟩ := ih (st.take strip (.assignment key value))
      rw [hport, haddr, assignments, lastValue, lastValue, lastValue, lastValue, Settings.take]
      by_cases hin : st.inSection = ascii "Server"
      · by_cases hisPort : key = ascii "port"
        · have hne : ¬ascii "port" = ascii "addr" := by decide
          subst hisPort
          simp [hin, hne, getLast?_getD_cons]
        · by_cases hisAddr : key = ascii "addr"
          · have hne : ¬ascii "addr" = ascii "port" := by decide
            subst hisAddr
            simp [hin, hne, getLast?_getD_cons]
          · simp [hin, hisPort, hisAddr]
      · simp [hin]

/-! ## What is taken -/

structure Agree (code text : Settings) : Prop where
  inServer : code.inSection = ascii "Server" ↔ text.inSection = ascii "Server"
  addr : code.addr = text.addr
  port : code.port = text.port

def PlainServer (line : Line) : Prop :=
  ∀ name, line = .header name → strip name = ascii "Server" → name.takeWhile isSpace = []

theorem trimmedInPlace_server {name : CText} (h : trimmedInPlace name = ascii "Server") :
    strip name = ascii "Server" := by
  rw [trimmedInPlace] at h
  cases hspaces : name.takeWhile isSpace with
  | nil => rwa [hspaces] at h
  | cons c spaces =>
    have hc : isSpace c = true := List.mem_takeWhile_imp (hspaces ▸ List.mem_cons_self)
    rw [hspaces, List.cons_append] at h
    obtain rfl : c = 83 := (List.cons.inj h).1
    exact absurd hc (by decide)

theorem Agree.take {code text : Settings} (h : Agree code text) {line : Line}
    (hplain : PlainServer line) : Agree (code.take trimmedInPlace line) (text.take strip line) := by
  cases line with
  | nothing => exact h
  | header name =>
    refine ⟨⟨trimmedInPlace_server, ?_⟩, h.addr, h.port⟩
    intro hserver
    have hspaces := hplain name rfl hserver
    rw [Settings.take, trimmedInPlace, hspaces]
    exact hserver
  | assignment key value =>
    rw [Settings.take, Settings.take]
    by_cases hin : text.inSection = ascii "Server"
    · rw [if_pos hin, if_pos (h.inServer.mpr hin)]
      by_cases hisPort : key = ascii "port"
      · rw [if_pos hisPort, if_pos hisPort]
        exact ⟨h.inServer, h.addr, rfl⟩
      · rw [if_neg hisPort, if_neg hisPort]
        by_cases hisAddr : key = ascii "addr"
        · rw [if_pos hisAddr, if_pos hisAddr]
          exact ⟨h.inServer, rfl, h.port⟩
        · rw [if_neg hisAddr, if_neg hisAddr]
          exact h
    · rw [if_neg hin, if_neg (mt h.inServer.mp hin)]
      exact h

/-! ## The lines that are read -/

theorem strip_newline (l : CText) : strip (l ++ [10]) = strip l := by
  rw [strip, strip, List.dropWhile_append]
  split
  · next hspaces =>
    have hnil : l.dropWhile isSpace = [] := List.isEmpty_iff.mp hspaces
    rw [hnil]
    rfl
  · exact List.rdropWhile_concat_pos _ _ _ (by decide)

/-- The text is read line by line: `fgets` cuts no line, and no string ends before its line. -/
structure Readable (text : CText) : Prop where
  noNul : 0 ∉ text
  whole : ∀ l ∈ text.splitOn 10, l.length < lineSize

theorem Readable.line {l rest : CText} (h : Readable (l ++ 10 :: rest)) (hl : 10 ∉ l) :
    0 ∉ l ∧ l.length < lineSize ∧ Readable rest := by
  obtain ⟨hnul, hwhole⟩ := h
  rw [List.splitOn_append_cons_self_of_not_mem hl rest] at hwhole
  refine ⟨fun hmem => hnul (List.mem_append_left _ hmem), hwhole l List.mem_cons_self, ?_,
    fun k hk => hwhole k (List.mem_cons_of_mem _ hk)⟩
  exact fun hmem => hnul (List.mem_append_right l (List.mem_cons_of_mem _ hmem))

theorem strings_nil (rounds : Nat) : strings rounds [] = [] := by
  cases rounds <;> rfl

theorem strings_piece {piece rest : List UInt8} (hpiece : linePiece (lineSize - 1) (piece ++ rest) = piece)
    (hne : piece ≠ []) (hnul : 0 ∉ piece) (rounds : Nat) :
    strings (rounds + 1) (piece ++ rest) = piece :: strings rounds rest := by
  rw [strings, if_neg (List.append_ne_nil_of_left_ne_nil hne rest), hpiece, ofBuffer_eq hnul,
    List.drop_left]

/-- A line that is whole is read as it is: with its newline, or with the newline on its own behind
it. -/
theorem strings_line {l : CText} (hl : 10 ∉ l) (hnul : 0 ∉ l) (hwhole : l.length < lineSize) (rest : CText)
    {rounds : Nat} (hrounds : (l ++ 10 :: rest).length < rounds + 1) :
    strings (rounds + 1) (l ++ 10 :: rest) = (l ++ [10]) :: strings rounds rest ∨
      ∃ fewer, rounds = fewer + 1 ∧ rest.length < fewer ∧
        strings (rounds + 1) (l ++ 10 :: rest) = l :: [10] :: strings fewer rest := by
  rw [lineSize] at hwhole
  rw [List.length_append, List.length_cons] at hrounds
  rcases Nat.lt_or_ge l.length (lineSize - 1) with hless | hfull
  · left
    have hpiece : linePiece (lineSize - 1) ((l ++ [10]) ++ rest) = l ++ [10] := by
      rw [List.append_assoc]
      exact linePiece_line _ hl hless rest
    have hnul' : 0 ∉ l ++ [10] := by
      rw [List.mem_append, not_or]
      exact ⟨hnul, by decide⟩
    rw [List.append_cons]
    exact strings_piece hpiece (List.append_ne_nil_of_right_ne_nil l (List.cons_ne_nil _ _)) hnul' rounds
  · right
    rw [lineSize] at hfull
    have hlen : lineSize - 1 = l.length := Nat.le_antisymm hfull (Nat.le_of_lt_succ hwhole)
    have hne : l ≠ [] := by
      rintro rfl
      exact absurd hlen (by decide)
    obtain ⟨fewer, rfl⟩ := Nat.exists_eq_succ_of_ne_zero (show rounds ≠ 0 by omega)
    refine ⟨fewer, rfl, by omega, ?_⟩
    have hpiece : linePiece (lineSize - 1) (l ++ 10 :: rest) = l :=
      linePiece_full hl (lineSize - 1) (Nat.le_of_eq hlen.symm) (.inr hlen)
    have hnewline : linePiece (lineSize - 1) ([10] ++ rest) = [10] := rfl
    rw [strings_piece hpiece hne hnul]
    exact congrArg _ (strings_piece hnewline (List.cons_ne_nil _ _) (by decide) fewer)

theorem iniLines_line {l : CText} (hl : 10 ∉ l) (rest : CText) :
    iniLines (l ++ 10 :: rest) = lineOf (strip l) :: iniLines rest := by
  rw [iniLines, List.splitOn_append_cons_self_of_not_mem hl rest, List.map_cons]
  rfl

theorem iniLines_last {l : CText} (hl : 10 ∉ l) : iniLines l = [lineOf (strip l)] := by
  rw [iniLines, List.splitOn_eq_singleton hl, List.map_singleton]

theorem strings_last {l : CText} (hl : 10 ∉ l) (hnul : 0 ∉ l) (hwhole : l.length < lineSize) (hne : l ≠ [])
    (rounds : Nat) : strings (rounds + 1) l = [l] := by
  have hpiece := linePiece_full hl (lineSize - 1) (Nat.le_of_lt_succ hwhole) (.inl rfl)
  have hall := strings_piece hpiece hne hnul rounds
  rwa [List.append_nil, strings_nil] at hall

def Line.counts (line : Line) : Bool := line ≠ .nothing

theorem strings_lines {text : CText} (h : Readable text) {rounds : Nat}
    (hrounds : text.length < rounds) :
    ((strings rounds text).map fun s => lineOf (strip s)).filter Line.counts =
      (iniLines text).filter Line.counts := by
  induction rounds using Nat.strongRecOn generalizing text with
  | ind rounds ih =>
    obtain ⟨rounds, rfl⟩ := Nat.exists_eq_succ_of_ne_zero (Nat.ne_of_gt (Nat.zero_lt_of_lt hrounds))
    by_cases hmem : 10 ∈ text
    · obtain ⟨l, rest, rfl, hl⟩ := List.eq_append_cons_of_mem hmem
      obtain ⟨hnul, hwhole, hrest⟩ := h.line hl
      rw [iniLines_line hl, List.filter_cons]
      obtain hstrings | ⟨fewer, rfl, hfewer, hstrings⟩ := strings_line hl hnul hwhole rest hrounds
      · rw [List.length_append, List.length_cons] at hrounds
        rw [hstrings, List.map_cons, List.filter_cons, strip_newline,
          ih rounds (Nat.lt_succ_self rounds) hrest (by omega)]
      · have hnewline : (lineOf (strip [10])).counts = false := by decide
        rw [hstrings, List.map_cons, List.map_cons, List.filter_cons,
          List.filter_cons_of_neg (by rw [hnewline]; exact Bool.false_ne_true),
          ih fewer (by omega) hrest hfewer]
    · rw [iniLines_last hmem]
      by_cases hempty : text = []
      · subst hempty
        rw [strings_nil]
        rfl
      · have hline : text ∈ text.splitOn 10 := by
          rw [List.splitOn_eq_singleton hmem]
          exact List.mem_singleton_self text
        rw [strings_last hmem h.noNul (h.whole text hline) hempty]
        rfl

/-! ## The file -/

theorem foldl_counts (enter : CText → CText) (lines : List Line) (st : Settings) :
    (lines.filter Line.counts).foldl (Settings.take enter) st = lines.foldl (Settings.take enter) st := by
  induction lines generalizing st with
  | nil => rfl
  | cons line lines ih =>
    cases line with
    | nothing => exact ih st
    | header name => exact ih _
    | assignment key value => exact ih _

theorem Agree.takeAll {lines : List Line} (hplain : ∀ line ∈ lines, PlainServer line)
    {code text : Settings} (h : Agree code text) :
    Agree (lines.foldl (Settings.take trimmedInPlace) code) (lines.foldl (Settings.take strip) text) := by
  induction lines generalizing code text with
  | nil => exact h
  | cons line lines ih =>
    have hstep := h.take (hplain line List.mem_cons_self)
    exact ih (fun other hother => hplain other (List.mem_cons_of_mem _ hother)) hstep

def ShortName (line : Line) : Prop := ∀ name, line = .header name → name.length < sectionSize

variable {settings : AppConfig} {addr text : CText}

theorem fileStrings_short (h : Readable text) (hnames : ∀ line ∈ iniLines text, ShortName line) :
    ∀ s ∈ fileStrings text, ¬LongHeader s := by
  rintro s hs ⟨name, hname, hlong⟩
  have hmem : Line.header name ∈
      ((fileStrings text).map fun s => lineOf (strip s)).filter Line.counts := by
    rw [List.mem_filter]
    exact ⟨List.mem_map.mpr ⟨s, hs, hname⟩, rfl⟩
  rw [fileStrings, strings_lines h (Nat.lt_succ_self _)] at hmem
  have hshort := hnames _ (List.mem_of_mem_filter hmem) name rfl
  exact absurd hshort (Nat.not_lt.mpr hlong)

/-- The settings are what the text says, where each line is read whole and there is no white space in
front of `Server` between brackets. -/
theorem load_ini (hnul : 0 ∉ text) (hnames : ∀ line ∈ iniLines text, ShortName line)
    (haddr : StringAt settings.addr 0 addr) (hwhole : ∀ l ∈ text.splitOn 10, l.length < lineSize)
    (hplain : ∀ line ∈ iniLines text, PlainServer line) (line : Buffer lineSize UInt8) :
    ∃ settings', loadAppConfig settings line (some text) = .ok (settings', true) ∧
      settings'.port = iniPort text settings.port ∧
      StringAt settings'.addr 0 (iniAddr text addr) := by
  have hread : Readable text := ⟨hnul, hwhole⟩
  have hagree : Agree ((settingsOf settings addr).takeAll trimmedInPlace (fileStrings text))
      ((iniLines text).foldl (Settings.take strip) (settingsOf settings addr)) := by
    have hstart : Agree (settingsOf settings addr) (settingsOf settings addr) := ⟨Iff.rfl, rfl, rfl⟩
    have hall := hstart.takeAll hplain
    rw [← foldl_counts trimmedInPlace, ← strings_lines hread (Nat.lt_succ_self _), foldl_counts,
      List.foldl_map] at hall
    exact hall
  obtain ⟨-, settings', hload, hnew, hport⟩ | ⟨⟨s, hs, hlong⟩, -⟩ :=
    loadAppConfig_spec haddr line text
  · obtain ⟨htextPort, htextAddr⟩ := takeLines_eq (iniLines text) (settingsOf settings addr)
    refine ⟨settings', hload, ?_, ?_⟩
    · rw [hport, hagree.port, htextPort]
      rfl
    · rw [hagree.addr, htextAddr] at hnew
      exact hnew
  · exact absurd hlong (fileStrings_short hread hnames s hs)

theorem load_ini_server :
    ∃ settings, loadAppConfig app (fun _ => 0) (some (ascii "[Server]\nport=80\n")) =
        .ok (settings, true) ∧
      settings.port = iniPort (ascii "[Server]\nport=80\n") 60000 ∧
      StringAt settings.addr 0 (iniAddr (ascii "[Server]\nport=80\n") (ascii "127.0.0.1")) := by
  have hlines : iniLines (ascii "[Server]\nport=80\n") =
      [.header (ascii "Server"), .assignment (ascii "port") (ascii "80"), .nothing] := by
    decide
  have honly : ∀ line ∈ iniLines (ascii "[Server]\nport=80\n"), ∀ name, line = .header name →
      name = ascii "Server" := by
    rw [hlines]
    intro line hline name hname
    subst hname
    simp only [List.mem_cons, Line.header.injEq, reduceCtorEq, List.not_mem_nil, or_false] at hline
    exact hline
  apply load_ini (by decide) ?_ app_addr (by decide) ?_ (fun _ => 0)
  · intro line hline name hname
    rw [honly line hline name hname]
    decide
  · intro line hline name hname _
    rw [honly line hline name hname]
    decide

theorem load_strings {strings : List CText} (hstrings : fileStrings text = strings)
    (hshort : ∀ s ∈ strings, lineOf (strip s) = .nothing ∨ s.length < sectionSize + 2)
    (haddr : StringAt settings.addr 0 addr) (line : Buffer lineSize UInt8) :
    ∃ settings', loadAppConfig settings line (some text) = .ok (settings', true) ∧
      settings'.port = ((settingsOf settings addr).takeAll trimmedInPlace strings).port := by
  obtain ⟨-, settings', hload, -, hport⟩ | ⟨⟨s, hs, hlong⟩, -⟩ := loadAppConfig_spec haddr line text
  · rw [hstrings] at hport
    exact ⟨settings', hload, hport⟩
  · rw [hstrings] at hs
    rcases hshort s hs with hnothing | hless
    · obtain ⟨name, hname, -⟩ := hlong
      rw [hnothing] at hname
      exact absurd hname nofun
    · exact absurd hlong.length (Nat.not_le.mpr hless)

def spacedServer : CText := ascii "[ Server]\nport=80\n"

def longComment : CText :=
  ascii "[Server]\nport=80\n#" ++ List.replicate 254 97 ++ ascii "port=81\n"

/-- A section whose name has a space in front of it is not entered, and the end of a comment sets the
port. -/
theorem load_not_ini :
    (∃ settings, loadAppConfig app (fun _ => 0) (some spacedServer) = .ok (settings, true) ∧
      settings.port = 60000 ∧ iniPort spacedServer app.port = 80) ∧
    ∃ settings, loadAppConfig app (fun _ => 0) (some longComment) = .ok (settings, true) ∧
      settings.port = 81 ∧ iniPort longComment app.port = 80 := by
  have hspaced : fileStrings spacedServer = [ascii "[ Server]\n", ascii "port=80\n"] := by decide
  have hlong : fileStrings longComment = [ascii "[Server]\n", ascii "port=80\n",
      35 :: List.replicate 254 97, ascii "port=81\n"] := by
    decide +kernel
  constructor
  · obtain ⟨settings, hload, hport⟩ := load_strings hspaced (by decide) app_addr (fun _ => 0)
    refine ⟨settings, hload, ?_, by decide⟩
    rw [hport]
    decide
  · obtain ⟨settings, hload, hport⟩ := load_strings hlong (by decide +kernel) app_addr (fun _ => 0)
    refine ⟨settings, hload, ?_, by decide +kernel⟩
    rw [hport]
    decide +kernel

end RemoteDevice.Config
