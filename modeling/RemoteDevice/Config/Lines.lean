import RemoteDevice.Config.Model

/-! What one line does to the settings: the array code beside the strings that the arrays hold. -/

namespace RemoteDevice.Config
open Checked CMemory CText

def strip (s : CText) : CText := (s.dropWhile isSpace).rdropWhile isSpace

inductive Line
  | nothing
  | header (name : CText)
  | assignment (key value : CText)
  deriving DecidableEq

def lineOf (s : CText) : Line :=
  if s.head? = none ∨ s.head? = some 35 ∨ s.head? = some 59 then .nothing
  else if s.head? = some 91 ∧ s.getLast? = some 93 then .header (s.drop 1).dropLast
  else if 61 ∈ s then
    .assignment (strip (s.takeWhile (· ≠ 61))) (strip ((s.dropWhile (· ≠ 61)).drop 1))
  else .nothing

structure Settings where
  inSection : CText
  addr : CText
  port : Int
  deriving DecidableEq

/-- `enter` is the name of the section that is entered, from what is between the brackets. -/
def Settings.take (enter : CText → CText) (st : Settings) : Line → Settings
  | .nothing => st
  | .header name => { st with inSection := enter name }
  | .assignment key value =>
    if st.inSection = ascii "Server" then
      if key = ascii "port" then { st with port := atoi value }
      else if key = ascii "addr" then { st with addr := value.take (maxAddrLen - 1) }
      else st
    else st

/-- What is left in `current_section`: the white space in front of the name stays. -/
def trimmedInPlace (name : CText) : CText := name.takeWhile isSpace ++ strip name

structure Loader.Holds (m : Loader) (st : Settings) : Prop where
  inSection : StringAt m.currentSection 0 st.inSection
  addr : StringAt m.app.addr 0 st.addr
  port : m.app.port = st.port

variable {n : Nat} {a : Buffer n UInt8} {i : Nat} {s : CText} {m : Loader} {st : Settings}

/-! ## trim -/

theorem rdropWhile_cons_of_neg {p : UInt8 → Bool} {c : UInt8} (hc : p c = false) (s : CText) :
    (c :: s).rdropWhile p = c :: s.rdropWhile p := by
  induction s using List.reverseRecOn with
  | nil => rw [List.rdropWhile_singleton, hc, List.rdropWhile_nil, if_neg Bool.false_ne_true]
  | append_singleton s d ih =>
    rw [← List.cons_append, List.rdropWhile_concat, List.rdropWhile_concat, ih]
    split <;> rfl

theorem trim_spec (h : StringAt a i s) :
    ∃ b, trim a i = .ok (i + (s.takeWhile isSpace).length, b) ∧
      StringAt b i (s.takeWhile isSpace ++ strip s) ∧
      ∀ j, j < i ∨ i + s.length < j → read b j = read a j := by
  have hsplit : s.takeWhile isSpace ++ s.dropWhile isSpace = s := List.takeWhile_append_dropWhile
  have hseek := h.seek (show isSpace 0 = false by decide)
  rw [strip]
  generalize s.takeWhile isSpace = spaces at hsplit hseek ⊢
  -- only white space, or a first other character `c`
  cases hrest : s.dropWhile isSpace with
  | nil =>
    rw [hrest, List.append_nil] at hsplit
    subst hsplit
    refine ⟨a, ?_, ?_, fun _ _ => rfl⟩
    · rw [trim, hseek]
      simp only [bind, Except.bind, h.nul, if_true]
      rfl
    · rwa [List.rdropWhile_nil, List.append_nil]
  | cons c t =>
    rw [hrest] at hsplit
    have hc : isSpace c = false := delim_of_dropWhile hrest
    rw [rdropWhile_cons_of_neg hc]
    obtain ⟨more, hmore⟩ := List.rdropWhile_prefix isSpace (l := t)
    rw [← hsplit] at h ⊢
    have hword := h.drop
    have hne : ¬c = 0 := fun hzero => hword.noNul (hzero ▸ List.mem_cons_self)
    have hread : read a (i + spaces.length) = .ok c := hword.head
    have hlast : sub (i + spaces.length + (c :: t).length) 1 = .ok (i + spaces.length + t.length) := by
      rw [List.length_cons, ← Nat.add_assoc]
      exact if_pos (Nat.succ_le_succ (Nat.zero_le _))
    rw [← hmore, ← List.cons_append, ← List.append_assoc] at h
    obtain ⟨b, hb, hstring, hframe⟩ := h.cut
    have hend : i + spaces.length + (t.rdropWhile isSpace).length + 1 =
        i + (spaces ++ c :: t.rdropWhile isSpace).length := by
      rw [List.length_append, List.length_cons]
      omega
    refine ⟨b, ?_, hstring, ?_⟩
    · rw [trim, hseek]
      simp only [bind, Except.bind, hread, if_neg hne, hword.strlen, hlast, hword.seekBack, hend, hb]
      rfl
    · have hle := congrArg List.length hmore
      rw [List.length_append] at hle
      intro j hj
      rw [List.length_append, List.length_cons] at hj
      apply hframe
      omega

theorem strip_length (s : CText) : (s.takeWhile isSpace ++ strip s).length ≤ s.length := by
  have hsplit := congrArg List.length (List.takeWhile_append_dropWhile (p := isSpace) (l := s))
  have hprefix := (List.rdropWhile_prefix isSpace (l := s.dropWhile isSpace)).length_le
  rw [List.length_append] at hsplit
  rw [strip, List.length_append]
  omega

/-! ## A header -/

theorem isHeader_spec {line : Buffer lineSize UInt8} (h : StringAt line i s) (hne : s ≠ []) :
    isHeader line i = .ok (decide (s.head? = some 91 ∧ s.getLast? = some 93)) := by
  obtain ⟨c, t, rfl⟩ := List.exists_cons_of_ne_nil hne
  have hfirst : read line i = .ok c := h.head
  rw [isHeader, hfirst]
  simp only [bind, Except.bind]
  by_cases hc : c = 91
  · have hsub : sub (i + (c :: t).length) 1 = .ok (i + t.length) := by
      rw [List.length_cons, ← Nat.add_assoc]
      exact if_pos (Nat.succ_le_succ (Nat.zero_le _))
    obtain ⟨front, last, hlast⟩ := (List.eq_nil_or_concat (c :: t)).resolve_left hne
    have hlen : t.length = front.length := by
      have hall := congrArg List.length hlast
      rw [List.length_cons, List.length_concat] at hall
      exact Nat.succ.inj hall
    rw [List.concat_eq_append] at hlast
    have hread : read line (i + t.length) = .ok last := by
      rw [hlast] at h
      rw [hlen]
      exact h.drop.head
    have hboth : ((c :: t).head? = some 91 ∧ (c :: t).getLast? = some 93) ↔ last = 93 := by
      rw [List.head?_cons, hc, ← hc, hlast, List.getLast?_concat, hc]
      simp only [true_and, Option.some.injEq]
    rw [if_pos hc, h.strlen, decide_eq_decide.mpr hboth]
    simp only [hsub, hread]
    rfl
  · rw [if_neg hc, List.head?_cons]
    simp only [Option.some.injEq, hc, false_and, decide_false]
    rfl

theorem readHeader_spec {name : CText} (hm : m.Holds st) (h : StringAt m.line i (91 :: name ++ [93]))
    (hshort : name.length < sectionSize) :
    ∃ m', readHeader m i = .ok m' ∧ m'.Holds (st.take trimmedInPlace (.header name)) := by
  have hname : StringAt m.line (i + 1) (name ++ [93]) := h.tail
  have hcount : sub (91 :: name ++ [93]).length 2 = .ok name.length := by
    rw [List.cons_append, List.length_cons, List.length_append, List.length_singleton]
    exact if_pos (Nat.le_add_left 2 name.length)
  obtain ⟨b, c, hb, hc, hcopy⟩ := hname.strncpy_terminated m.currentSection hshort
  rw [List.take_left] at hcopy
  obtain ⟨d, hd, htrimmed, -⟩ := trim_spec hcopy
  refine ⟨{ m with currentSection := d }, ?_, ⟨htrimmed, hm.addr, hm.port⟩⟩
  rw [readHeader, h.strlen]
  simp only [bind, Except.bind, hcount, hb, hc, hd]
  rfl

theorem readHeader_fault {name : CText} (h : StringAt m.line i (91 :: name ++ [93]))
    (hlong : sectionSize ≤ name.length) : readHeader m i = .error .outOfBounds := by
  have hname : StringAt m.line (i + 1) (name ++ [93]) := h.tail
  have hcount : sub (91 :: name ++ [93]).length 2 = .ok name.length := by
    rw [List.cons_append, List.length_cons, List.length_append, List.length_singleton]
    exact if_pos (Nat.le_add_left 2 name.length)
  rw [readHeader, h.strlen]
  simp only [bind, Except.bind, hcount]
  rcases Nat.eq_or_lt_of_le hlong with hequal | hless
  -- the name fits, but not the NUL behind it
  · obtain ⟨b, hb, -⟩ := hname.strncpy m.currentSection (show 0 + name.length ≤ sectionSize by omega)
    simp only [hb, write_fault b 0 hlong]
  · rw [hname.strncpy_fault m.currentSection (Nat.zero_le _) (by omega)]

/-! ## An assignment -/

theorem setValue_spec {key value : CText} {k v : Nat} (hm : m.Holds st) (hkey : StringAt m.line k key)
    (hvalue : StringAt m.line v value) (enter : CText → CText) :
    ∃ m', setValue m k v = .ok m' ∧ m'.Holds (st.take enter (.assignment key value)) := by
  have hserver := hm.inSection.strcmpZero (show 0 ∉ ascii "Server" by decide)
  have hport := hkey.strcmpZero (show 0 ∉ ascii "port" by decide)
  have haddr := hkey.strcmpZero (show 0 ∉ ascii "addr" by decide)
  rw [setValue, hserver, Settings.take]
  simp only [bind, Except.bind, decide_eq_true_eq]
  by_cases hin : st.inSection = ascii "Server"
  · rw [if_pos hin, if_pos hin, hport]
    simp only [decide_eq_true_eq]
    by_cases hisPort : key = ascii "port"
    · rw [if_pos hisPort, if_pos hisPort, hvalue.text]
      exact ⟨_, rfl, hm.inSection, hm.addr, rfl⟩
    · rw [if_neg hisPort, if_neg hisPort, haddr]
      simp only [decide_eq_true_eq]
      by_cases hisAddr : key = ascii "addr"
      · obtain ⟨b, c, hb, hc, hcopy⟩ :=
          hvalue.strncpy_terminated m.app.addr (show maxAddrLen - 1 < maxAddrLen by decide)
        rw [if_pos hisAddr, if_pos hisAddr]
        simp only [hb, hc]
        exact ⟨_, rfl, hm.inSection, hcopy, hm.port⟩
      · rw [if_neg hisAddr, if_neg hisAddr]
        exact ⟨m, rfl, hm⟩
  · rw [if_neg hin, if_neg hin]
    exact ⟨m, rfl, hm⟩

theorem assignment_spec {key value : CText} {line : Buffer lineSize UInt8}
    (hm : Loader.Holds { m with line := line } st) (h : StringAt line i (key ++ 61 :: value))
    (hkey : 61 ∉ key) (enter : CText → CText) :
    ∃ m', (do
        let delimiterIndex ← strchr line i 61
        match delimiterIndex with
        | none => pure { m with line := line }
        | some delimiterIndex => do
          let line ← line.write delimiterIndex 0
          let (key, line) ← trim line i
          let (value, line) ← trim line (delimiterIndex + 1)
          setValue { m with line := line } key value) = .ok m' ∧
      m'.Holds (st.take enter (.assignment (strip key) (strip value))) := by
  obtain ⟨b, hb, hleft, hframe⟩ := h.cut
  have hright : StringAt b (i + key.length + 1) value := by
    have htail : StringAt line (i + key.length + 1) value := h.drop.tail
    exact htail.congr fun j hj _ => hframe j (by omega)
  obtain ⟨c, hc, hkeyAt, hframe'⟩ := trim_spec hleft
  have hright' : StringAt c (i + key.length + 1) value :=
    hright.congr fun j hj _ => hframe' j (by omega)
  obtain ⟨d, hd, hvalueAt, hframe''⟩ := trim_spec hright'
  have hkeyAt' : StringAt d i (key.takeWhile isSpace ++ strip key) := by
    have hle : (key.takeWhile isSpace ++ strip key).length ≤ key.length := strip_length key
    exact hkeyAt.congr fun j _ hj => hframe'' j (by omega)
  obtain ⟨m', hm', hholds⟩ := setValue_spec (m := { m with line := d }) ⟨hm.inSection, hm.addr, hm.port⟩
    hkeyAt'.drop hvalueAt.drop enter
  refine ⟨m', ?_, hholds⟩
  rw [h.strchr_some hkey]
  simp only [bind, Except.bind, hb, hc, hd]
  exact hm'

theorem lineOf_assignment {key value : CText} (hfirst : ¬((key ++ 61 :: value).head? = none ∨
      (key ++ 61 :: value).head? = some 35 ∨ (key ++ 61 :: value).head? = some 59))
    (hheader : ¬((key ++ 61 :: value).head? = some 91 ∧ (key ++ 61 :: value).getLast? = some 93))
    (hkey : 61 ∉ key) :
    lineOf (key ++ 61 :: value) = .assignment (strip key) (strip value) := by
  have hall : ∀ b ∈ key, decide (b ≠ 61) = true := by
    intro b hb
    rw [decide_eq_true_eq]
    rintro rfl
    exact hkey hb
  have hmem : 61 ∈ key ++ 61 :: value := List.mem_append_right key List.mem_cons_self
  rw [lineOf, if_neg hfirst, if_neg hheader, if_pos hmem, List.takeWhile_append_of_pos hall,
    List.dropWhile_append_of_pos hall]
  simp

def LongHeader (s : CText) : Prop := ∃ name, lineOf (strip s) = .header name ∧ sectionSize ≤ name.length

theorem lineOf_header_iff {name : CText} :
    lineOf s = .header name ↔ s = 91 :: name ++ [93] := by
  rw [lineOf]
  constructor
  · intro h
    by_cases hfirst : s.head? = none ∨ s.head? = some 35 ∨ s.head? = some 59
    · rw [if_pos hfirst] at h
      exact absurd h nofun
    rw [if_neg hfirst] at h
    by_cases hheader : s.head? = some 91 ∧ s.getLast? = some 93
    · rw [if_pos hheader] at h
      obtain ⟨front, rfl⟩ := List.getLast?_eq_some_iff.mp hheader.2
      obtain rfl := Line.header.inj h
      cases front with
      | nil => exact absurd hheader.1 (by decide)
      | cons c front =>
        obtain rfl : c = 91 := Option.some.inj hheader.1
        rw [List.cons_append, List.drop_one, List.tail_cons, List.dropLast_concat]
        rfl
    · rw [if_neg hheader] at h
      split at h <;> exact absurd h nofun
  · rintro rfl
    have hlast : (91 :: name ++ [93]).getLast? = some 93 := List.getLast?_concat
    rw [if_neg (by simp), if_pos ⟨rfl, hlast⟩, List.cons_append, List.drop_one, List.tail_cons,
      List.dropLast_concat]

/-- The test that `readLine` makes on the first byte, which is the NUL of an empty line. -/
theorem skipped_iff {t : CText} (hnul : 0 ∉ t) :
    (t.headD 0 = 0 ∨ t.headD 0 = 35 ∨ t.headD 0 = 59) ↔
      (t.head? = none ∨ t.head? = some 35 ∨ t.head? = some 59) := by
  cases t with
  | nil => exact iff_of_true (.inl rfl) (.inl rfl)
  | cons c t =>
    have hc : c ≠ 0 := fun hzero => hnul (hzero ▸ List.mem_cons_self)
    simp [hc]

theorem readLine_spec (hm : m.Holds st) (h : StringAt m.line 0 s) :
    (¬LongHeader s ∧ ∃ m', readLine m = .ok m' ∧ m'.Holds (st.take trimmedInPlace (lineOf (strip s)))) ∨
      (LongHeader s ∧ readLine m = .error .outOfBounds) := by
  obtain ⟨b, hb, hstring, -⟩ := trim_spec h
  have htrimmed := hstring.drop
  have hm' : Loader.Holds { m with line := b } st := ⟨hm.inSection, hm.addr, hm.port⟩
  rw [readLine, hb, LongHeader]
  generalize 0 + (s.takeWhile isSpace).length = i at htrimmed
  generalize strip s = t at htrimmed
  have hnothing (hline : lineOf t = .nothing) :
      (¬∃ name, lineOf t = .header name ∧ sectionSize ≤ name.length) ∧
        ∃ m', (pure { m with line := b } : Result Loader) = .ok m' ∧
          m'.Holds (st.take trimmedInPlace (lineOf t)) := by
    refine ⟨?_, _, rfl, ?_⟩
    · rintro ⟨name, hname, -⟩
      exact absurd (hline.symm.trans hname) nofun
    · rw [hline]
      exact hm'
  simp only [bind, Except.bind, htrimmed.head]
  -- a line that is passed over, a header, an assignment, or a line without `=`
  by_cases hfirst : t.head? = none ∨ t.head? = some 35 ∨ t.head? = some 59
  · rw [if_pos ((skipped_iff htrimmed.noNul).mpr hfirst)]
    exact .inl (hnothing (if_pos hfirst))
  have hne : t ≠ [] := by
    rintro rfl
    exact hfirst (.inl rfl)
  rw [if_neg (mt (skipped_iff htrimmed.noNul).mp hfirst), isHeader_spec htrimmed hne]
  simp only [decide_eq_true_eq]
  by_cases hheader : t.head? = some 91 ∧ t.getLast? = some 93
  · obtain ⟨name, hname⟩ : ∃ name, lineOf t = .header name := by
      rw [lineOf, if_neg hfirst, if_pos hheader]
      exact ⟨_, rfl⟩
    have ht := lineOf_header_iff.mp hname
    rw [if_pos hheader]
    rcases Nat.lt_or_ge name.length sectionSize with hshort | hlong
    · refine .inl ⟨?_, ?_⟩
      · rintro ⟨other, hother, hlong⟩
        obtain rfl := Line.header.inj (hname.symm.trans hother)
        exact absurd hshort (Nat.not_lt.mpr hlong)
      · rw [hname]
        rw [ht] at htrimmed
        exact readHeader_spec hm' htrimmed hshort
    · refine .inr ⟨⟨name, hname, hlong⟩, ?_⟩
      rw [ht] at htrimmed
      exact readHeader_fault (m := { m with line := b }) htrimmed hlong
  · rw [if_neg hheader]
    by_cases hequals : 61 ∈ t
    · obtain ⟨key, value, rfl, hkey⟩ := List.eq_append_cons_of_mem hequals
      have hline := lineOf_assignment hfirst hheader hkey
      refine .inl ⟨?_, ?_⟩
      · rintro ⟨name, hname, -⟩
        exact absurd (hline.symm.trans hname) nofun
      · rw [hline]
        exact assignment_spec hm' htrimmed hkey trimmedInPlace
    · rw [htrimmed.strchr_none hequals (by decide)]
      refine .inl (hnothing ?_)
      rw [lineOf, if_neg hfirst, if_neg hheader, if_neg hequals]

end RemoteDevice.Config
