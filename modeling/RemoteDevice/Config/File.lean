import RemoteDevice.Config.Lines

/-! The whole file: `load_app_config` stays inside its arrays as long as every name between brackets
fits into the array for it. -/

namespace RemoteDevice.Config
open Checked CMemory CText

def strings : Nat → List UInt8 → List CText
  | 0, _ => []
  | rounds + 1, rest =>
    if rest = [] then []
    else
      ofBuffer (linePiece (lineSize - 1) rest) ::
        strings rounds (rest.drop (linePiece (lineSize - 1) rest).length)

/-- The strings that the rounds of the loop find in `line`: what is read is cut at 255 bytes, and ends
at a NUL. -/
def fileStrings (bytes : List UInt8) : List CText := strings (bytes.length + 1) bytes

def Settings.takeAll (enter : CText → CText) (st : Settings) (lines : List CText) : Settings :=
  lines.foldl (fun st s => st.take enter (lineOf (strip s))) st

variable {m : Loader} {st : Settings} {settings : AppConfig} {addr : CText}

theorem readLines_spec (hm : m.Holds st) (rounds : Nat) (rest : List UInt8) :
    ((∀ s ∈ strings rounds rest, ¬LongHeader s) ∧
      ∃ m', readLines rounds rest m = .ok m' ∧
        m'.Holds (st.takeAll trimmedInPlace (strings rounds rest))) ∨
    ((∃ s ∈ strings rounds rest, LongHeader s) ∧ readLines rounds rest m = .error .outOfBounds) := by
  induction rounds generalizing m st rest with
  | zero => exact .inl ⟨fun s hs => absurd hs List.not_mem_nil, m, rfl, hm⟩
  | succ rounds ih =>
    rw [readLines, strings]
    by_cases hrest : rest = []
    · have hend : fgets m.line lineSize rest = .ok none := if_pos hrest
      rw [if_pos hrest, hend]
      exact .inl ⟨fun s hs => absurd hs List.not_mem_nil, m, rfl, hm⟩
    · obtain ⟨b, hb, hstring⟩ := fgets_string m.line (by decide) (Nat.le_refl lineSize) hrest
      have hm' : Loader.Holds { m with line := b } st := ⟨hm.inSection, hm.addr, hm.port⟩
      rw [if_neg hrest, hb]
      simp only [bind, Except.bind]
      obtain ⟨hfits, m', hread, hholds⟩ | ⟨hlong, hfault⟩ := readLine_spec hm' hstring
      · rw [hread]
        obtain ⟨hall, m'', hlines, hholds'⟩ | ⟨⟨s, hs, hlong⟩, hfault⟩ :=
          ih hholds (rest.drop (linePiece (lineSize - 1) rest).length)
        · exact .inl ⟨List.forall_mem_cons.mpr ⟨hfits, hall⟩, m'', hlines, hholds'⟩
        · exact .inr ⟨⟨s, List.mem_cons_of_mem _ hs, hlong⟩, hfault⟩
      · rw [hfault]
        exact .inr ⟨⟨_, List.mem_cons_self, hlong⟩, rfl⟩

def settingsOf (settings : AppConfig) (addr : CText) : Settings := ⟨[], addr, settings.port⟩

theorem loader_holds (haddr : StringAt settings.addr 0 addr) (line : Buffer lineSize UInt8) :
    Loader.Holds ⟨line, fun _ => 0, settings⟩ (settingsOf settings addr) :=
  ⟨⟨List.not_mem_nil, rfl, trivial⟩, haddr, rfl⟩

theorem loadAppConfig_spec (haddr : StringAt settings.addr 0 addr) (line : Buffer lineSize UInt8)
    (bytes : List UInt8) :
    ((∀ s ∈ fileStrings bytes, ¬LongHeader s) ∧
      ∃ settings', loadAppConfig settings line (some bytes) = .ok (settings', true) ∧
        let st := (settingsOf settings addr).takeAll trimmedInPlace (fileStrings bytes)
        StringAt settings'.addr 0 st.addr ∧ settings'.port = st.port) ∨
    ((∃ s ∈ fileStrings bytes, LongHeader s) ∧
      loadAppConfig settings line (some bytes) = .error .outOfBounds) := by
  rw [loadAppConfig]
  obtain ⟨hall, m, hm, hholds⟩ | ⟨hlong, hfault⟩ :=
    readLines_spec (loader_holds haddr line) (bytes.length + 1) bytes
  · refine .inl ⟨hall, m.app, ?_, hholds.addr, hholds.port⟩
    simp only [hm, bind, Except.bind]
    rfl
  · refine .inr ⟨hlong, ?_⟩
    simp only [hfault, bind, Except.bind]

/-- Every access is inside its array, and the address ends inside its own, exactly if no name between
brackets is too long. -/
theorem config_in_bounds_iff (haddr : StringAt settings.addr 0 addr) (line : Buffer lineSize UInt8)
    (bytes : List UInt8) :
    (∃ settings', loadAppConfig settings line (some bytes) = .ok (settings', true) ∧
        ∃ text, StringAt settings'.addr 0 text) ↔
      ∀ s ∈ fileStrings bytes, ¬LongHeader s := by
  obtain ⟨hall, settings', hload, hnew, -⟩ | ⟨⟨s, hs, hlong⟩, hfault⟩ :=
    loadAppConfig_spec haddr line bytes
  · exact iff_of_true ⟨settings', hload, _, hnew⟩ hall
  · refine iff_of_false ?_ fun hall => hall s hs hlong
    rintro ⟨settings', hload, -⟩
    rw [hfault] at hload
    exact absurd hload nofun

theorem LongHeader.length {s : CText} (h : LongHeader s) : sectionSize + 2 ≤ s.length := by
  obtain ⟨name, hname, hlong⟩ := h
  have hlen := congrArg List.length (lineOf_header_iff.mp hname)
  have hle := strip_length s
  rw [List.cons_append, List.length_cons, List.length_append, List.length_singleton] at hlen
  rw [List.length_append] at hle
  omega

theorem app_addr : StringAt app.addr 0 (ascii "127.0.0.1") :=
  ⟨by decide, rfl, rfl, rfl, rfl, rfl, rfl, rfl, rfl, rfl, rfl, trivial⟩

theorem config_in_bounds_iff_server :
    ∃ settings, loadAppConfig app (fun _ => 0) (some (ascii "[Server]\nport=80\n")) =
      .ok (settings, true) ∧ ∃ text, StringAt settings.addr 0 text := by
  have hstrings : fileStrings (ascii "[Server]\nport=80\n") = [ascii "[Server]\n", ascii "port=80\n"] := by
    decide
  apply (config_in_bounds_iff app_addr (fun _ => 0) _).mpr
  rw [hstrings]
  intro s hs hlong
  have hlen := hlong.length
  rcases List.mem_pair.mp hs with rfl | rfl
  · exact absurd hlen (by decide)
  · exact absurd hlen (by decide)

/-- A name of 64 bytes: the NUL behind it is written beyond the array. -/
theorem section_overflows :
    loadAppConfig app (fun _ => 0) (some (91 :: List.replicate 64 97 ++ [93])) =
      .error .outOfBounds := by
  have hstrings : fileStrings (91 :: List.replicate 64 97 ++ [93]) = [91 :: List.replicate 64 97 ++ [93]] := by
    decide
  have hstrip : strip (91 :: List.replicate 64 97 ++ [93]) = 91 :: List.replicate 64 97 ++ [93] := by
    decide
  obtain ⟨hall, -⟩ | ⟨-, hfault⟩ :=
    loadAppConfig_spec app_addr (fun _ => 0) (91 :: List.replicate 64 97 ++ [93])
  · have hlong : LongHeader (91 :: List.replicate 64 97 ++ [93]) := by
      refine ⟨List.replicate 64 97, ?_, ?_⟩
      · rw [hstrip]
        exact lineOf_header_iff.mpr rfl
      · rw [List.length_replicate]
        exact Nat.le_refl 64
    exact absurd hlong (hall _ (by rw [hstrings]; exact List.mem_singleton_self _))
  · exact hfault

end RemoteDevice.Config
