import RemoteDevice.Command.Outcome
import RemoteDevice.Command.Program
import RemoteDevice.Lib.Decimal
import RemoteDevice.Lib.Framing

/-! What `exec_command` answers: every reply is one line of printable text, and the reply to `STATUS`
tells the status apart from every other. -/

namespace RemoteDevice
open CText Framing

def lineEnd : UInt8 := 10

def isPlain (b : UInt8) : Bool := 32 ≤ b && b ≤ 126 && b ≠ 34

def Plain (s : CText) : Prop := ∀ b ∈ s, isPlain b = true

def replyKinds : List CText := [ascii "OK ", ascii "ERR ", ascii "DATA "]

structure IsReply (reply : CText) : Prop where
  text : ∃ s, Plain s ∧ reply = frame lineEnd s
  size : reply.length < bufferSize
  kind : ∃ kind ∈ replyKinds, kind <+: reply

def IsInt (n : Int) : Prop := -2 ^ 31 ≤ n ∧ n < 2 ^ 31

instance (n : Int) : Decidable (IsInt n) := inferInstanceAs (Decidable (_ ∧ _))

structure DeviceApi.ReturnsInts {σ : Type} (api : DeviceApi σ) : Prop where
  lightValue : ∀ d, IsInt (api.deviceGetStatus.run d).1.lightValue
  segmentValue : ∀ d, IsInt (api.deviceGetStatus.run d).1.segmentValue
  lightRead : ∀ d, IsInt (api.deviceLightRead.run d).1.2

/-! ## Plain texts -/

instance (s : CText) : Decidable (Plain s) := decidable_of_iff (s.all isPlain = true) List.all_eq_true

variable {s t text : CText} {n result : Int}

theorem Plain.append (hs : Plain s) (ht : Plain t) : Plain (s ++ t) := by
  intro b hb
  rcases List.mem_append.mp hb with hb | hb
  · exact hs b hb
  · exact ht b hb

theorem Plain.lineEnd_not_mem (h : Plain s) : lineEnd ∉ s :=
  fun hmem => absurd (h lineEnd hmem) (by decide)

theorem isPlain_of_isDigit {b : UInt8} (h : isDigit b = true) : isPlain b = true := by
  simp only [isDigit, Bool.and_eq_true, decide_eq_true_eq, UInt8.le_iff_toNat_le] at h
  have hlow : 48 ≤ b.toNat := h.1
  have hhigh : b.toNat ≤ 57 := h.2
  simp only [isPlain, Bool.and_eq_true, decide_eq_true_eq, UInt8.le_iff_toNat_le, ne_eq,
    ← UInt8.toNat_inj]
  refine ⟨⟨?_, ?_⟩, ?_⟩ <;> simp <;> omega

theorem plain_decimal (n : Int) : Plain (decimal n) := by
  intro b hb
  rcases mem_decimal hb with rfl | hdigit
  · rfl
  · exact isPlain_of_isDigit hdigit

theorem plain_onOff (b : Bool) : Plain (onOff b) ∧ (onOff b).length ≤ 3 := by
  cases b <;> decide

theorem plain_loaded (b : Bool) : Plain (loaded b) ∧ (loaded b).length ≤ 7 := by
  cases b <;> decide

theorem plain_message (result : Int) :
    Plain (deviceResultMessage result) ∧ (deviceResultMessage result).length ≤ 18 := by
  unfold deviceResultMessage
  split_ifs <;> decide

/-! ## Replies -/

theorem IsReply.lineEnd_not_mem (h : IsReply t) : ∃ s, lineEnd ∉ s ∧ t = frame lineEnd s := by
  obtain ⟨s, hplain, heq⟩ := h.text
  exact ⟨s, hplain.lineEnd_not_mem, heq⟩

theorem snprintf_eq (h : t.length < bufferSize) : snprintf t = t :=
  List.take_of_length_le (Nat.le_sub_one_of_lt h)

theorem snprintf_line (hplain : Plain s) (hsize : s.length + 1 < bufferSize)
    (hkind : ∃ kind ∈ replyKinds, kind <+: s) : IsReply (snprintf (s ++ ascii "\n")) := by
  have hlength : (s ++ ascii "\n").length = s.length + 1 := List.length_append
  have hwhole : snprintf (s ++ ascii "\n") = frame lineEnd s := snprintf_eq (hlength ▸ hsize)
  rw [hwhole]
  obtain ⟨kind, hmem, hopens⟩ := hkind
  exact ⟨⟨s, hplain, rfl⟩, hlength ▸ hsize, kind, hmem, hopens.trans (List.prefix_append ..)⟩

theorem writeDeviceError_isReply (result : Int) : IsReply (writeDeviceError result) := by
  obtain ⟨hplain, hlength⟩ := plain_message result
  have hopening : (ascii "ERR DEVICE_ERROR ").length = 17 := rfl
  refine snprintf_line ((by decide : Plain (ascii "ERR DEVICE_ERROR ")).append hplain) ?_ ?_
  · rw [List.length_append, hopening, bufferSize]
    omega
  · exact ⟨ascii "ERR ", by decide, List.prefix_iff_eq_take.mpr rfl⟩

theorem respond_isReply (h : IsReply (snprintf text)) : IsReply (respond result text) := by
  unfold respond
  split
  · exact h
  · exact writeDeviceError_isReply result

theorem numbered_isReply {opening : CText} (hn : IsInt n) (hplain : Plain opening)
    (hlength : opening.length ≤ 1000) (hkind : ∃ kind ∈ replyKinds, kind <+: opening) :
    IsReply (snprintf (opening ++ decimal n ++ ascii "\n")) := by
  have hnumber := decimal_length hn.1 hn.2
  obtain ⟨kind, hmem, hopens⟩ := hkind
  refine snprintf_line (hplain.append (plain_decimal n)) ?_
    ⟨kind, hmem, hopens.trans (List.prefix_append ..)⟩
  rw [List.length_append, bufferSize]
  omega

theorem statusText_length {status : DeviceStatus} (hlight : IsInt status.lightValue)
    (hsegment : IsInt status.segmentValue) : (statusText status).length ≤ 88 := by
  have hlightLength := decimal_length hlight.1 hlight.2
  have hsegmentLength := decimal_length hsegment.1 hsegment.2
  have hinit := (plain_onOff status.initialized).2
  have hled := (plain_onOff status.ledOn).2
  have hbuzzer := (plain_onOff status.buzzerOn).2
  have henabled := (plain_onOff status.segmentEnabled).2
  have hfixed : (ascii "DATA STATUS INIT=").length + (ascii " LED=").length +
      (ascii " BUZZER=").length + (ascii " LIGHT=").length + (ascii " SEG=").length +
      (ascii " SEG_VALUE=").length + (ascii "\n").length = 54 := rfl
  simp only [statusText, List.length_append]
  omega

theorem pluginsText_length (status : PluginStatus) : (pluginsText status).length ≤ 70 := by
  have hled := (plain_loaded status.ledLoaded).2
  have hbuzzer := (plain_loaded status.buzzerLoaded).2
  have hlight := (plain_loaded status.lightLoaded).2
  have hsegment := (plain_loaded status.segmentLoaded).2
  have hfixed : (ascii "DATA PLUGINS LED=").length + (ascii " BUZZER=").length +
      (ascii " LIGHT=").length + (ascii " SEGMENT=").length + (ascii "\n").length = 42 := rfl
  simp only [pluginsText, List.length_append]
  omega

theorem status_isReply {status : DeviceStatus} (hlight : IsInt status.lightValue)
    (hsegment : IsInt status.segmentValue) : IsReply (snprintf (statusText status)) := by
  have hlength := statusText_length hlight hsegment
  unfold statusText at hlength
  rw [List.length_append] at hlength
  apply snprintf_line
  · refine .append (.append (.append (.append (.append (.append (.append (.append (.append (.append
      (.append ?_ ?_) ?_) ?_) ?_) ?_) ?_) ?_) ?_) ?_) ?_) ?_
    any_goals exact (plain_onOff _).1
    any_goals exact plain_decimal _
    all_goals decide
  · have hend : (ascii "\n").length = 1 := rfl
    unfold bufferSize
    omega
  · exact ⟨ascii "DATA ", by decide, List.prefix_iff_eq_take.mpr rfl⟩

theorem plugins_isReply (status : PluginStatus) : IsReply (snprintf (pluginsText status)) := by
  have hlength := pluginsText_length status
  unfold pluginsText at hlength
  rw [List.length_append] at hlength
  apply snprintf_line
  · refine .append (.append (.append (.append (.append (.append (.append ?_ ?_) ?_) ?_) ?_) ?_) ?_) ?_
    any_goals exact (plain_loaded _).1
    all_goals decide
  · have hend : (ascii "\n").length = 1 := rfl
    unfold bufferSize
    omega
  · exact ⟨ascii "DATA ", by decide, List.prefix_iff_eq_take.mpr rfl⟩

theorem light_isReply {lightValue : Int} (h : IsInt lightValue) (on : Bool) :
    IsReply (snprintf (ascii "DATA LIGHT " ++ decimal lightValue ++ ascii " LED=" ++ onOff on ++
      ascii "\n")) := by
  have hlight := decimal_length h.1 h.2
  have hswitch := (plain_onOff on).2
  apply snprintf_line
  · refine .append (.append (.append ?_ (plain_decimal _)) ?_) (plain_onOff on).1
    all_goals decide
  · have hfixed : (ascii "DATA LIGHT ").length + (ascii " LED=").length = 16 := rfl
    simp only [List.length_append]
    unfold bufferSize
    omega
  · exact ⟨ascii "DATA ", by decide, List.prefix_iff_eq_take.mpr rfl⟩

theorem isReply_iff : IsReply t ↔ (Plain t.dropLast ∧ t = frame lineEnd t.dropLast) ∧
    t.length < bufferSize ∧ ∃ kind ∈ replyKinds, kind <+: t := by
  constructor
  · rintro ⟨⟨s, hplain, rfl⟩, hsize, hkind⟩
    have hdrop : (frame lineEnd s).dropLast = s := List.dropLast_concat
    rw [hdrop]
    exact ⟨⟨hplain, rfl⟩, hsize, hkind⟩
  · rintro ⟨⟨hplain, heq⟩, hsize, hkind⟩
    exact ⟨⟨_, hplain, heq⟩, hsize, hkind⟩

instance (t : CText) : Decidable (IsReply t) := decidable_of_iff' _ isReply_iff

/-! ## Every command -/

theorem commandSpecs_bounds : ∀ spec ∈ commandSpecs, 0 ≤ spec.minValue ∧ spec.maxValue ≤ 10000 := by
  decide

theorem commandParse_value (line : CText) :
    0 ≤ (commandParse line).value ∧ (commandParse line).value ≤ 10000 := by
  have hzero : (0 : Int) ≤ 0 ∧ (0 : Int) ≤ 10000 := ⟨Int.le_refl 0, by decide⟩
  rcases Nat.lt_or_ge line.length commandLineMax with hshort | hlong
  case inr =>
    rw [commandParse_long hlong]
    exact hzero
  cases htokens : lineTokens line with
  | nil =>
    rw [commandParse_eq hshort, htokens]
    exact hzero
  | cons device words =>
    obtain ⟨spec, hspec, -, hparse⟩ | ⟨-, hparse⟩ := commandParse_words hshort htokens
    case inr =>
      rw [hparse]
      exact hzero
    rw [hparse]
    cases hargs : spec.argType with
    | none =>
      rw [parseArg_of_none hargs]
      split <;> exact hzero
    | string =>
      rw [parseArg_of_string hargs]
      cases words[1]? <;> exact hzero
    | int =>
      rw [parseArg_of_int hargs]
      cases hnumber : (if words[2]?.isSome then none else
          parseIntArg words[1]? spec.minValue spec.maxValue) with
      | none => exact hzero
      | some number =>
        rw [Option.ite_none_left_eq_some] at hnumber
        obtain ⟨-, -, -, hlow, hhigh⟩ := parseIntArg_denotes hspec hnumber.2
        obtain ⟨hmin, hmax⟩ := commandSpecs_bounds spec hspec
        exact ⟨Int.le_trans hmin hlow, Int.le_trans hhigh hmax⟩

theorem isInt_commandParse (line : CText) : IsInt (commandParse line).value := by
  obtain ⟨hlow, hhigh⟩ := commandParse_value line
  exact ⟨by omega, by omega⟩

def ExecProgram.Ends (P : CText → Prop) : ExecProgram → Prop
  | .reply text => P text
  | .call _ next => ∀ result, (next result).Ends P
  | .lightRead next => ∀ result lightValue, IsInt lightValue → (next result lightValue).Ends P
  | .getStatus next =>
    ∀ status, IsInt status.lightValue → IsInt status.segmentValue → (next status).Ends P
  | .pluginStatus next => ∀ status, (next status).Ends P

theorem ExecProgram.Ends.run {σ : Type} {api : DeviceApi σ} (hapi : api.ReturnsInts) {P : CText → Prop}
    {p : ExecProgram} (h : p.Ends P) (d : σ) : P ((p.run api).run d).1 := by
  induction p generalizing d with
  | reply text => exact h
  | call c next ih => exact ih _ (h _) _
  | lightRead next ih => exact ih _ _ (h _ _ (hapi.lightRead d)) _
  | getStatus next ih => exact ih _ (h _ (hapi.lightValue d) (hapi.segmentValue d)) _
  | pluginStatus next ih => exact ih _ (h _) _

theorem switchLamp_ends (result : Int) {lightValue : Int} (h : IsInt lightValue) :
    (ExecProgram.switchLamp result lightValue).Ends IsReply := by
  have htext : IsReply (snprintf (ExecProgram.lightText lightValue)) := light_isReply h _
  unfold ExecProgram.switchLamp
  split
  · split
    · exact fun _ => respond_isReply htext
    split
    · exact fun _ => respond_isReply htext
    · exact respond_isReply htext
  · exact writeDeviceError_isReply result

theorem execProgram_ends {command : ParsedCommand} (h : IsInt command.value) :
    (execProgram command).Ends IsReply := by
  unfold execProgram
  cases command.type with
  | help => exact (by decide +kernel : IsReply (snprintf helpText))
  | quit | empty | invalidValue | invalid =>
    show IsReply (snprintf _)
    decide
  | status => exact fun status hlight hsegment => status_isReply hlight hsegment
  | pluginList => exact fun status => plugins_isReply status
  | lightRead => exact fun result lightValue hlight => switchLamp_ends result hlight
  | ledOn | ledOff | buzzerMusic | buzzerOn | buzzerOff | segClear =>
    exact fun result => respond_isReply (by decide)
  | ledOnBright | buzzerBeep | segDisplay =>
    exact fun result => respond_isReply (numbered_isReply h (by decide) (by decide) (by decide))

theorem execCommand_isReply {σ : Type} {api : DeviceApi σ} (hapi : api.ReturnsInts) (line : CText) (d : σ) :
    IsReply ((execCommand api line).run d).1 := by
  rw [execCommand, ← execProgram_run]
  exact (execProgram_ends (isInt_commandParse line)).run hapi d

theorem execAll_isReply {σ : Type} {api : DeviceApi σ} (hapi : api.ReturnsInts) {commands : List ParsedCommand}
    (hvalues : ∀ c ∈ commands, IsInt c.value) (d : σ) : ∀ r ∈ ((execAll api commands).run d).1, IsReply r := by
  induction commands generalizing d with
  | nil => exact fun _ h => absurd h List.not_mem_nil
  | cons command commands ih =>
    have hfirst : IsReply ((execParsed api command).run d).1 := by
      rw [← execProgram_run]
      exact (execProgram_ends (hvalues command List.mem_cons_self)).run hapi d
    have hrest := ih (fun c hc => hvalues c (List.mem_cons_of_mem _ hc)) ((execParsed api command).run d).2
    have hcons : ((execAll api (command :: commands)).run d).1 =
        ((execParsed api command).run d).1 ::
          ((execAll api commands).run ((execParsed api command).run d).2).1 := by
      rw [execAll, List.mapM_cons]
      rfl
    rw [hcons]
    exact List.forall_mem_cons.mpr ⟨hfirst, hrest⟩

end RemoteDevice
