import RemoteDevice.Command.Reply

/-! The two reports, `DATA STATUS` and `DATA PLUGINS`: a reader finds in the reply what the device
manager returned. -/

namespace RemoteDevice
open CText Framing

/-! ## Words and separators -/

section
variable {delim : UInt8 → Bool}

theorem tokens_words {d : UInt8} (hd : delim d = true) (word : CText) (words : List CText)
    (h : ∀ w ∈ word :: words, w ≠ [] ∧ ∀ b ∈ w, delim b = false) :
    tokens delim (word ++ (words.flatMap (d :: ·))) = word :: words := by
  induction words generalizing word with
  | nil =>
    obtain ⟨hne, hdelim⟩ := h word List.mem_cons_self
    rw [List.flatMap_nil, List.append_nil]
    exact tokens_of_not_delim hne hdelim
  | cons next words ih =>
    obtain ⟨hne, hdelim⟩ := h word List.mem_cons_self
    have hrest := ih next fun w hw => h w (List.mem_cons_of_mem _ hw)
    rw [List.flatMap_cons, List.cons_append, tokens_append_delim _ _ hd, tokens_of_not_delim hne hdelim,
      hrest]
    rfl

end

def field (key : CText) (words : List CText) : Option CText :=
  (words.find? (key ++ [61]).isPrefixOf).map (List.drop (key.length + 1))

def readOnOff (s : CText) : Option Bool :=
  if s = ascii "ON" then some true else if s = ascii "OFF" then some false else none

def readLoaded (s : CText) : Option Bool :=
  if s = ascii "LOADED" then some true else if s = ascii "MISSING" then some false else none

def readDecimal (s : CText) : Option Int :=
  let r := strtol s
  if s = [] ∨ r.endptr ≠ [] ∨ r.erange then none else some r.number

def readStatus (reply : CText) : Option DeviceStatus := do
  let words := lineTokens reply
  if words.take 2 ≠ [ascii "DATA", ascii "STATUS"] then none
  else
    let initialized ← (field (ascii "INIT") words).bind readOnOff
    let ledOn ← (field (ascii "LED") words).bind readOnOff
    let buzzerOn ← (field (ascii "BUZZER") words).bind readOnOff
    let lightValue ← (field (ascii "LIGHT") words).bind readDecimal
    let segmentEnabled ← (field (ascii "SEG") words).bind readOnOff
    let segmentValue ← (field (ascii "SEG_VALUE") words).bind readDecimal
    return ⟨initialized, ledOn, buzzerOn, lightValue, segmentEnabled, segmentValue⟩

def readPlugins (reply : CText) : Option PluginStatus := do
  let words := lineTokens reply
  if words.take 2 ≠ [ascii "DATA", ascii "PLUGINS"] then none
  else
    let ledLoaded ← (field (ascii "LED") words).bind readLoaded
    let buzzerLoaded ← (field (ascii "BUZZER") words).bind readLoaded
    let lightLoaded ← (field (ascii "LIGHT") words).bind readLoaded
    let segmentLoaded ← (field (ascii "SEGMENT") words).bind readLoaded
    return ⟨ledLoaded, buzzerLoaded, lightLoaded, segmentLoaded⟩

/-! ## The words of a report -/

def statusWords (status : DeviceStatus) : List CText := [
  ascii "STATUS",
  ascii "INIT=" ++ onOff status.initialized,
  ascii "LED=" ++ onOff status.ledOn,
  ascii "BUZZER=" ++ onOff status.buzzerOn,
  ascii "LIGHT=" ++ decimal status.lightValue,
  ascii "SEG=" ++ onOff status.segmentEnabled,
  ascii "SEG_VALUE=" ++ decimal status.segmentValue]

def pluginsWords (status : PluginStatus) : List CText := [
  ascii "PLUGINS",
  ascii "LED=" ++ loaded status.ledLoaded,
  ascii "BUZZER=" ++ loaded status.buzzerLoaded,
  ascii "LIGHT=" ++ loaded status.lightLoaded,
  ascii "SEGMENT=" ++ loaded status.segmentLoaded]

theorem statusText_eq (status : DeviceStatus) :
    statusText status = ascii "DATA" ++ (statusWords status).flatMap (32 :: ·) ++ [10] := by
  simp only [statusText, statusWords, List.flatMap_cons, List.flatMap_nil, List.append_assoc,
    List.append_nil]
  rfl

theorem pluginsText_eq (status : PluginStatus) :
    pluginsText status = ascii "DATA" ++ (pluginsWords status).flatMap (32 :: ·) ++ [10] := by
  simp only [pluginsText, pluginsWords, List.flatMap_cons, List.flatMap_nil, List.append_assoc,
    List.append_nil]
  rfl

theorem not_isDelim_of_plain {b : UInt8} (h : isPlain b = true) (hblank : b ≠ 32) : isDelim b = false := by
  simp only [isPlain, Bool.and_eq_true, decide_eq_true_eq, UInt8.le_iff_toNat_le] at h
  have hlow : 32 ≤ b.toNat := h.1.1
  have htab : b ≠ 9 := by rintro rfl; exact absurd hlow (by decide)
  have hreturn : b ≠ 13 := by rintro rfl; exact absurd hlow (by decide)
  have hend : b ≠ 10 := by rintro rfl; exact absurd hlow (by decide)
  simp [isDelim, hblank, htab, hreturn, hend]

theorem Plain.not_delim {w : CText} (h : Plain w) (hblank : 32 ∉ w) : ∀ b ∈ w, isDelim b = false :=
  fun b hb => not_isDelim_of_plain (h b hb) fun heq => hblank (heq ▸ hb)

theorem report_word {key value : CText} (hkey : key ≠ [] ∧ Plain key ∧ 32 ∉ key)
    (hvalue : ∀ b ∈ value, isDelim b = false) :
    key ++ value ≠ [] ∧ ∀ b ∈ key ++ value, isDelim b = false := by
  refine ⟨fun h => hkey.1 (List.append_eq_nil_iff.mp h).1, fun b hb => ?_⟩
  rcases List.mem_append.mp hb with hb | hb
  · exact hkey.2.1.not_delim hkey.2.2 b hb
  · exact hvalue b hb

theorem onOff_not_delim (b : Bool) : ∀ c ∈ onOff b, isDelim c = false :=
  (plain_onOff b).1.not_delim (by cases b <;> decide)

theorem loaded_not_delim (b : Bool) : ∀ c ∈ loaded b, isDelim c = false :=
  (plain_loaded b).1.not_delim (by cases b <;> decide)

theorem decimal_not_delim (n : Int) : ∀ c ∈ decimal n, isDelim c = false := by
  refine (plain_decimal n).not_delim fun hmem => ?_
  rcases mem_decimal hmem with h | h
  · exact absurd h (by decide)
  · exact absurd h (by decide)

theorem lineTokens_words (word : CText) (words : List CText)
    (h : ∀ w ∈ word :: words, w ≠ [] ∧ ∀ b ∈ w, isDelim b = false) :
    lineTokens (word ++ words.flatMap (32 :: ·) ++ [10]) = word :: words := by
  have hend : isDelim 10 = true := rfl
  have hblank : isDelim 32 = true := rfl
  rw [lineTokens, tokens_append_delim _ _ hend, tokens_nil, List.append_nil]
  exact tokens_words hblank word words h

theorem lineTokens_status (status : DeviceStatus) :
    lineTokens (statusText status) = ascii "DATA" :: statusWords status := by
  rw [statusText_eq]
  apply lineTokens_words
  simp only [statusWords, List.forall_mem_cons]
  have hdata : ∀ b ∈ ascii "DATA", isDelim b = false := Plain.not_delim (by decide) (by decide)
  refine ⟨⟨by decide, hdata⟩, ⟨by decide, ?_⟩, ?_, ?_, ?_, ?_, ?_, ?_, fun _ h => absurd h List.not_mem_nil⟩
  · exact Plain.not_delim (by decide) (by decide)
  · exact report_word (by decide) (onOff_not_delim _)
  · exact report_word (by decide) (onOff_not_delim _)
  · exact report_word (by decide) (onOff_not_delim _)
  · exact report_word (by decide) (decimal_not_delim _)
  · exact report_word (by decide) (onOff_not_delim _)
  · exact report_word (by decide) (decimal_not_delim _)

theorem lineTokens_plugins (status : PluginStatus) :
    lineTokens (pluginsText status) = ascii "DATA" :: pluginsWords status := by
  rw [pluginsText_eq]
  apply lineTokens_words
  simp only [pluginsWords, List.forall_mem_cons]
  have hdata : ∀ b ∈ ascii "DATA", isDelim b = false := Plain.not_delim (by decide) (by decide)
  refine ⟨⟨by decide, hdata⟩, ⟨by decide, ?_⟩, ?_, ?_, ?_, ?_, fun _ h => absurd h List.not_mem_nil⟩
  · exact Plain.not_delim (by decide) (by decide)
  · exact report_word (by decide) (loaded_not_delim _)
  · exact report_word (by decide) (loaded_not_delim _)
  · exact report_word (by decide) (loaded_not_delim _)
  · exact report_word (by decide) (loaded_not_delim _)

/-! ## Reading a report -/

theorem readOnOff_onOff (b : Bool) : readOnOff (onOff b) = some b := by cases b <;> rfl

theorem readLoaded_loaded (b : Bool) : readLoaded (loaded b) = some b := by cases b <;> rfl

theorem readDecimal_decimal {n : Int} (h : IsInt n) : readDecimal (decimal n) = some n := by
  have hne : decimal n ≠ [] := (numeral_decimal n).ne_nil
  have hread := strtol_decimal (n := n) (by have := h.1; omega) (by have := h.2; omega)
  simp only [readDecimal, hread, hne]
  rfl

theorem readStatus_statusText {status : DeviceStatus} (hlight : IsInt status.lightValue)
    (hsegment : IsInt status.segmentValue) : readStatus (statusText status) = some status := by
  have hinit : field (ascii "INIT") (ascii "DATA" :: statusWords status) = some (onOff status.initialized) := rfl
  have hled : field (ascii "LED") (ascii "DATA" :: statusWords status) = some (onOff status.ledOn) := rfl
  have hbuzzer : field (ascii "BUZZER") (ascii "DATA" :: statusWords status) =
      some (onOff status.buzzerOn) := rfl
  have hlightField : field (ascii "LIGHT") (ascii "DATA" :: statusWords status) =
      some (decimal status.lightValue) := rfl
  have hseg : field (ascii "SEG") (ascii "DATA" :: statusWords status) =
      some (onOff status.segmentEnabled) := rfl
  have hvalue : field (ascii "SEG_VALUE") (ascii "DATA" :: statusWords status) =
      some (decimal status.segmentValue) := rfl
  have htake : (ascii "DATA" :: statusWords status).take 2 = [ascii "DATA", ascii "STATUS"] := rfl
  simp only [readStatus, lineTokens_status, htake, hinit, hled, hbuzzer, hlightField, hseg, hvalue,
    Option.bind_some, readOnOff_onOff, readDecimal_decimal hlight, readDecimal_decimal hsegment]
  rfl

theorem readPlugins_pluginsText (status : PluginStatus) : readPlugins (pluginsText status) = some status := by
  have hled : field (ascii "LED") (ascii "DATA" :: pluginsWords status) = some (loaded status.ledLoaded) := rfl
  have hbuzzer : field (ascii "BUZZER") (ascii "DATA" :: pluginsWords status) =
      some (loaded status.buzzerLoaded) := rfl
  have hlight : field (ascii "LIGHT") (ascii "DATA" :: pluginsWords status) =
      some (loaded status.lightLoaded) := rfl
  have hsegment : field (ascii "SEGMENT") (ascii "DATA" :: pluginsWords status) =
      some (loaded status.segmentLoaded) := rfl
  have htake : (ascii "DATA" :: pluginsWords status).take 2 = [ascii "DATA", ascii "PLUGINS"] := rfl
  simp only [readPlugins, lineTokens_plugins, htake, hled, hbuzzer, hlight, hsegment, Option.bind_some,
    readLoaded_loaded]
  rfl

end RemoteDevice
