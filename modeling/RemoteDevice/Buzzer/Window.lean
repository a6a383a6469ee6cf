import RemoteDevice.Buzzer.Build
import RemoteDevice.Buzzer.Encoding
import RemoteDevice.Lib.Windows
import RemoteDevice.Wav.Frames

/-! The window that slides over a recording: which samples each round of `build_melody_from_wav`
hands to the detector, and which note it appends. -/

namespace RemoteDevice.Buzzer
open Checked Wav Windows

/-! ## The rounds -/

/-- The samples that a round gives to `pitch_detect_note`, and the note it gives to
`melody_buffer_append`. -/
structure Hop where
  heard : List Int16
  note : Int × UInt32

def roundHop (detect : List Int16 → PitchDetectionResult) (info : WavInfo) (hop : Nat) (b : Builder) :
    Result Hop := do
  let heard ← b.samples.take b.activeSamples
  let durationMs ← samplesToDurationMs (min hop b.activeSamples) info.sampleRate
  pure ⟨heard, (pitchTrackerUpdate b.tracker (detect heard)).2, durationMs⟩

def buildHops (detect : List Int16 → PitchDetectionResult) (info : WavInfo) (window hop : Nat) :
    List (Bool × Bool) → Builder → Result (List Hop)
  | [], _ => pure []
  | (stopRequested, reallocOk) :: answers, b =>
    if b.activeSamples = 0 ∨ stopRequested then pure []
    else do
      let h ← roundHop detect info hop b
      match ← buildRound detect info window hop b stopRequested reallocOk with
      | .next c => do
        let hs ← buildHops detect info window hop answers c
        pure (h :: hs)
      | .returned _ _ => pure [h]

def hopsOfWav (detect : List Int16 → PitchDetectionResult) (info : WavInfo) (file : ByteFile)
    (samples : Buffer pitchMaxWindowSamples Int16) (answers : List (Bool × Bool)) :
    Result (List Hop) := do
  let window ← windowSamples info
  let hop ← hopSamples info window
  let b ← buildStart info file samples window
  buildHops detect info window hop answers b

/-! ## What is expected of them -/

def durationMs (sampleRate : UInt32) (sampleCount : Nat) : Nat :=
  (sampleCount * 1000 + sampleRate.toNat - 1) / sampleRate.toNat

def expectedHops (detect : List Int16 → PitchDetectionResult) (sampleRate : UInt32)
    (window hop : Nat) (tracker : PitchTracker) (todo : List Int16) : List Hop :=
  let heard := windows window hop todo
  let pitches := (pitchTrackerRun tracker (heard.map detect)).2
  let durations := (hops hop todo.length).map fun n => UInt32.ofNat (durationMs sampleRate n)
  List.zipWith Hop.mk heard (pitches.zip durations)

variable {detect : List Int16 → PitchDetectionResult} {info : WavInfo} {window hop : Nat}
  {b : Builder} {todo : List Int16}

theorem expectedHops_nil (detect : List Int16 → PitchDetectionResult) (sampleRate : UInt32)
    (window : Nat) (hhop : 0 < hop) (tracker : PitchTracker) :
    expectedHops detect sampleRate window hop tracker [] = [] := by
  rw [expectedHops, windows_nil window hhop]
  rfl

theorem expectedHops_step (detect : List Int16 → PitchDetectionResult) (sampleRate : UInt32)
    (window : Nat) (hhop : 0 < hop) (tracker : PitchTracker) (htodo : todo ≠ []) :
    expectedHops detect sampleRate window hop tracker todo =
      ⟨todo.take window, (pitchTrackerUpdate tracker (detect (todo.take window))).2,
        .ofNat (durationMs sampleRate (min hop todo.length))⟩ ::
      expectedHops detect sampleRate window hop
        (pitchTrackerUpdate tracker (detect (todo.take window))).1 (todo.drop hop) := by
  rw [expectedHops, windows_step window hhop htodo, hops_step hhop (List.length_pos_of_ne_nil htodo),
    expectedHops, List.length_drop]
  rfl

theorem pitchTrackerRun_length (t : PitchTracker) (ds : List PitchDetectionResult) :
    (pitchTrackerRun t ds).2.length = ds.length := by
  induction ds generalizing t with
  | nil => rfl
  | cons d ds ih => exact congrArg (· + 1) (ih _)

theorem expectedHops_length (detect : List Int16 → PitchDetectionResult) (sampleRate : UInt32)
    (window hop : Nat) (tracker : PitchTracker) (todo : List Int16) :
    (expectedHops detect sampleRate window hop tracker todo).length = rounds hop todo.length := by
  simp only [expectedHops, List.length_zipWith, List.length_zip, pitchTrackerRun_length,
    List.length_map, windows, hops, List.length_range, Nat.min_self]

theorem expectedHops_get {sampleRate : UInt32} {tracker : PitchTracker} {i : Nat} {h : Hop}
    (hi : (expectedHops detect sampleRate window hop tracker todo)[i]? = some h) :
    h.heard = (todo.drop (i * hop)).take window ∧
      i < rounds hop todo.length ∧
      h.note.2 = .ofNat (durationMs sampleRate (min hop (todo.length - i * hop))) := by
  obtain ⟨hlt, rfl⟩ := List.getElem?_eq_some_iff.mp hi
  rw [expectedHops_length] at hlt
  simp only [expectedHops, List.getElem_zipWith, List.getElem_zip, windows, hops, List.getElem_map,
    List.getElem_range]
  exact ⟨trivial, hlt, trivial⟩

/-! ## The sizes -/

def windowSize (sampleRate : Nat) : Nat :=
  min (max ((sampleRate * pitchWindowMs + 999) / 1000) pitchMinWindowSamples) pitchMaxWindowSamples

def hopSize (sampleRate : Nat) : Nat :=
  let hop := min (max ((sampleRate * pitchHopMs + 999) / 1000) pitchMinHopSamples) (windowSize sampleRate)
  if hop ≥ windowSize sampleRate then windowSize sampleRate / 2 else hop

theorem samplesForDuration_eq (sampleRate : UInt32) {ms : Nat} (minSamples maxSamples : Nat)
    (hms : ms ≤ 1000) : samplesForDuration sampleRate ms minSamples maxSamples =
      .ok (min (max ((sampleRate.toNat * ms + 999) / 1000) minSamples) maxSamples) := by
  have hrate := sampleRate.toNat_lt
  have hle : sampleRate.toNat * ms ≤ 2 ^ 32 * 1000 := Nat.mul_le_mul hrate.le hms
  have hproduct : unsigned 64 (sampleRate.toNat * ms) = .ok (sampleRate.toNat * ms) :=
    if_pos (by omega)
  have hsum : unsigned 64 (sampleRate.toNat * ms + 999) = .ok (sampleRate.toNat * ms + 999) :=
    if_pos (by omega)
  have hdiv : div (sampleRate.toNat * ms + 999) 1000 = .ok ((sampleRate.toNat * ms + 999) / 1000) := rfl
  have hclamp : ∀ x, (if (if x < minSamples then minSamples else x) > maxSamples then maxSamples
      else if x < minSamples then minSamples else x) = min (max x minSamples) maxSamples := by
    intro x
    split <;> split at * <;> omega
  simp only [samplesForDuration, hproduct, hsum, hdiv, bind, Except.bind]
  exact congrArg Except.ok (hclamp _)

theorem windowSize_bounds (sampleRate : Nat) :
    768 ≤ windowSize sampleRate ∧ windowSize sampleRate ≤ 4096 := by
  rw [windowSize, pitchMinWindowSamples, pitchMaxWindowSamples]
  omega

theorem hopSize_bounds (sampleRate : Nat) :
    128 ≤ hopSize sampleRate ∧ hopSize sampleRate < windowSize sampleRate := by
  have hwindow := windowSize_bounds sampleRate
  rw [hopSize, pitchMinHopSamples]
  split <;> omega

theorem windowSamples_eq (info : WavInfo) :
    windowSamples info = .ok (windowSize info.sampleRate.toNat) :=
  samplesForDuration_eq _ _ _ (by decide)

theorem hopSamples_eq (info : WavInfo) :
    hopSamples info (windowSize info.sampleRate.toNat) = .ok (hopSize info.sampleRate.toNat) := by
  have hwindow := windowSize_bounds info.sampleRate.toNat
  have hhop := hopSize_bounds info.sampleRate.toNat
  have hne : hopSize info.sampleRate.toNat ≠ 0 := by omega
  rw [hopSamples, samplesForDuration_eq _ _ _ (by decide)]
  rw [hopSize] at hne ⊢
  simp only [bind, Except.bind] at hne ⊢
  split
  · next hge =>
    rw [if_pos hge] at hne
    simp only [div, show ¬(2 = 0) by decide, if_false, pure, Except.pure, if_neg hne]
  · next hlt =>
    rw [if_neg hlt] at hne
    simp only [pure, Except.pure, if_neg hne]

theorem sizes (info : WavInfo) :
    Sizes (windowSize info.sampleRate.toNat) (hopSize info.sampleRate.toNat) := by
  have hwindow := windowSize_bounds info.sampleRate.toNat
  have hhop := hopSize_bounds info.sampleRate.toNat
  exact ⟨hwindow.2, by omega, hhop.2⟩

/-! ## The window between two rounds -/

theorem take_min_eq {α : Type} {l : List α} {m n : Nat} (h : l.length ≤ n) :
    l.take (min m n) = l.take m := by
  rcases Nat.le_total m n with hle | hge
  · rw [Nat.min_eq_left hle]
  · rw [Nat.min_eq_right hge, List.take_of_length_le h, List.take_of_length_le (h.trans hge)]

theorem drop_min_eq {α : Type} {l : List α} {m n : Nat} (h : l.length ≤ n) :
    l.drop (min m n) = l.drop m := by
  rcases Nat.le_total m n with hle | hge
  · rw [Nat.min_eq_left hle]
  · rw [Nat.min_eq_right hge, List.drop_eq_nil_of_le h, List.drop_eq_nil_of_le (h.trans hge)]

theorem readWindowSamples_samples (hinfo : info.Supported) {n capacity : Nat} {a : Buffer n Int16}
    {front : List Int16} (ha : a.Starts front) (hfront : front.length ≤ capacity)
    (hfit : capacity ≤ n) (s : WavStream) :
    Returns (readWindowSamples info a front.length capacity s) fun (k, c, t) =>
      k = min (capacity - front.length) (s.samples info).length ∧
        c.Starts (front ++ (s.samples info).take (capacity - front.length)) ∧
        t.samples info = (s.samples info).drop (capacity - front.length) := by
  have hframe := frameSize_pos hinfo
  have hmany : (s.samples info).length ≤ s.remaining / wavFrameSize info := by
    rw [WavStream.samples_length, WavStream.decoded_length]
    exact Nat.min_le_left _ _
  rw [readWindowSamples]
  split
  · next hfull =>
    have hnone : capacity - front.length = 0 := by omega
    rw [hnone]
    refine .pure ⟨(Nat.zero_min _).symm, ?_, rfl⟩
    rwa [List.take_zero, List.append_nil]
  · simp only [if_neg hframe.ne']
    apply (div_returns hframe.ne').bind
    rintro _ rfl
    apply (sub_returns hfront).bind
    rintro _ rfl
    split
    · next hspace hnone =>
      have hempty : s.samples info = [] := List.eq_nil_of_length_eq_zero (by omega)
      rw [hempty]
      refine .pure ⟨(Nat.min_zero _).symm, ?_, ?_⟩
      · rwa [List.take_nil, List.append_nil]
      · rw [hempty, List.drop_nil]
    · rw [wavReadSamples, if_neg hframe.ne']
      apply (readFrames_samples hinfo ha (Nat.add_zero _).symm (by omega)).mono
      rintro ⟨k, c, t⟩ ⟨hk, hc, ht⟩
      rw [take_min_eq hmany] at hc
      rw [drop_min_eq hmany] at ht
      exact ⟨by omega, hc, ht⟩

/-- At the head of the loop: `todo` are the samples from the next hop on, of which the window holds
the first and the stream the rest. -/
structure Builder.Holds (info : WavInfo) (window : Nat) (todo : List Int16) (b : Builder) : Prop where
  starts : b.samples.Starts (todo.take window)
  active : b.activeSamples = (todo.take window).length
  rest : b.stream.samples info = todo.drop window

theorem buildStart_holds (hinfo : info.Supported) (file : ByteFile)
    (samples : Buffer pitchMaxWindowSamples Int16) (hwindow : window ≤ pitchMaxWindowSamples) :
    Returns (buildStart info file samples window) fun b =>
      b.Holds info window (WavStream.samples info ⟨file, info.dataSize.toNat⟩) ∧
        b.tracker = pitchTrackerInit ∧ b.melody = {} := by
  refine (readWindowSamples_samples hinfo samples.starts_nil (Nat.zero_le _) hwindow
    ⟨file, info.dataSize.toNat⟩).bind ?_
  rintro ⟨k, c, t⟩ ⟨hk, hc, ht⟩
  refine .pure ⟨⟨hc, ?_, ht⟩, rfl, rfl⟩
  rw [hk, List.length_take]
  rfl

theorem shiftWindow_starts {n : Nat} {a : Buffer n Int16} {l : List Int16} (ha : a.Starts l)
    (playSamples : Nat) :
    Returns (shiftWindow a playSamples l.length) fun (kept, c) =>
      kept = (l.drop playSamples).length ∧ c.Starts (l.drop playSamples) := by
  rw [shiftWindow]
  split
  · next hlt =>
    apply (sub_returns hlt.le).bind
    rintro _ rfl
    apply (ha.moveDown hlt.le).bind
    intro c hc
    exact .pure ⟨List.length_drop.symm, hc⟩
  · next hge =>
    rw [List.drop_eq_nil_of_le (Nat.not_lt.mp hge)]
    exact .pure ⟨rfl, a.starts_nil⟩

theorem take_fill {α : Type} (l : List α) {m n : Nat} (hmn : m ≤ n) :
    l.take m ++ (l.drop m).take (n - (l.take m).length) = l.take n ∧
      (l.drop m).drop (n - (l.take m).length) = l.drop n := by
  rcases Nat.le_total l.length m with hshort | hlong
  · have hn := hshort.trans hmn
    rw [List.drop_eq_nil_of_le hshort, List.take_of_length_le hshort, List.take_nil, List.append_nil,
      List.drop_nil, List.take_of_length_le hn, List.drop_eq_nil_of_le hn]
    exact ⟨rfl, rfl⟩
  · have hsplit : n = m + (n - m) := (Nat.add_sub_cancel' hmn).symm
    rw [List.length_take, Nat.min_eq_left hlong, ← List.take_add, List.drop_drop, ← hsplit]
    exact ⟨rfl, rfl⟩

theorem samplesToDurationMs_eq {sampleCount : Nat} (hpos : 0 < sampleCount)
    (hcount : sampleCount ≤ pitchMaxWindowSamples) {sampleRate : UInt32} (hrate : sampleRate ≠ 0) :
    samplesToDurationMs sampleCount sampleRate = .ok (.ofNat (durationMs sampleRate sampleCount)) := by
  have hlt := sampleRate.toNat_lt
  have hne : sampleRate.toNat ≠ 0 := fun h => hrate (UInt32.toNat_inj.mp h)
  rw [pitchMaxWindowSamples] at hcount
  have hproduct : unsigned 64 (sampleCount * 1000) = .ok (sampleCount * 1000) := if_pos (by omega)
  have hsum : unsigned 64 (sampleCount * 1000 + sampleRate.toNat) =
      .ok (sampleCount * 1000 + sampleRate.toNat) := if_pos (by omega)
  have hsub : sub (sampleCount * 1000 + sampleRate.toNat) 1 =
      .ok (sampleCount * 1000 + sampleRate.toNat - 1) := if_pos (by omega)
  have hdiv : div (sampleCount * 1000 + sampleRate.toNat - 1) sampleRate.toNat =
      .ok (durationMs sampleRate sampleCount) := if_neg hne
  have hsome : durationMs sampleRate sampleCount ≠ 0 := by
    rw [durationMs, Nat.div_ne_zero_iff]
    exact ⟨hne, by omega⟩
  simp only [samplesToDurationMs, hproduct, hsum, hsub, hdiv, bind, Except.bind, if_neg hsome]
  rfl

/-! ## A round -/

def Builder.heardHop (b : Builder) (detect : List Int16 → PitchDetectionResult) (info : WavInfo)
    (window hop : Nat) (todo : List Int16) : Hop :=
  ⟨todo.take window, (pitchTrackerUpdate b.tracker (detect (todo.take window))).2,
    .ofNat (durationMs info.sampleRate (min hop todo.length))⟩

theorem Builder.Holds.active_pos (hb : b.Holds info window todo) (hsizes : Sizes window hop)
    (htodo : todo ≠ []) : 0 < b.activeSamples := by
  have hpos := List.length_pos_of_ne_nil htodo
  have hlt := hsizes.hop_lt
  rw [hb.active, List.length_take]
  omega

theorem Builder.Holds.min_hop (hb : b.Holds info window todo) (hsizes : Sizes window hop) :
    min hop b.activeSamples = min hop todo.length := by
  have hlt := hsizes.hop_lt
  rw [hb.active, List.length_take]
  omega

theorem Builder.Holds.take (hb : b.Holds info window todo) :
    b.samples.take b.activeSamples = .ok (todo.take window) := by
  rw [hb.active]
  exact hb.starts.take

theorem Builder.Holds.roundHop (hb : b.Holds info window todo)
    (detect : List Int16 → PitchDetectionResult) (hinfo : info.Supported)
    (hsizes : Sizes window hop) (htodo : todo ≠ []) :
    Buzzer.roundHop detect info hop b = .ok (b.heardHop detect info window hop todo) := by
  have hpos := List.length_pos_of_ne_nil htodo
  have hwindow := hsizes.window_le
  have hhop := hsizes.hop_pos
  have hlt := hsizes.hop_lt
  have hduration : samplesToDurationMs (min hop todo.length) info.sampleRate = _ :=
    samplesToDurationMs_eq (by omega) (by omega) hinfo.2.2.2.1
  simp only [Buzzer.roundHop, hb.take, hb.min_hop hsizes, hduration, bind, Except.bind]
  rfl

theorem Builder.Holds.slide (hb : b.Holds info window todo) (hinfo : info.Supported)
    (hsizes : Sizes window hop) :
    ∃ kept a k c t, shiftWindow b.samples (min hop todo.length) b.activeSamples = .ok (kept, a) ∧
      readWindowSamples info a kept window b.stream = .ok (k, c, t) ∧
      ∀ tracker melody, (Builder.mk t c (kept + k) tracker melody).Holds info window (todo.drop hop) := by
  have hwindow := hsizes.window_le
  have hlt := hsizes.hop_lt
  obtain ⟨⟨kept, a⟩, hshift, hkept, ha⟩ := shiftWindow_starts hb.starts (min hop todo.length)
  have hplay : (todo.take window).drop (min hop todo.length) = (todo.drop hop).take (window - hop) := by
    have hle : (todo.take window).length ≤ todo.length := by
      rw [List.length_take]
      exact Nat.min_le_right _ _
    rw [drop_min_eq hle, List.drop_take]
  rw [hplay] at hkept ha
  have hbound : ((todo.drop hop).take (window - hop)).length ≤ window := by
    rw [List.length_take]
    omega
  obtain ⟨⟨k, c, t⟩, hread, hk, hc, ht⟩ :=
    readWindowSamples_samples hinfo ha hbound hwindow b.stream
  have hdrop : todo.drop window = (todo.drop hop).drop (window - hop) := by
    rw [List.drop_drop, Nat.add_sub_cancel' hlt.le]
  rw [hb.rest, hdrop] at hk hc ht
  obtain ⟨hfill, hleft⟩ := take_fill (todo.drop hop) (Nat.sub_le window hop)
  rw [hfill] at hc
  rw [hleft] at ht
  refine ⟨kept, a, k, c, t, ?_, ?_, ?_⟩
  · rw [hb.active]
    exact hshift
  · rw [hkept]
    exact hread
  · intro tracker melody
    refine ⟨hc, ?_, ht⟩
    simp only [hkept, hk, List.length_take, List.length_drop]
    omega

theorem Builder.Holds.round (hb : b.Holds info window todo)
    (detect : List Int16 → PitchDetectionResult) (hinfo : info.Supported) (hsizes : Sizes window hop)
    (htodo : todo ≠ []) (reallocOk : Bool) :
    let note := (b.heardHop detect info window hop todo).note
    (melodyBufferAppend b.melody note.1 note.2 reallocOk = none ∧
      buildRound detect info window hop b false reallocOk =
        .ok (.returned DeviceResult.deviceFailed b.melody)) ∨
    ∃ melody, melodyBufferAppend b.melody note.1 note.2 reallocOk = some melody ∧
      ((todo.drop hop = [] ∧
          buildRound detect info window hop b false reallocOk =
            .ok (.returned DeviceResult.ok melody)) ∨
        ∃ c, buildRound detect info window hop b false reallocOk = .ok (.next c) ∧
          c.Holds info window (todo.drop hop) ∧ c.melody = melody ∧
          c.tracker = (pitchTrackerUpdate b.tracker (detect (todo.take window))).1) := by
  intro note
  have hpos := List.length_pos_of_ne_nil htodo
  have hwindow := hsizes.window_le
  have hhop := hsizes.hop_pos
  have hlt := hsizes.hop_lt
  have hactive : b.activeSamples ≠ 0 := (hb.active_pos hsizes htodo).ne'
  have hduration : samplesToDurationMs (min hop todo.length) info.sampleRate = _ :=
    samplesToDurationMs_eq (by omega) (by omega) hinfo.2.2.2.1
  rw [buildRound, if_neg hactive, if_neg Bool.false_ne_true]
  simp only [hb.take, hb.min_hop hsizes, hduration, bind, Except.bind, note, heardHop]
  cases melodyBufferAppend b.melody (pitchTrackerUpdate b.tracker (detect (todo.take window))).2
    (.ofNat (durationMs info.sampleRate (min hop todo.length))) reallocOk with
  | none => exact .inl ⟨rfl, rfl⟩
  | some melody =>
    refine .inr ⟨melody, rfl, ?_⟩
    -- the file is at its end and the window is used up: the loop breaks
    by_cases hlast : b.stream.remaining = 0 ∧ b.activeSamples ≤ min hop todo.length
    · refine .inl ⟨?_, ?_⟩
      · have hactive := hb.active
        rw [List.length_take] at hactive
        exact List.drop_eq_nil_of_le (by omega)
      · simp only [if_pos hlast]
        rfl
    · obtain ⟨kept, a, k, c, t, hshift, hread, hholds⟩ := hb.slide hinfo hsizes
      refine .inr ⟨_, ?_, hholds _ melody, rfl, rfl⟩
      simp only [if_neg hlast, hshift, hread]
      rfl

/-! ## The loop -/

section
variable {h : Hop} {hs : List Hop} {answer : Bool × Bool} {answers : List (Bool × Bool)}
  {melody next : MelodyBuffer}

theorem appendAll_hop
    (happend : melodyBufferAppend melody h.note.1 h.note.2 answer.2 = some next) :
    appendAll melody (((h :: hs).map Hop.note).zip ((answer :: answers).map Prod.snd)) =
      appendAll next ((hs.map Hop.note).zip (answers.map Prod.snd)) := by
  rw [List.map_cons, List.map_cons, List.zip_cons_cons, appendAll, happend]

theorem appendAll_hop_fails
    (hfail : melodyBufferAppend melody h.note.1 h.note.2 answer.2 = none) :
    appendAll melody (((h :: hs).map Hop.note).zip ((answer :: answers).map Prod.snd)) =
      (melody, false) := by
  rw [List.map_cons, List.map_cons, List.zip_cons_cons, appendAll, hfail]

end

theorem buildHops_next {stopRequested reallocOk : Bool} {answers : List (Bool × Bool)} {h : Hop}
    {hs : List Hop} {c : Builder} (hbegins : ¬(b.activeSamples = 0 ∨ stopRequested = true))
    (hhop : roundHop detect info hop b = .ok h)
    (hround : buildRound detect info window hop b stopRequested reallocOk = .ok (.next c))
    (hrest : buildHops detect info window hop answers c = .ok hs) :
    buildHops detect info window hop ((stopRequested, reallocOk) :: answers) b = .ok (h :: hs) := by
  rw [buildHops, if_neg hbegins, hhop, hround]
  simp only [bind, Except.bind, hrest]
  rfl

theorem buildHops_returned {stopRequested reallocOk : Bool} (answers : List (Bool × Bool)) {h : Hop}
    {r : Int} {melody : MelodyBuffer} (hbegins : ¬(b.activeSamples = 0 ∨ stopRequested = true))
    (hhop : roundHop detect info hop b = .ok h)
    (hround : buildRound detect info window hop b stopRequested reallocOk = .ok (.returned r melody)) :
    buildHops detect info window hop ((stopRequested, reallocOk) :: answers) b = .ok [h] := by
  rw [buildHops, if_neg hbegins, hhop, hround]
  rfl

theorem Builder.Holds.loop (hb : b.Holds info window todo)
    (detect : List Int16 → PitchDetectionResult) (hinfo : info.Supported)
    (hsizes : Sizes window hop) {answers : List (Bool × Bool)} (hrun : ∀ a ∈ answers, a.1 = false)
    (hlong : rounds hop todo.length < answers.length) :
    ∃ made r melody, buildHops detect info window hop answers b = .ok made ∧
      buildLoop detect info window hop answers b = .ok (some (r, melody)) ∧
      appendAll b.melody ((made.map Hop.note).zip (answers.map Prod.snd)) =
        (melody, decide (r = (DeviceResult.ok : Int))) ∧
      made <+: expectedHops detect info.sampleRate window hop b.tracker todo ∧
      (r = DeviceResult.ok ∧ made = expectedHops detect info.sampleRate window hop b.tracker todo ∨
        r = DeviceResult.deviceFailed ∧ made ≠ [] ∧
          appendAll b.melody ((made.dropLast.map Hop.note).zip (answers.map Prod.snd)) =
            (melody, true)) := by
  have hhop : 0 < hop := hsizes.hop_pos
  induction answers generalizing b todo with
  -- every round takes a hop off what is left to do, so the answers do not run out
  | nil => exact absurd hlong (Nat.not_lt_zero _)
  | cons answer answers ih =>
    obtain ⟨stopRequested, reallocOk⟩ := answer
    obtain rfl : stopRequested = false := hrun _ List.mem_cons_self
    by_cases htodo : todo = []
    · subst htodo
      have hactive : b.activeSamples = 0 := by rw [hb.active, List.take_nil, List.length_nil]
      refine ⟨[], DeviceResult.ok, b.melody, ?_, ?_, rfl, List.nil_prefix, .inl ⟨rfl, ?_⟩⟩
      · rw [buildHops, if_pos (.inl hactive)]
        rfl
      · rw [buildLoop, buildRound, if_pos hactive]
        rfl
      · rw [expectedHops_nil _ _ _ hhop]
    have hbegins : ¬(b.activeSamples = 0 ∨ false = true) := by
      rw [not_or]
      exact ⟨(hb.active_pos hsizes htodo).ne', Bool.false_ne_true⟩
    have hexpected := expectedHops_step detect info.sampleRate window hhop b.tracker htodo
    have hfirst := hb.roundHop detect hinfo hsizes htodo
    rw [hexpected, buildLoop]
    obtain ⟨hfail, hround⟩ | ⟨melody, happend, ⟨hlast, hround⟩ | ⟨c, hround, hc, rfl, htracker⟩⟩ :=
      hb.round detect hinfo hsizes htodo reallocOk
    · rw [buildHops_returned answers hbegins hfirst hround, hround]
      refine ⟨_, _, _, rfl, rfl, ?_, ?_, .inr ⟨rfl, List.cons_ne_nil _ _, rfl⟩⟩
      · rw [appendAll_hop_fails hfail]
        rfl
      · exact List.prefix_cons_inj _ |>.mpr List.nil_prefix
    · rw [buildHops_returned answers hbegins hfirst hround, hround, hlast,
        expectedHops_nil _ _ _ hhop]
      refine ⟨_, _, melody, rfl, rfl, ?_, List.prefix_rfl, .inl ⟨rfl, rfl⟩⟩
      rw [appendAll_hop happend]
      rfl
    · have hless : rounds hop (todo.drop hop).length < answers.length := by
        rw [rounds_step hhop (List.length_pos_of_ne_nil htodo), List.length_cons] at hlong
        rw [List.length_drop]
        omega
      obtain ⟨made, r, melody, hmade, hloop, hall, hpre, hend⟩ :=
        ih hc (fun a ha => hrun a (List.mem_cons_of_mem _ ha)) hless
      rw [htracker] at hpre hend
      rw [buildHops_next hbegins hfirst hround hmade, hround]
      refine ⟨_, r, melody, rfl, hloop, ?_, ?_, ?_⟩
      · rw [appendAll_hop happend]
        exact hall
      · exact (List.prefix_cons_inj _).mpr hpre
      · rcases hend with ⟨hr, rfl⟩ | ⟨hr, hne, hstored⟩
        · exact .inl ⟨hr, rfl⟩
        · refine .inr ⟨hr, List.cons_ne_nil _ _, ?_⟩
          rw [List.dropLast_cons_of_ne_nil hne, appendAll_hop happend]
          exact hstored

theorem Builder.Holds.hops_prefix (hb : b.Holds info window todo)
    (detect : List Int16 → PitchDetectionResult) (hinfo : info.Supported) (hsizes : Sizes window hop)
    (answers : List (Bool × Bool)) :
    ∃ made, buildHops detect info window hop answers b = .ok made ∧
      made <+: expectedHops detect info.sampleRate window hop b.tracker todo := by
  induction answers generalizing b todo with
  | nil => exact ⟨[], rfl, List.nil_prefix⟩
  | cons answer answers ih =>
    obtain ⟨stopRequested, reallocOk⟩ := answer
    by_cases hends : b.activeSamples = 0 ∨ stopRequested = true
    · exact ⟨[], if_pos hends, List.nil_prefix⟩
    obtain ⟨hactive, hrun⟩ := not_or.mp hends
    obtain rfl : stopRequested = false := Bool.eq_false_iff.mpr hrun
    have htodo : todo ≠ [] := by
      rintro rfl
      rw [hb.active, List.take_nil] at hactive
      exact hactive rfl
    have hfirst := hb.roundHop detect hinfo hsizes htodo
    have hsingle (l : List Hop) : [b.heardHop detect info window hop todo] <+:
        b.heardHop detect info window hop todo :: l := ⟨l, rfl⟩
    rw [expectedHops_step detect info.sampleRate window hsizes.hop_pos b.tracker htodo]
    obtain ⟨-, hround⟩ | ⟨melody, -, ⟨-, hround⟩ | ⟨c, hround, hc, -, htracker⟩⟩ :=
      hb.round detect hinfo hsizes htodo reallocOk
    · exact ⟨_, buildHops_returned answers hends hfirst hround, hsingle _⟩
    · exact ⟨_, buildHops_returned answers hends hfirst hround, hsingle _⟩
    · obtain ⟨made, hmade, hpre⟩ := ih hc
      rw [htracker] at hpre
      exact ⟨_, buildHops_next hends hfirst hround hmade, (List.prefix_cons_inj _).mpr hpre⟩

theorem appendAll_ok {melody : MelodyBuffer} {hops : List ((Int × UInt32) × Bool)}
    (h : ∀ p ∈ hops, p.2 = true) : (appendAll melody hops).2 = true := by
  induction hops generalizing melody with
  | nil => rfl
  | cons p hops ih =>
    obtain ⟨next, hnext⟩ := melodyBufferAppend_total melody p.1.1 p.1.2
    have hok : p.2 = true := h p List.mem_cons_self
    rw [← hok] at hnext
    rw [appendAll, hnext]
    exact ih fun q hq => h q (List.mem_cons_of_mem _ hq)

def recordedHops (detect : List Int16 → PitchDetectionResult) (info : WavInfo) (file : ByteFile) :
    List Hop :=
  expectedHops detect info.sampleRate (windowSize info.sampleRate.toNat)
    (hopSize info.sampleRate.toNat) pitchTrackerInit
    (WavStream.samples info ⟨file, info.dataSize.toNat⟩)

theorem hopsOfWav_start {file : ByteFile} {samples : Buffer pitchMaxWindowSamples Int16}
    (detect : List Int16 → PitchDetectionResult) (answers : List (Bool × Bool))
    (hstart : buildStart info file samples (windowSize info.sampleRate.toNat) = .ok b) :
    hopsOfWav detect info file samples answers =
      buildHops detect info (windowSize info.sampleRate.toNat) (hopSize info.sampleRate.toNat)
        answers b := by
  simp only [hopsOfWav, windowSamples_eq, hopSamples_eq, hstart, bind, Except.bind]

theorem hopsOfWav_prefix (hinfo : info.Supported) (file : ByteFile)
    (samples : Buffer pitchMaxWindowSamples Int16) (detect : List Int16 → PitchDetectionResult)
    (answers : List (Bool × Bool)) :
    ∃ made, hopsOfWav detect info file samples answers = .ok made ∧
      made <+: recordedHops detect info file := by
  have hsizes := sizes info
  obtain ⟨b, hstart, hb, htracker, -⟩ := buildStart_holds hinfo file samples hsizes.window_le
  obtain ⟨made, hmade, hpre⟩ := hb.hops_prefix detect hinfo hsizes answers
  rw [htracker] at hpre
  rw [hopsOfWav_start detect answers hstart]
  exact ⟨made, hmade, hpre⟩

theorem hopsOfWav_expected (hinfo : info.Supported) (file : ByteFile)
    (samples : Buffer pitchMaxWindowSamples Int16) (detect : List Int16 → PitchDetectionResult)
    {answers : List (Bool × Bool)} (hrun : ∀ a ∈ answers, a.1 = false)
    (hlong : rounds (hopSize info.sampleRate.toNat)
      (WavStream.samples info ⟨file, info.dataSize.toNat⟩).length < answers.length) :
    ∃ made r melody, hopsOfWav detect info file samples answers = .ok made ∧
      buildMelodyFromWav detect info file samples answers = .ok (some (r, melody)) ∧
      appendAll {} ((made.map Hop.note).zip (answers.map Prod.snd)) =
        (melody, decide (r = (DeviceResult.ok : Int))) ∧
      made <+: recordedHops detect info file ∧
      (r = DeviceResult.ok ∧ made = recordedHops detect info file ∨
        r = DeviceResult.deviceFailed ∧ made ≠ [] ∧
          appendAll {} ((made.dropLast.map Hop.note).zip (answers.map Prod.snd)) = (melody, true)) := by
  have hsizes := sizes info
  obtain ⟨b, hstart, hb, htracker, hmelody⟩ := buildStart_holds hinfo file samples hsizes.window_le
  obtain ⟨made, r, melody, hmade, hloop, hrest⟩ := hb.loop detect hinfo hsizes hrun hlong
  rw [htracker, hmelody] at hrest
  refine ⟨made, r, melody, ?_, ?_, hrest⟩
  · rw [hopsOfWav_start detect answers hstart]
    exact hmade
  · simp only [buildMelodyFromWav, windowSamples_eq, hopSamples_eq, hstart, bind, Except.bind]
    exact hloop

/-- The hops cover the complete frames of the recording with no gap, no overlap and no stale sample.
The loop makes all of them, unless an allocation fails: then it ends in that round. -/
theorem windows_cover_recording {bytes : List UInt8}
    (haccepted : wavReadHeader bytes = some (info, (DeviceResult.ok : Int))) :
    ∃ window hop, windowSamples info = .ok window ∧ hopSamples info window = .ok hop ∧
      ∀ (pos : Nat) (samples : Buffer pitchMaxWindowSamples Int16)
        (detect : List Int16 → PitchDetectionResult) (answers : List (Bool × Bool)) (s : WavStream),
        s = ⟨⟨bytes, pos⟩, info.dataSize.toNat⟩ → (∀ a ∈ answers, a.1 = false) →
        rounds hop (s.decoded info).length < answers.length →
        ∃ made r melody, hopsOfWav detect info ⟨bytes, pos⟩ samples answers = .ok made ∧
          buildMelodyFromWav detect info ⟨bytes, pos⟩ samples answers = .ok (some (r, melody)) ∧
          (∀ i h, made[i]? = some h →
            h.heard.map Int16.toInt = ((s.decoded info).drop (i * hop)).take window ∧
            samplesToDurationMs (min hop ((s.decoded info).length - i * hop)) info.sampleRate =
              .ok h.note.2) ∧
          appendAll {} ((made.map Hop.note).zip (answers.map Prod.snd)) =
            (melody, decide (r = (DeviceResult.ok : Int))) ∧
          (r = DeviceResult.ok ∧ made.length = rounds hop (s.decoded info).length ∨
            r = DeviceResult.deviceFailed ∧ made.length ≤ rounds hop (s.decoded info).length ∧
              made ≠ [] ∧
              appendAll {} ((made.dropLast.map Hop.note).zip (answers.map Prod.snd)) = (melody, true)) ∧
          ((∀ a ∈ answers, a.2 = true) → r = DeviceResult.ok) := by
  have hinfo := wavReadHeader_supported haccepted
  have hsizes := sizes info
  refine ⟨_, _, windowSamples_eq info, hopSamples_eq info, ?_⟩
  rintro pos samples detect answers s rfl hrun hlong
  rw [← WavStream.samples_length] at hlong ⊢
  -- the hops made are the first of those expected, and all of them unless an append fails
  obtain ⟨made, r, melody, hmade, hbuild, happend, hpre, hend⟩ :=
    hopsOfWav_expected hinfo ⟨bytes, pos⟩ samples detect hrun hlong
  have hlen := hpre.length_le
  rw [recordedHops, expectedHops_length] at hlen
  refine ⟨made, r, melody, hmade, hbuild, ?_, happend, ?_, ?_⟩
  · intro i h hi
    obtain ⟨hlt, rfl⟩ := List.getElem?_eq_some_iff.mp hi
    have hget := List.prefix_iff_getElem?.mp hpre i hlt
    obtain ⟨hheard, hround, hduration⟩ := expectedHops_get hget
    have hinside := mul_lt_of_lt_rounds hround
    have hwindow := hsizes.window_le
    have hhop := hsizes.hop_pos
    have hlt := hsizes.hop_lt
    refine ⟨?_, ?_⟩
    · rw [hheard, List.map_take, List.map_drop, WavStream.samples_toInt hinfo]
    · rw [hduration]
      exact samplesToDurationMs_eq (by omega) (by omega) hinfo.2.2.2.1
  · rcases hend with ⟨hr, rfl⟩ | ⟨hr, hfailed⟩
    · exact .inl ⟨hr, expectedHops_length ..⟩
    · exact .inr ⟨hr, hlen, hfailed⟩
  · intro hok
    have hall : (appendAll {} ((made.map Hop.note).zip (answers.map Prod.snd))).2 = true := by
      apply appendAll_ok
      intro p hp
      obtain ⟨a, ha, hsnd⟩ := List.mem_map.mp (List.of_mem_zip hp).2
      rw [← hsnd]
      exact hok a ha
    rw [happend] at hall
    exact of_decide_eq_true hall

/-- Silence in three hops, of which the last is short. -/
theorem windows_cover_recording_sample :
    ∃ made melody, hopsOfWav (fun _ => ⟨440, 69, true, false⟩)
        (WavFile.silence 11025 500 (by decide)).info (WavFile.silenceStream 11025 500 (by decide)).file
        (fun _ => 0) (List.replicate 4 (false, true)) = .ok made ∧
      buildMelodyFromWav (fun _ => ⟨440, 69, true, false⟩)
        (WavFile.silence 11025 500 (by decide)).info (WavFile.silenceStream 11025 500 (by decide)).file
        (fun _ => 0) (List.replicate 4 (false, true)) = .ok (some (DeviceResult.ok, melody)) ∧
      made.length = 3 ∧ ∀ h, made[2]? = some h → h.heard.length = 58 ∧ h.note.2 = 6 := by
  have hmany : 500 < 2 ^ 31 := by decide
  have hfits : 11025 < 2 ^ 32 := by decide
  have hpos : 0 < 11025 := by decide
  have hlen := WavFile.silence_decoded_length (h := hmany) hfits hpos
  have hrate := WavFile.silence_sampleRate (h := hmany) hfits
  obtain ⟨window, hop, hwindow, hhop, h⟩ :=
    windows_cover_recording (WavFile.silence_decoded (h := hmany) hfits hpos)
  obtain rfl := Except.ok.inj ((windowSamples_eq _).symm.trans hwindow)
  obtain rfl := Except.ok.inj ((hopSamples_eq _).symm.trans hhop)
  obtain ⟨made, r, melody, hmade, hbuild, hheard, -, hend, hok⟩ :=
    h (WavFile.silence 11025 500 hmany).info.dataOffset.toNat (fun _ => 0)
      (fun _ => ⟨440, 69, true, false⟩) (List.replicate 4 (false, true))
      (WavFile.silenceStream 11025 500 hmany) rfl (by decide) (by rw [hlen, hrate]; decide)
  obtain rfl := hok (by decide)
  rw [hlen, hrate] at hend hheard
  have hthree : made.length = 3 := by
    rcases hend with ⟨-, hmany⟩ | ⟨hfailed, -⟩
    · exact hmany
    · exact absurd hfailed (by decide)
  refine ⟨made, melody, hmade, hbuild, hthree, fun hop hhop => ?_⟩
  obtain ⟨hheard, hnote⟩ := hheard 2 hop hhop
  refine ⟨?_, ?_⟩
  · rw [← List.length_map (f := Int16.toInt), hheard, List.length_take, List.length_drop, hlen]
    decide
  · rw [samplesToDurationMs_eq (by decide) (by decide) (by decide)] at hnote
    exact (Except.ok.inj hnote).symm.trans (by decide)

theorem hopsOfWav_failed (hinfo : info.Supported) (file : ByteFile)
    (samples : Buffer pitchMaxWindowSamples Int16) (detect : List Int16 → PitchDetectionResult)
    (answers : List (Bool × Bool))
    (hsome : WavStream.samples info ⟨file, info.dataSize.toNat⟩ ≠ [])
    (hfail : ∀ hz, melodyBufferAppend {} hz (.ofNat (durationMs info.sampleRate
      (min (hopSize info.sampleRate.toNat)
        (WavStream.samples info ⟨file, info.dataSize.toNat⟩).length))) false = none) :
    ∃ made, hopsOfWav detect info file samples ((false, false) :: answers) = .ok made ∧
      made.length = 1 := by
  have hsizes := sizes info
  obtain ⟨b, hstart, hb, -, hmelody⟩ := buildStart_holds hinfo file samples hsizes.window_le
  have hbegins : ¬(b.activeSamples = 0 ∨ false = true) := by
    rw [not_or]
    exact ⟨(hb.active_pos hsizes hsome).ne', Bool.false_ne_true⟩
  obtain ⟨-, hround⟩ | ⟨melody, happend, -⟩ := hb.round detect hinfo hsizes hsome false
  · have hmade := buildHops_returned answers hbegins (hb.roundHop detect hinfo hsizes hsome) hround
    rw [hopsOfWav_start detect _ hstart]
    exact ⟨_, hmade, List.length_singleton⟩
  · rw [hmelody] at happend
    exact absurd ((hfail _).symm.trans happend) nofun

/-- Two hops of silence, of which the first cannot be stored: the loop makes one round. -/
theorem allocation_ends_rounds :
    (WavFile.silence 1 129 (by decide)).Decoded ∧
      rounds (hopSize 1) ((WavFile.silenceStream 1 129 (by decide)).decoded
        (WavFile.silence 1 129 (by decide)).info).length = 2 ∧
      ∃ made, hopsOfWav (fun _ => ⟨440, 69, true, false⟩) (WavFile.silence 1 129 (by decide)).info
        (WavFile.silenceStream 1 129 (by decide)).file (fun _ => 0)
        [(false, false), (false, true), (false, true)] = .ok made ∧ made.length = 1 := by
  have hdecoded : (WavFile.silence 1 129 (by decide)).Decoded :=
    WavFile.silence_decoded (by decide) (by decide)
  refine ⟨hdecoded, ?_, ?_⟩
  · rw [WavFile.silence_decoded_length (by decide) (by decide)]
    decide
  · have hmany : 129 < 2 ^ 31 := by decide
    have hlen := WavFile.silence_samples_length (h := hmany) (show 1 < 2 ^ 32 by decide) Nat.one_pos
    have hrate := WavFile.silence_sampleRate (h := hmany) (show 1 < 2 ^ 32 by decide)
    apply hopsOfWav_failed (wavReadHeader_supported hdecoded)
    · intro hnil
      rw [hnil] at hlen
      exact absurd hlen (by decide)
    · intro hz
      have hduration : UInt32.ofNat (durationMs (WavFile.silence 1 129 hmany).info.sampleRate
          (min (hopSize (WavFile.silence 1 129 hmany).info.sampleRate.toNat) 129)) ≠ 0 := by
        rw [hrate]
        decide
      rw [hlen, melodyBufferAppend, if_neg hduration]
      rfl

end RemoteDevice.Buzzer
