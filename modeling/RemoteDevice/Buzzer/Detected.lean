import RemoteDevice.Buzzer.Detector
import RemoteDevice.Buzzer.Hold
import RemoteDevice.Buzzer.Window

/-! The detector at work in `build_melody_from_wav`: what a melody sounds has been detected in a
window of the recording. -/

namespace RemoteDevice.Buzzer.Detector
open Wav Windows

variable {F : Type} [Add F] [Sub F] [Mul F] [Div F] [OfScientific F] [LT F] [DecidableLT F] [LE F]
  [DecidableLE F] [CFloat F]
variable {D : Type} [OfScientific D] [LE D] [DecidableLE D] [CDouble F D]

/-! ## One window -/

variable (F) in
def Carried (sampleRate : UInt32) (m : Nat) : Prop :=
  IsNote m ∧ ¬CFloat.ofInt sampleRate.toNat * 0.5 ≤ midiNoteToFrequency F m

theorem scanNotes_cases (processed : List F) (sampleRate : UInt32) (energy : D) (count midiNote : Nat)
    (best : Best F) :
    scanNotes processed sampleRate energy count midiNote best = best ∨
      ∃ m, midiNote ≤ m ∧ m < midiNote + count ∧
        ¬CFloat.ofInt sampleRate.toNat * 0.5 ≤ midiNoteToFrequency F m ∧
        scanNotes processed sampleRate energy count midiNote best =
          ⟨goertzelScore processed sampleRate (midiNoteToFrequency F m) energy, m⟩ := by
  induction count generalizing midiNote best with
  | zero => exact .inl rfl
  | succ count ih =>
    rw [scanNotes]
    by_cases hhalf : CFloat.ofInt sampleRate.toNat * 0.5 ≤ midiNoteToFrequency F midiNote
    · exact .inl (if_pos hhalf)
    simp only [if_neg hhalf]
    rcases ih (midiNote + 1) _ with hsame | ⟨m, hlow, hhigh, hm, hscan⟩
    · rw [hsame]
      split
      · exact .inr ⟨midiNote, Nat.le_refl _, by omega, hhalf, rfl⟩
      · exact .inl rfl
    · exact .inr ⟨m, by omega, by omega, hm, hscan⟩

def Silent (r : Int × Detection F) : Prop :=
  r.1 = 0 ∧ r.2.toPitchDetectionResult = ⟨0, -1, false, false⟩ ∧ r.2.rawFrequencyHz = 0

def Names (r : Int × Detection F) (m : Nat) : Prop :=
  r.1 = 1 ∧ r.2.toPitchDetectionResult = ⟨midiNoteToFrequencyHz F m, m, true, false⟩ ∧
    r.2.rawFrequencyHz = midiNoteToFrequencyHz F m

variable [Add D] [Sub D] [Mul D] [Div D]

variable (F D) in
theorem pitchDetectNote_cases (samples : List Int16) (sampleRate : UInt32) :
    Silent (pitchDetectNote D samples sampleRate : Int × Detection F) ∨
      ∃ m, Carried F sampleRate m ∧ Names (pitchDetectNote D samples sampleRate : Int × Detection F) m := by
  rw [pitchDetectNote]
  split
  · exact .inl ⟨rfl, rfl, rfl⟩
  generalize (preprocessSamples (samples.take (clampSampleCount samples.length)) : List F × D × F) = pre
  obtain ⟨processed, energy, rms⟩ := pre
  dsimp only
  split
  · exact .inl ⟨rfl, rfl, rfl⟩
  split
  · exact .inl ⟨rfl, rfl, rfl⟩
  next hfound =>
  obtain ⟨hnote, -⟩ := not_or.mp hfound
  rcases scanNotes_cases processed sampleRate energy (detectorMaxMidiNote + 1 - detectorMinMidiNote)
    detectorMinMidiNote ⟨0.0, -1⟩ with hnone | ⟨m, hlow, hhigh, hhalf, hscan⟩
  · rw [hnone] at hnote
    exact absurd (show (-1 : Int) < 0 by decide) hnote
  · have hle : m ≤ detectorMaxMidiNote := by
      rw [detectorMinMidiNote, detectorMaxMidiNote] at hhigh
      exact Nat.le_of_lt_succ hhigh
    rw [hscan]
    exact .inr ⟨m, ⟨⟨hlow, hle⟩, hhalf⟩, rfl, rfl, rfl⟩

variable (F) in
/-- `powf` and `lroundf` are exact enough for the notes of the detector. -/
def RoundsNotes : Prop := ∀ m : Nat, IsNote m → midiNoteToFrequencyHz F m = Buzzer.midiNoteToFrequencyHz m

theorem midiNoteToFrequency_real (m : Int) :
    midiNoteToFrequency ℝ m = 440 * (2 : ℝ) ^ (((m : ℝ) - 69) / 12) := by
  show (440.0 : ℝ) * (2.0 : ℝ) ^ (((m : ℝ) - ((69 : Int) : ℝ)) / 12.0) = _
  norm_num

theorem roundsNotes_real : RoundsNotes ℝ := by
  intro m hm
  have hpos : (0 : ℝ) ≤ 440 * (2 : ℝ) ^ (((m : ℝ) - 69) / 12) := by positivity
  rw [midiNoteToFrequencyHz_eq_round hm.1 hm.2, round_eq, midiNoteToFrequencyHz,
    midiNoteToFrequency_real, Int.cast_natCast]
  exact if_pos hpos

variable (F D) in
def hear (sampleRate : UInt32) (samples : List Int16) : PitchDetectionResult :=
  (pitchDetectNote D samples sampleRate : Int × Detection F).2.toPitchDetectionResult

theorem hear_meaningful (hround : RoundsNotes F) (sampleRate : UInt32) (samples : List Int16) :
    (hear F D sampleRate samples).Meaningful := by
  intro hvoiced
  rcases pitchDetectNote_cases F D samples sampleRate with ⟨-, hsilent, -⟩ | ⟨m, ⟨hm, -⟩, -, hnames, -⟩
  · rw [hear, hsilent] at hvoiced
    exact absurd hvoiced Bool.false_ne_true
  · have hpos := hm.frequency_pos
    rw [hear, hnames, hround m hm]
    exact ⟨Int.natCast_pos.mpr hpos, Int.natCast_nonneg m⟩

/-! ## The melody -/

section
variable {info : WavInfo} {window hop : Nat} {detect : List Int16 → PitchDetectionResult}
  {P : Int → Prop}

theorem append_sounds {melody next : MelodyBuffer} {note : Int × UInt32} {reallocOk : Bool}
    (h : melodyBufferAppend melody note.1 note.2 reallocOk = some next) (hnote : P (hopSegment note).1)
    (hmelody : ∀ n ∈ melody.notes, P n.frequencyHz) : ∀ n ∈ next.notes, P n.frequencyHz := by
  rcases melodyBufferAppend_cases h with ⟨-, rfl⟩ | ⟨front, last, hlast, -, -, rfl⟩ | ⟨-, -, hpush⟩
  · exact hmelody
  · intro n hn
    rw [hlast] at hmelody
    rcases List.mem_append.mp hn with hn | hn
    · exact hmelody n (List.mem_append_left _ hn)
    · obtain rfl := List.mem_singleton.mp hn
      exact hmelody last (List.mem_append_right _ (List.mem_singleton_self last))
  · intro n hn
    rw [(pushNote_some hpush).1] at hn
    rcases List.mem_append.mp hn with hn | hn
    · exact hmelody n hn
    · obtain rfl := List.mem_singleton.mp hn
      exact hnote

theorem update_sounds {held : Option HeldNote} {d : PitchDetectionResult} (hd : d.Meaningful)
    (hheld : ∀ n ∈ held, P n.frequencyHz) (hheard : d.voiced = true → P d.frequencyHz) :
    ∃ next, (pitchTrackerUpdate (trackerOf held) d).1 = trackerOf next ∧
      (pitchTrackerUpdate (trackerOf held) d).2 = pitchOf next ∧ ∀ n ∈ next, P n.frequencyHz := by
  obtain ⟨n, rfl, -, h⟩ | ⟨hadopts, h⟩ | ⟨-, h⟩ := update_cases held hd
  · refine ⟨some n.heard, by rw [h], by rw [h]; rfl, ?_⟩
    rintro _ ⟨⟩
    exact hheld n rfl
  · refine ⟨some (.ofDetection d hd hadopts.1), by rw [h], by rw [h]; rfl, ?_⟩
    rintro _ ⟨⟩
    exact hheard hadopts.1
  · refine ⟨held.bind HeldNote.miss, by rw [h], by rw [h], ?_⟩
    intro n hn
    obtain ⟨m, rfl, hfrequency⟩ := miss_frequency hn
    rw [← hfrequency]
    exact hheld m rfl

theorem hopSegment_pitchOf {held : Option HeldNote} (hzero : P 0) (hheld : ∀ n ∈ held, P n.frequencyHz)
    (durationMs : UInt32) : P (hopSegment (pitchOf held, durationMs)).1 := by
  cases held with
  | none => exact hzero
  | some n =>
    have hpos := n.frequency_pos
    have hsame : (hopSegment (pitchOf (some n), durationMs)).1 = n.frequencyHz :=
      if_neg (by show ¬n.frequencyHz < 0; omega)
    rw [hsame]
    exact hheld n rfl

theorem buildLoop_sounds (hinfo : info.Supported) (hsizes : Sizes window hop) (hzero : P 0)
    {answers : List (Bool × Bool)} {b : Builder} {todo : List Int16} {held : Option HeldNote} {r : Int}
    {melody : MelodyBuffer} (hb : b.Holds info window todo) (htracker : b.tracker = trackerOf held)
    (hheld : ∀ n ∈ held, P n.frequencyHz) (hmelody : ∀ n ∈ b.melody.notes, P n.frequencyHz)
    (hheard : ∀ w ∈ windows window hop todo,
      (detect w).Meaningful ∧ ((detect w).voiced = true → P (detect w).frequencyHz))
    (hloop : buildLoop detect info window hop answers b = .ok (some (r, melody))) :
    ∀ n ∈ melody.notes, P n.frequencyHz := by
  -- on the rounds of the loop, where `todo` is still to be heard
  induction answers generalizing b todo held with
  | nil => cases hloop
  | cons answer answers ih =>
    obtain ⟨stopRequested, reallocOk⟩ := answer
    by_cases hends : b.activeSamples = 0 ∨ stopRequested = true
    · have hround : buildRound detect info window hop b stopRequested reallocOk =
          .ok (.returned DeviceResult.ok b.melody) := by
        rw [buildRound]
        split
        · rfl
        next hactive => exact if_pos (hends.resolve_left hactive)
      rw [buildLoop, hround] at hloop
      cases hloop
      exact hmelody
    obtain ⟨hactive, hrun⟩ := not_or.mp hends
    obtain rfl : stopRequested = false := Bool.eq_false_iff.mpr hrun
    have htodo : todo ≠ [] := by
      rintro rfl
      rw [hb.active, List.take_nil] at hactive
      exact hactive rfl
    rw [windows_step window hsizes.hop_pos htodo] at hheard
    obtain ⟨hmeaningful, hvoiced⟩ := hheard _ List.mem_cons_self
    obtain ⟨next, hnext, hpitch, hsounds⟩ := update_sounds hmeaningful hheld hvoiced
    rw [← htracker] at hnext hpitch
    have hnote : P (hopSegment (b.heardHop detect info window hop todo).note).1 := by
      show P (hopSegment ((pitchTrackerUpdate b.tracker (detect (todo.take window))).2, _)).1
      rw [hpitch]
      exact hopSegment_pitchOf hzero hsounds _
    -- no memory for the note, the last hop, or a further round
    obtain ⟨-, hround⟩ | ⟨longer, happend, ⟨-, hround⟩ | ⟨c, hround, hc, hlonger, hctracker⟩⟩ :=
      hb.round detect hinfo hsizes htodo reallocOk
    · rw [buildLoop, hround] at hloop
      cases hloop
      exact hmelody
    · rw [buildLoop, hround] at hloop
      cases hloop
      exact append_sounds happend hnote hmelody
    · rw [buildLoop, hround] at hloop
      refine ih hc (hctracker.trans hnext) hsounds ?_ ?_ hloop
      · rw [hlonger]
        exact append_sounds happend hnote hmelody
      · exact fun w hw => hheard w (List.mem_cons_of_mem _ hw)

end

variable (F D) in
def SoundsIn (info : WavInfo) (file : ByteFile) (pitch : Int) : Prop :=
  pitch = 0 ∨ ∃ m, Carried F info.sampleRate m ∧ pitch = Buzzer.midiNoteToFrequencyHz m ∧
    ∃ w ∈ windows (windowSize info.sampleRate.toNat) (hopSize info.sampleRate.toNat)
        (WavStream.samples info ⟨file, info.dataSize.toNat⟩),
      Names (pitchDetectNote D w info.sampleRate : Int × Detection F) m

/-- Whatever the operations of `float` and `double` do, a melody that is built from a recording sounds
nothing but notes that are detected in its windows. -/
theorem melody_of_detected_notes (hround : RoundsNotes F) {bytes : List UInt8} {info : WavInfo}
    (haccepted : wavReadHeader bytes = some (info, (DeviceResult.ok : Int))) {pos : Nat}
    {samples : Checked.Buffer pitchMaxWindowSamples Int16} {answers : List (Bool × Bool)} {r : Int}
    {melody : MelodyBuffer}
    (hbuild : buildMelodyFromWav (hear F D info.sampleRate) info ⟨bytes, pos⟩ samples answers =
      .ok (some (r, melody))) :
    ∀ note ∈ melody.notes, SoundsIn F D info ⟨bytes, pos⟩ note.frequencyHz := by
  have hinfo := wavReadHeader_supported haccepted
  have hsizes := sizes info
  obtain ⟨b, hstart, hb, htracker, hempty⟩ :=
    buildStart_holds hinfo ⟨bytes, pos⟩ samples hsizes.window_le
  have htracker : b.tracker = trackerOf none := htracker
  simp only [buildMelodyFromWav, windowSamples_eq, hopSamples_eq, hstart, bind, Except.bind] at hbuild
  have hsilent : ∀ n ∈ (none : Option HeldNote), SoundsIn F D info ⟨bytes, pos⟩ n.frequencyHz :=
    fun n hn => absurd hn (Option.not_mem_none n)
  refine buildLoop_sounds hinfo hsizes (.inl rfl) hb htracker hsilent ?_ ?_ hbuild
  · rw [hempty]
    exact fun n hn => absurd hn List.not_mem_nil
  intro w hw
  refine ⟨hear_meaningful hround _ w, fun hvoiced => .inr ?_⟩
  rcases pitchDetectNote_cases F D w info.sampleRate with ⟨-, hsilent, -⟩ | ⟨m, hm, hnames⟩
  · rw [hear, hsilent] at hvoiced
    exact absurd hvoiced Bool.false_ne_true
  · refine ⟨m, hm, ?_, w, hw, hnames⟩
    rw [hear, hnames.2.1]
    exact hround m hm.1

end RemoteDevice.Buzzer.Detector
