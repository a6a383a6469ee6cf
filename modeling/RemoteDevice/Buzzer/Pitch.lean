import RemoteDevice.Buzzer.Notes
import RemoteDevice.Buzzer.Tracker

/-! Which note a run of equal detections is heard as: a tracker that holds a note takes the two
neighbours of it for the same note. -/

namespace RemoteDevice.Buzzer

/-! ## Notes and their neighbours -/

def IsNote (m : Nat) : Prop := detectorMinMidiNote ≤ m ∧ m ≤ detectorMaxMidiNote

instance (m : Nat) : Decidable (IsNote m) := inferInstanceAs (Decidable (_ ∧ _))

theorem doubledFrequencies_steps :
    ∀ m < detectorMaxMidiNote, detectorMinMidiNote ≤ m →
      (doubledFrequencies.getD (m - detectorMinMidiNote) 0 + 1) / 2 <
          (doubledFrequencies.getD (m + 1 - detectorMinMidiNote) 0 + 1) / 2 ∧
        (doubledFrequencies.getD (m + 1 - detectorMinMidiNote) 0 + 1) / 2 * 100 ≤
          (doubledFrequencies.getD (m - detectorMinMidiNote) 0 + 1) / 2 * 108 := by
  decide +kernel

theorem doubledFrequencies_tones :
    ∀ m < detectorMaxMidiNote - 1, detectorMinMidiNote ≤ m →
      (doubledFrequencies.getD (m - detectorMinMidiNote) 0 + 1) / 2 * 108 <
          (doubledFrequencies.getD (m + 2 - detectorMinMidiNote) 0 + 1) / 2 * 100 ∧
        (doubledFrequencies.getD (m - detectorMinMidiNote) 0 + 1) / 2 * 100 <
          (doubledFrequencies.getD (m + 2 - detectorMinMidiNote) 0 + 1) / 2 * 92 := by
  decide +kernel

theorem frequency_semitone {m : Nat} (hm : detectorMinMidiNote ≤ m) (hm' : m < detectorMaxMidiNote) :
    midiNoteToFrequencyHz m < midiNoteToFrequencyHz (m + 1) ∧
      midiNoteToFrequencyHz (m + 1) * 100 ≤ midiNoteToFrequencyHz m * 108 := by
  rw [midiNoteToFrequencyHz_eq (by omega) hm, midiNoteToFrequencyHz_eq hm' (by omega)]
  exact doubledFrequencies_steps m hm' hm

theorem frequency_tone {m : Nat} (hm : detectorMinMidiNote ≤ m) (hm' : m + 1 < detectorMaxMidiNote) :
    midiNoteToFrequencyHz m * 108 < midiNoteToFrequencyHz (m + 2) * 100 ∧
      midiNoteToFrequencyHz m * 100 < midiNoteToFrequencyHz (m + 2) * 92 := by
  rw [midiNoteToFrequencyHz_eq (by omega) hm, midiNoteToFrequencyHz_eq hm' (by omega)]
  exact doubledFrequencies_tones m (by omega) hm

theorem frequency_range : 0 < midiNoteToFrequencyHz detectorMinMidiNote ∧
    midiNoteToFrequencyHz detectorMaxMidiNote ≤ 2 ^ 12 := by
  rw [midiNoteToFrequencyHz_eq (by decide) le_rfl, midiNoteToFrequencyHz_eq le_rfl (by decide)]
  decide

theorem frequency_mono {m n : Nat} (hm : detectorMinMidiNote ≤ m) (hmn : m ≤ n)
    (hn : n ≤ detectorMaxMidiNote) : midiNoteToFrequencyHz m ≤ midiNoteToFrequencyHz n := by
  induction n, hmn using Nat.le_induction with
  | base => exact le_rfl
  | succ n hmn ih =>
    have hstep := (frequency_semitone (m := n) (by omega) (by omega)).1
    have hle := ih (by omega)
    omega

theorem frequency_lt {m n : Nat} (hm : IsNote m) (hn : IsNote n) (hmn : m < n) :
    midiNoteToFrequencyHz m < midiNoteToFrequencyHz n := by
  obtain ⟨hm, -⟩ := hm
  obtain ⟨-, hn⟩ := hn
  have hstep := (frequency_semitone hm (by omega)).1
  have hle := frequency_mono (m := m + 1) (by omega) hmn hn
  omega

theorem frequency_inj {m n : Nat} (hm : IsNote m) (hn : IsNote n) :
    midiNoteToFrequencyHz m = midiNoteToFrequencyHz n ↔ m = n := by
  constructor
  · intro h
    rcases Nat.lt_trichotomy m n with hlt | heq | hlt
    · have := frequency_lt hm hn hlt
      omega
    · exact heq
    · have := frequency_lt hn hm hlt
      omega
  · rintro rfl
    rfl

theorem IsNote.frequency_pos {m : Nat} (hm : IsNote m) : 0 < midiNoteToFrequencyHz m :=
  lt_of_lt_of_le frequency_range.1 (frequency_mono le_rfl hm.1 hm.2)

theorem IsNote.frequency_le {m : Nat} (hm : IsNote m) : midiNoteToFrequencyHz m ≤ 2 ^ 12 :=
  (frequency_mono hm.1 hm.2 le_rfl).trans frequency_range.2

/-- On audible pitches nothing is lost by the unsigned comparison. -/
theorem pitchesAreClose_iff {p q : Nat} (hp : 0 < p) (hp' : p ≤ 2 ^ 12) (hq : 0 < q)
    (hq' : q ≤ 2 ^ 12) :
    pitchesAreClose p q = true ↔ p * 100 ≤ q * 108 ∧ q * 92 ≤ p * 100 := by
  have hpos : ¬((p : Int) ≤ 0 ∨ (q : Int) ≤ 0) := by omega
  have hsmall : (q : Int) * 8 % 2 ^ 32 = q * 8 := Int.emod_eq_of_lt (by omega) (by omega)
  rw [pitchesAreClose, if_neg hpos, decide_eq_true_iff, pitchJitterPercent, hsmall]
  split
  · rw [Int.emod_eq_of_lt (by omega) (by omega)]
    omega
  · rw [Int.emod_eq_of_lt (by omega) (by omega)]
    omega

/-- The tolerance of 8% holds a semitone, which is 5.9%, and no whole tone. -/
theorem pitchesAreClose_notes {m n : Nat} (hm : IsNote m) (hn : IsNote n) :
    pitchesAreClose (midiNoteToFrequencyHz m) (midiNoteToFrequencyHz n) = true ↔
      m ≤ n + 1 ∧ n ≤ m + 1 := by
  rw [pitchesAreClose_iff hm.frequency_pos hm.frequency_le hn.frequency_pos hn.frequency_le]
  obtain ⟨hm, hm'⟩ := hm
  obtain ⟨hn, hn'⟩ := hn
  rcases Nat.lt_trichotomy m n with hlt | rfl | hlt
  · by_cases hclose : n = m + 1
    · subst hclose
      have hsemi := frequency_semitone hm hn'
      omega
    · have htone := frequency_tone hm (by omega)
      have hle := frequency_mono (m := m + 2) (by omega) (by omega) hn'
      omega
  · omega
  · by_cases hclose : m = n + 1
    · subst hclose
      have hsemi := frequency_semitone hn hm'
      omega
    · have htone := frequency_tone hn (by omega)
      have hle := frequency_mono (m := n + 2) (by omega) (by omega) hm'
      omega

/-! ## The tracker between updates -/

def PitchDetectionResult.Assigned (d : PitchDetectionResult) : Prop :=
  d.voiced = true → ∃ m, IsNote m ∧ d.midiNote = m ∧ d.frequencyHz = midiNoteToFrequencyHz m

def PitchDetectionResult.Sounds (d : PitchDetectionResult) (m : Nat) : Prop :=
  d.voiced = true ∧ d.fallback = false ∧ d.midiNote = m ∧ d.frequencyHz = midiNoteToFrequencyHz m

def clearNote (m : Nat) : PitchDetectionResult := ⟨midiNoteToFrequencyHz m, m, true, false⟩

theorem clearNote_sounds (m : Nat) : (clearNote m).Sounds m := ⟨rfl, rfl, rfl, rfl⟩

theorem clearNote_assigned {m : Nat} (hm : IsNote m) : (clearNote m).Assigned :=
  fun _ => ⟨m, hm, rfl, rfl⟩

def holding (n missing : Nat) : PitchTracker := ⟨midiNoteToFrequencyHz n, n, 0, -1, 0, missing⟩

def Tracking (t : PitchTracker) : Prop :=
  t = pitchTrackerInit ∨ ∃ n missing, IsNote n ∧ t = holding n missing

/-- The note that is heard when `m` sounds. -/
def heardAs (t : PitchTracker) (m : Nat) : Nat :=
  if t.stableMidiNote ≤ m + 1 ∧ m ≤ t.stableMidiNote + 1 then t.stableMidiNote.toNat else m

theorem holdOrSilence_tracking {t : PitchTracker} (ht : Tracking t) :
    Tracking (pitchTrackerHoldOrSilence t).1 := by
  obtain rfl | ⟨n, missing, hn, rfl⟩ := ht
  · exact .inl rfl
  · simp only [pitchTrackerHoldOrSilence]
    split
    · exact .inr ⟨n, missing + 1, hn, rfl⟩
    · exact .inl rfl

theorem heardAs_init {m : Nat} (hm : IsNote m) : heardAs pitchTrackerInit m = m := by
  have hlow := hm.1
  rw [heardAs, if_neg]
  simp only [pitchTrackerInit, detectorMinMidiNote] at hlow ⊢
  omega

theorem heardAs_holding (n missing m : Nat) :
    heardAs (holding n missing) m = if n ≤ m + 1 ∧ m ≤ n + 1 then n else m := by
  simp only [heardAs, holding, Int.toNat_natCast]
  norm_cast

theorem Tracking.heardAs_isNote {t : PitchTracker} (ht : Tracking t) {m : Nat} (hm : IsNote m) :
    IsNote (heardAs t m) := by
  obtain rfl | ⟨n, missing, hn, rfl⟩ := ht
  · rwa [heardAs_init hm]
  · rw [heardAs_holding]
    split
    · exact hn
    · exact hm

theorem Tracking.heardAs_heardAs {t : PitchTracker} (ht : Tracking t) {m : Nat} (hm : IsNote m)
    (missing : Nat) : heardAs (holding (heardAs t m) missing) m = heardAs t m := by
  obtain rfl | ⟨n, missing, hn, rfl⟩ := ht
  · rw [heardAs_init hm, heardAs_holding, ite_self]
  · rw [heardAs_holding, heardAs_holding]
    by_cases h : n ≤ m + 1 ∧ m ≤ n + 1
    · rw [if_pos h, if_pos h]
    · rw [if_neg h, ite_self]

theorem pending_new {t : PitchTracker} (hpending : t.pendingMidiNote = -1) (m : Nat)
    {d : PitchDetectionResult} (hnote : d.midiNote = m)
    (hfreq : d.frequencyHz = midiNoteToFrequencyHz m) :
    pitchTrackerPending t d =
      { t with
        pendingPitchHz := midiNoteToFrequencyHz m, pendingMidiNote := m, pendingHops := 1 } := by
  rw [pitchTrackerPending, if_neg (by omega), hnote, hfreq]

theorem update_note {t : PitchTracker} (ht : Tracking t) {d : PitchDetectionResult} {m : Nat}
    (hm : IsNote m) (hv : d.voiced = true) (hnote : d.midiNote = m)
    (hfreq : d.frequencyHz = midiNoteToFrequencyHz m) :
    pitchTrackerUpdate t d =
        (holding (heardAs t m) 0, (midiNoteToFrequencyHz (heardAs t m) : Int)) ∨
      d.fallback = true ∧ pitchTrackerUpdate t d = pitchTrackerHoldOrSilence t := by
  have hpos := hm.frequency_pos
  have hvoiced : ¬((!d.voiced) = true ∨ d.frequencyHz ≤ 0) := by
    simp [hv, hfreq, hpos.ne']
  rw [pitchTrackerUpdate, if_neg hvoiced]
  -- from silence a note needs one confirmation, which is its own first hop
  obtain rfl | ⟨n, missing, hn, rfl⟩ := ht
  · rw [if_neg (by simp [pitchTrackerInit]), pending_new rfl m hnote hfreq, heardAs_init hm]
    cases d.fallback with
    | true => exact .inr ⟨rfl, rfl⟩
    | false => exact .inl rfl
  -- at most a semitone apart counts as the stable note
  · have hheard : (d.midiNote = n ∨
        pitchesAreClose d.frequencyHz (midiNoteToFrequencyHz n) = true) ↔ n ≤ m + 1 ∧ m ≤ n + 1 := by
      rw [hnote, hfreq, pitchesAreClose_notes hm hn]
      omega
    have hnpos : (0 : Int) < midiNoteToFrequencyHz n := by exact_mod_cast hn.frequency_pos
    rw [heardAs_holding]
    by_cases h : n ≤ m + 1 ∧ m ≤ n + 1
    · rw [if_pos ⟨hnpos, hheard.mpr h⟩, if_pos h]
      exact .inl rfl
    · rw [if_neg (fun hs => h (hheard.mp hs.2)), pending_new rfl m hnote hfreq, if_neg h]
      cases d.fallback with
      | true => exact .inr ⟨rfl, rfl⟩
      | false => exact .inl rfl

theorem Tracking.update {t : PitchTracker} (ht : Tracking t) {d : PitchDetectionResult}
    (hd : d.Assigned) : Tracking (pitchTrackerUpdate t d).1 := by
  cases hv : d.voiced with
  | false =>
    rw [pitchTrackerUpdate, if_pos (by simp [hv])]
    exact holdOrSilence_tracking ht
  | true =>
    obtain ⟨m, hm, hnote, hfreq⟩ := hd hv
    obtain heq | ⟨-, heq⟩ := update_note ht hm hv hnote hfreq
    · rw [heq]
      exact .inr ⟨_, 0, ht.heardAs_isNote hm, rfl⟩
    · rw [heq]
      exact holdOrSilence_tracking ht

theorem Tracking.run {t : PitchTracker} (ht : Tracking t) {ds : List PitchDetectionResult}
    (hds : ∀ d ∈ ds, d.Assigned) : Tracking (pitchTrackerRun t ds).1 := by
  induction ds generalizing t with
  | nil => exact ht
  | cons d ds ih =>
    have hnext := ht.update (hds d List.mem_cons_self)
    exact ih hnext fun d hd => hds d (List.mem_cons_of_mem _ hd)

theorem run_sustained {t : PitchTracker} (ht : Tracking t) {m : Nat} (hm : IsNote m)
    {ds : List PitchDetectionResult} (hds : ∀ d ∈ ds, d.Sounds m) :
    (pitchTrackerRun t ds).2 =
      List.replicate ds.length (midiNoteToFrequencyHz (heardAs t m) : Int) := by
  induction ds generalizing t with
  | nil => rfl
  | cons d ds ih =>
    obtain ⟨hv, hfall, hnote, hfreq⟩ := hds d List.mem_cons_self
    have heq := (update_note ht hm hv hnote hfreq).resolve_right fun h =>
      Bool.false_ne_true (hfall ▸ h.1)
    have hrest := ih (t := holding (heardAs t m) 0) (.inr ⟨_, 0, ht.heardAs_isNote hm, rfl⟩)
      fun d hd => hds d (List.mem_cons_of_mem _ hd)
    rw [ht.heardAs_heardAs hm] at hrest
    simp only [pitchTrackerRun, heq, hrest, List.length_cons, List.replicate_succ]

theorem Tracking.heardAs_eq_iff {t : PitchTracker} (ht : Tracking t) {m : Nat} (hm : IsNote m) :
    heardAs t m = m ↔ t.stableMidiNote ≠ m - 1 ∧ t.stableMidiNote ≠ m + 1 := by
  obtain rfl | ⟨n, missing, hn, rfl⟩ := ht
  · have hlow := hm.1
    rw [heardAs_init hm]
    simp only [pitchTrackerInit, detectorMinMidiNote] at hlow ⊢
    refine iff_of_true trivial ⟨?_, ?_⟩ <;> omega
  · rw [heardAs_holding]
    simp only [holding]
    split <;> omega

/-- A note that is sustained is put out unless the stable note before it is a semitone away: then
the stable note is put out for it, however long it lasts. -/
theorem sustained_note_heard {history notes : List PitchDetectionResult} {m : Nat}
    (hhistory : ∀ d ∈ history, d.Assigned) (hm : IsNote m)
    (hlong : pitchConfirmHops ≤ notes.length) (hnotes : ∀ d ∈ notes, d.Sounds m) :
    (pitchTrackerRun (pitchTrackerRun pitchTrackerInit history).1 notes).2.getLast? =
        some (midiNoteToFrequencyHz m : Int) ↔
      (pitchTrackerRun pitchTrackerInit history).1.stableMidiNote ≠ m - 1 ∧
        (pitchTrackerRun pitchTrackerInit history).1.stableMidiNote ≠ m + 1 := by
  have ht : Tracking (pitchTrackerRun pitchTrackerInit history).1 :=
    Tracking.run (.inl rfl) hhistory
  have hne : notes.length ≠ 0 := Nat.ne_of_gt hlong
  rw [run_sustained ht hm hnotes, List.getLast?_replicate, if_neg hne, Option.some_inj,
    Nat.cast_inj, frequency_inj (ht.heardAs_isNote hm) hm, ht.heardAs_eq_iff hm]

/-- A tone above `A4` is heard as itself. -/
theorem sustained_note_heard_tone :
    (pitchTrackerRun (pitchTrackerRun pitchTrackerInit [clearNote 69]).1 [clearNote 71]).2.getLast? =
      some (midiNoteToFrequencyHz 71 : Int) := by
  refine (sustained_note_heard (m := 71) ?_ (by decide) (by decide) ?_).mpr (by decide +kernel)
  · intro d hd
    rw [List.mem_singleton.mp hd]
    exact clearNote_assigned (by decide)
  · intro d hd
    rw [List.mem_singleton.mp hd]
    exact clearNote_sounds 71

/-- A semitone above `A4` is heard as `A4`, at 440 Hz and not at 466 Hz. -/
theorem semitone_heard_as_stable :
    ∃ (history notes : List PitchDetectionResult) (m : Nat),
      (∀ d ∈ history, d.Assigned) ∧ IsNote m ∧ pitchConfirmHops ≤ notes.length ∧
        (∀ d ∈ notes, d.Sounds m) ∧
        (pitchTrackerRun (pitchTrackerRun pitchTrackerInit history).1 notes).2.getLast? ≠
          some (midiNoteToFrequencyHz m : Int) := by
  refine ⟨[clearNote 69], [clearNote 70], 70, ?_, by decide, by decide, ?_, by decide +kernel⟩
  · intro d hd
    rw [List.mem_singleton.mp hd]
    exact clearNote_assigned (by decide)
  · intro d hd
    rw [List.mem_singleton.mp hd]
    exact clearNote_sounds 70

end RemoteDevice.Buzzer
