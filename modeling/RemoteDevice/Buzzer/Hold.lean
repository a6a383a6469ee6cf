import Mathlib.Data.List.Basic
import RemoteDevice.Buzzer.Tracker

/-! The pitch tracker as a note that is held: whose pitch it is, and for how many hops it lasts when
nothing is heard. -/

namespace RemoteDevice.Buzzer

def PitchDetectionResult.Meaningful (d : PitchDetectionResult) : Prop :=
  d.voiced = true → 0 < d.frequencyHz ∧ 0 ≤ d.midiNote

structure HeldNote where
  frequencyHz : Int
  midiNote : Int
  missing : Nat
  frequency_pos : 0 < frequencyHz
  midiNote_nonneg : 0 ≤ midiNote
  missing_le : missing ≤ pitchHoldHops

namespace HeldNote

def ofDetection (d : PitchDetectionResult) (hd : d.Meaningful) (hvoiced : d.voiced = true) : HeldNote where
  frequencyHz := d.frequencyHz
  midiNote := d.midiNote
  missing := 0
  frequency_pos := (hd hvoiced).1
  midiNote_nonneg := (hd hvoiced).2
  missing_le := Nat.zero_le _

def heard (n : HeldNote) : HeldNote := { n with missing := 0, missing_le := Nat.zero_le _ }

def miss (n : HeldNote) : Option HeldNote :=
  if h : n.missing < pitchHoldHops then some { n with missing := n.missing + 1, missing_le := h }
  else none

end HeldNote

def trackerOf : Option HeldNote → PitchTracker
  | none => pitchTrackerInit
  | some n => ⟨n.frequencyHz, n.midiNote, 0, -1, 0, n.missing⟩

namespace PitchTracker

def Confirms (t : PitchTracker) (d : PitchDetectionResult) : Prop :=
  d.voiced = true ∧ 0 < t.stablePitchHz ∧
    (d.midiNote = t.stableMidiNote ∨ pitchesAreClose d.frequencyHz t.stablePitchHz = true)

def Adopts (t : PitchTracker) (d : PitchDetectionResult) : Prop :=
  d.voiced = true ∧ d.fallback = false ∧ ¬t.Confirms d

def Misses (t : PitchTracker) (d : PitchDetectionResult) : Prop := ¬t.Confirms d ∧ ¬t.Adopts d

theorem misses_of_unvoiced (t : PitchTracker) {d : PitchDetectionResult} (hd : d.voiced = false) :
    t.Misses d := by
  have hsilent : ¬d.voiced = true := Bool.eq_false_iff.mp hd
  exact ⟨fun h => hsilent h.1, fun h => hsilent h.1⟩

theorem Misses.fallback {t : PitchTracker} {d : PitchDetectionResult} (h : t.Misses d)
    (hvoiced : d.voiced = true) : d.fallback = true := by
  rw [← Bool.not_eq_false]
  intro hclear
  exact h.2 ⟨hvoiced, hclear, h.1⟩

end PitchTracker

variable {held : Option HeldNote} {n : HeldNote} {d : PitchDetectionResult}

/-! ## One update -/

theorem PitchDetectionResult.Meaningful.sounds (hd : d.Meaningful) (hvoiced : d.voiced = true) :
    ¬((!d.voiced) = true ∨ d.frequencyHz ≤ 0) := by
  rw [hvoiced, not_or]
  exact ⟨Bool.false_ne_true, Int.not_le.mpr (hd hvoiced).1⟩

def pitchOf (held : Option HeldNote) : Int := (held.map HeldNote.frequencyHz).getD 0

theorem holdOrSilence_trackerOf (held : Option HeldNote) :
    pitchTrackerHoldOrSilence (trackerOf held) =
      (trackerOf (held.bind HeldNote.miss), pitchOf ((held.bind HeldNote.miss))) := by
  cases held with
  | none => rfl
  | some n =>
    have hpos := n.frequency_pos
    rw [Option.bind_some, HeldNote.miss, pitchTrackerHoldOrSilence]
    by_cases hmissing : n.missing < pitchHoldHops
    · rw [dif_pos hmissing]
      exact if_pos ⟨hpos, hmissing⟩
    · rw [dif_neg hmissing]
      exact if_neg fun h => hmissing h.2

theorem update_confirms (h : (trackerOf (some n)).Confirms d) (hd : d.Meaningful) :
    pitchTrackerUpdate (trackerOf (some n)) d = (trackerOf (some n.heard), n.frequencyHz) := by
  obtain ⟨hvoiced, hpos, hmatches⟩ := h
  rw [pitchTrackerUpdate, if_neg (hd.sounds hvoiced)]
  exact if_pos ⟨hpos, hmatches⟩

/-- One hop is enough to confirm a candidate, so none is left over. -/
theorem update_adopts (h : (trackerOf held).Adopts d) (hd : d.Meaningful) :
    pitchTrackerUpdate (trackerOf held) d =
      (trackerOf (some (.ofDetection d hd h.1)), d.frequencyHz) := by
  obtain ⟨hvoiced, hclear, hnew⟩ := h
  have hmidi := (hd hvoiced).2
  have hspoken : ¬d.fallback = true := Bool.eq_false_iff.mp hclear
  have hdistant : ¬((trackerOf held).stablePitchHz > 0 ∧ (d.midiNote = (trackerOf held).stableMidiNote ∨
      pitchesAreClose d.frequencyHz (trackerOf held).stablePitchHz = true)) := by
    intro hmatches
    exact hnew ⟨hvoiced, hmatches⟩
  have hpending : (trackerOf held).pendingMidiNote = -1 := by cases held <;> rfl
  have hfirst : ¬d.midiNote = (trackerOf held).pendingMidiNote := by
    rw [hpending]
    omega
  rw [pitchTrackerUpdate, if_neg (hd.sounds hvoiced), if_neg hdistant, if_neg hspoken,
    pitchTrackerPending, if_neg hfirst]
  rfl

theorem update_misses (h : (trackerOf held).Misses d) :
    pitchTrackerUpdate (trackerOf held) d =
      (trackerOf (held.bind HeldNote.miss), pitchOf (held.bind HeldNote.miss)) := by
  rw [← holdOrSilence_trackerOf, pitchTrackerUpdate]
  by_cases hsilent : (!d.voiced) = true ∨ d.frequencyHz ≤ 0
  · exact if_pos hsilent
  have hvoiced : d.voiced = true := by
    rw [not_or] at hsilent
    simpa using hsilent.1
  have hdistant : ¬((trackerOf held).stablePitchHz > 0 ∧ (d.midiNote = (trackerOf held).stableMidiNote ∨
      pitchesAreClose d.frequencyHz (trackerOf held).stablePitchHz = true)) := by
    intro hmatches
    exact h.1 ⟨hvoiced, hmatches⟩
  rw [if_neg hsilent, if_neg hdistant, if_pos (h.fallback hvoiced)]

theorem update_cases (held : Option HeldNote) (hd : d.Meaningful) :
    (∃ n, held = some n ∧ (trackerOf held).Confirms d ∧
      pitchTrackerUpdate (trackerOf held) d = (trackerOf (some n.heard), n.frequencyHz)) ∨
    (∃ h : (trackerOf held).Adopts d, pitchTrackerUpdate (trackerOf held) d =
      (trackerOf (some (.ofDetection d hd h.1)), d.frequencyHz)) ∨
    ((trackerOf held).Misses d ∧
      pitchTrackerUpdate (trackerOf held) d =
        (trackerOf (held.bind HeldNote.miss), pitchOf (held.bind HeldNote.miss))) := by
  by_cases hconfirms : (trackerOf held).Confirms d
  · cases held with
    | none => exact absurd hconfirms.2.1 (Int.lt_irrefl 0)
    | some n => exact .inl ⟨n, rfl, hconfirms, update_confirms hconfirms hd⟩
  by_cases hadopts : (trackerOf held).Adopts d
  · exact .inr (.inl ⟨hadopts, update_adopts hadopts hd⟩)
  · exact .inr (.inr ⟨⟨hconfirms, hadopts⟩, update_misses ⟨hconfirms, hadopts⟩⟩)

theorem miss_frequency (h : held.bind HeldNote.miss = some n) :
    ∃ m, held = some m ∧ m.frequencyHz = n.frequencyHz := by
  obtain ⟨m, rfl, hm⟩ := Option.bind_eq_some_iff.mp h
  refine ⟨m, rfl, ?_⟩
  rw [HeldNote.miss] at hm
  split at hm
  · rw [← Option.some.inj hm]
  · exact absurd hm nofun

/-! ## Whose pitch it is -/

def HeardIn (ds : List PitchDetectionResult) (pitch : Int) : Prop :=
  ∃ d ∈ ds, d.voiced = true ∧ d.fallback = false ∧ d.frequencyHz = pitch

theorem HeardIn.append {ds : List PitchDetectionResult} {pitch : Int} (h : HeardIn ds pitch)
    (more : List PitchDetectionResult) : HeardIn (ds ++ more) pitch := by
  obtain ⟨d, hd, hheard⟩ := h
  exact ⟨d, List.mem_append_left _ hd, hheard⟩

theorem update_heardIn {ds : List PitchDetectionResult}
    (hheld : ∀ n ∈ held, HeardIn ds n.frequencyHz) (hd : d.Meaningful) :
    ∃ next, (pitchTrackerUpdate (trackerOf held) d).1 = trackerOf next ∧
      (pitchTrackerUpdate (trackerOf held) d).2 = pitchOf next ∧
      ∀ n ∈ next, HeardIn (ds ++ [d]) n.frequencyHz := by
  obtain ⟨n, rfl, -, h⟩ | ⟨hadopts, h⟩ | ⟨-, h⟩ := update_cases held hd
  · refine ⟨some n.heard, by rw [h], by rw [h]; rfl, ?_⟩
    rintro _ ⟨⟩
    exact (hheld n rfl).append [d]
  · refine ⟨some (.ofDetection d hd hadopts.1), by rw [h], by rw [h]; rfl, ?_⟩
    rintro _ ⟨⟩
    exact ⟨d, List.mem_append_right _ (List.mem_singleton_self d), hadopts.1, hadopts.2.1, rfl⟩
  · refine ⟨held.bind HeldNote.miss, by rw [h], by rw [h], ?_⟩
    intro n hn
    obtain ⟨m, rfl, hfrequency⟩ := miss_frequency hn
    rw [← hfrequency]
    exact (hheld m rfl).append [d]

theorem pitchTrackerRun_cons (t : PitchTracker) (d : PitchDetectionResult)
    (ds : List PitchDetectionResult) :
    pitchTrackerRun t (d :: ds) =
      ((pitchTrackerRun (pitchTrackerUpdate t d).1 ds).1,
        (pitchTrackerUpdate t d).2 :: (pitchTrackerRun (pitchTrackerUpdate t d).1 ds).2) := rfl

theorem run_heardIn {heard ds : List PitchDetectionResult}
    (hheld : ∀ n ∈ held, HeardIn heard n.frequencyHz) (hds : ∀ d ∈ ds, d.Meaningful) :
    ∃ next, (pitchTrackerRun (trackerOf held) ds).1 = trackerOf next ∧
      ∀ n ∈ next, HeardIn (heard ++ ds) n.frequencyHz := by
  induction ds generalizing held heard with
  | nil => exact ⟨held, rfl, by rwa [List.append_nil]⟩
  | cons d ds ih =>
    obtain ⟨next, hnext, -, hheard⟩ := update_heardIn hheld (hds d List.mem_cons_self)
    obtain ⟨last, hlast, hfrom⟩ := ih hheard fun e he => hds e (List.mem_cons_of_mem _ he)
    rw [← List.append_cons] at hfrom
    refine ⟨last, ?_, hfrom⟩
    rw [pitchTrackerRun_cons, hnext]
    exact hlast

/-! ## How long it lasts -/

theorem run_silent {ds : List PitchDetectionResult}
    (hds : ∀ d ∈ ds, d.voiced = true → d.fallback = true) :
    pitchTrackerRun (trackerOf none) ds = (trackerOf none, List.replicate ds.length 0) := by
  induction ds with
  | nil => rfl
  | cons d ds ih =>
    have hfallback := hds d List.mem_cons_self
    have hmisses : (trackerOf none).Misses d := by
      refine ⟨fun h => absurd h.2.1 (Int.lt_irrefl 0), ?_⟩
      intro h
      exact absurd (hfallback h.1) (Bool.eq_false_iff.mp h.2.1)
    rw [pitchTrackerRun_cons, update_misses hmisses, Option.bind_none,
      ih fun e he => hds e (List.mem_cons_of_mem _ he)]
    rfl

theorem run_misses (n : HeldNote) {ds : List PitchDetectionResult}
    (hds : ∀ d ∈ ds, (trackerOf (some n)).Misses d) :
    (pitchTrackerRun (trackerOf (some n)) ds).2 =
      List.replicate (min (pitchHoldHops - n.missing) ds.length) n.frequencyHz ++
        List.replicate (ds.length - (pitchHoldHops - n.missing)) 0 ∧
    (pitchHoldHops - n.missing < ds.length →
      (pitchTrackerRun (trackerOf (some n)) ds).1 = trackerOf none) := by
  induction ds generalizing n with
  | nil =>
    refine ⟨?_, fun h => absurd h (Nat.not_lt_zero _)⟩
    rw [List.length_nil, Nat.min_zero, Nat.zero_sub]
    rfl
  | cons d ds ih =>
    have hrest : ∀ e ∈ ds, (trackerOf (some n)).Misses e :=
      fun e he => hds e (List.mem_cons_of_mem _ he)
    rw [pitchTrackerRun_cons, update_misses (hds d List.mem_cons_self), Option.bind_some,
      HeldNote.miss, List.length_cons]
    by_cases hmissing : n.missing < pitchHoldHops
    · rw [dif_pos hmissing]
      obtain ⟨hpitches, hend⟩ := ih { n with missing := n.missing + 1, missing_le := hmissing } hrest
      simp only at hpitches hend
      obtain ⟨left, hleft⟩ := Nat.exists_eq_add_of_lt hmissing
      have hnow : pitchHoldHops - n.missing = left + 1 := by omega
      have hlater : pitchHoldHops - (n.missing + 1) = left := by omega
      rw [hlater] at hpitches hend
      rw [hnow]
      refine ⟨?_, ?_⟩
      · rw [Nat.add_min_add_right, List.replicate_succ, Nat.add_sub_add_right, List.cons_append]
        exact congrArg (List.cons _) hpitches
      · intro hlong
        exact hend (Nat.lt_of_succ_lt_succ hlong)
    · have hover : pitchHoldHops - n.missing = 0 := by omega
      have hsilent := run_silent fun e he hvoiced => (hrest e he).fallback hvoiced
      rw [dif_neg hmissing, hsilent, hover]
      refine ⟨?_, fun _ => rfl⟩
      rw [Nat.zero_min, Nat.sub_zero]
      rfl

theorem update_hears (hd : d.Meaningful)
    (h : (trackerOf held).Adopts d ∨ (trackerOf held).Confirms d) :
    ∃ n : HeldNote, n.missing = 0 ∧
      pitchTrackerUpdate (trackerOf held) d = (trackerOf (some n), n.frequencyHz) := by
  obtain ⟨n, -, -, heq⟩ | ⟨hadopts, heq⟩ | ⟨hmisses, -⟩ := update_cases held hd
  · exact ⟨n.heard, rfl, heq⟩
  · exact ⟨_, rfl, heq⟩
  · rcases h with h | h
    · exact absurd h hmisses.2
    · exact absurd h hmisses.1

/-! ## The tracker after any detections -/

theorem trackerOf_settled (held : Option HeldNote) :
    let t := trackerOf held
    (0 < t.stablePitchHz ↔ 0 ≤ t.stableMidiNote) ∧ t.missingHops ≤ pitchHoldHops ∧
      t.pendingPitchHz = 0 ∧ t.pendingMidiNote = -1 ∧ t.pendingHops = 0 := by
  cases held with
  | none => decide
  | some n =>
    have hsome : 0 < n.frequencyHz ↔ 0 ≤ n.midiNote :=
      iff_of_true n.frequency_pos n.midiNote_nonneg
    exact ⟨hsome, n.missing_le, rfl, rfl, rfl⟩

theorem reached_heardIn {ds : List PitchDetectionResult} (hds : ∀ d ∈ ds, d.Meaningful) :
    ∃ held, (pitchTrackerRun pitchTrackerInit ds).1 = trackerOf held ∧
      ∀ n ∈ held, HeardIn ds n.frequencyHz := by
  have hinit : ∀ n ∈ (none : Option HeldNote), HeardIn [] n.frequencyHz :=
    fun n hn => absurd hn (Option.not_mem_none n)
  exact run_heardIn hinit hds

/-- After each update nothing is pending, and the pitch is one that was heard. A note that was adopted
or confirmed lasts for `pitchHoldHops` hops without it; then there is silence until a detection that
is voiced and no fallback. -/
theorem pitch_held {before : List PitchDetectionResult} (hbefore : ∀ e ∈ before, e.Meaningful)
    (hd : d.Meaningful) :
    let t := (pitchTrackerRun pitchTrackerInit before).1
    let next := (pitchTrackerUpdate t d).1
    let pitch := (pitchTrackerUpdate t d).2
    ((0 < next.stablePitchHz ↔ 0 ≤ next.stableMidiNote) ∧ next.missingHops ≤ pitchHoldHops ∧
      next.pendingPitchHz = 0 ∧ next.pendingMidiNote = -1 ∧ next.pendingHops = 0) ∧
    (pitch ≠ 0 → HeardIn (before ++ [d]) pitch) ∧
    (t.Adopts d ∨ t.Confirms d → pitch = next.stablePitchHz ∧ 0 < pitch ∧
      ∀ rest, (∀ e ∈ rest, e.voiced = false ∨ next.Misses e) →
        (pitchTrackerRun next rest).2 = List.replicate (min pitchHoldHops rest.length) pitch ++
          List.replicate (rest.length - pitchHoldHops) 0 ∧
        (pitchHoldHops < rest.length → ∀ more, (∀ e ∈ more, e.voiced = true → e.fallback = true) →
          (pitchTrackerRun (pitchTrackerRun next rest).1 more).2 = List.replicate more.length 0)) := by
  intro t next pitch
  obtain ⟨held, ht, hheld⟩ := reached_heardIn hbefore
  obtain ⟨now, hnow, hpitch, hheard⟩ := update_heardIn hheld hd
  rw [← ht] at hnow hpitch
  refine ⟨?_, ?_, ?_⟩
  · have hsettled := trackerOf_settled now
    rw [← hnow] at hsettled
    exact hsettled
  · intro hsome
    have hvalue : pitch = pitchOf now := hpitch
    cases now with
    | none => exact absurd hvalue hsome
    | some n =>
      rw [hvalue]
      exact hheard n rfl
  · intro hhears
    have hhears' : (trackerOf held).Adopts d ∨ (trackerOf held).Confirms d := by
      rw [← ht]
      exact hhears
    obtain ⟨n, hfresh, hupdate⟩ := update_hears hd hhears'
    rw [← ht] at hupdate
    have hnext : next = trackerOf (some n) := congrArg Prod.fst hupdate
    have hfrequency : pitch = n.frequencyHz := congrArg Prod.snd hupdate
    rw [hnext, hfrequency]
    refine ⟨rfl, n.frequency_pos, ?_⟩
    intro rest hrest
    have hmisses : ∀ e ∈ rest, (trackerOf (some n)).Misses e := by
      intro e he
      rcases hrest e he with hunvoiced | hmisses
      · exact PitchTracker.misses_of_unvoiced _ hunvoiced
      · exact hmisses
    -- the note is fresh, so none of its `pitchHoldHops` has been used
    obtain ⟨hpitches, hend⟩ := run_misses n hmisses
    rw [hfresh, Nat.sub_zero] at hpitches hend
    refine ⟨hpitches, ?_⟩
    intro hlong more hmore
    rw [hend hlong, run_silent hmore]

/-- A note that is heard once, and then six hops without it. -/
theorem pitch_held_six :
    (pitchTrackerRun (pitchTrackerUpdate pitchTrackerInit ⟨440, 69, true, false⟩).1
      (List.replicate 6 ⟨0, -1, false, false⟩)).2 = [440, 440, 440, 440, 0, 0] := by
  have hd : (⟨440, 69, true, false⟩ : PitchDetectionResult).Meaningful := fun _ => by decide
  have hadopts : pitchTrackerInit.Adopts ⟨440, 69, true, false⟩ :=
    ⟨rfl, rfl, fun h => absurd h.2.1 (Int.lt_irrefl 0)⟩
  have hbefore : ∀ e ∈ ([] : List PitchDetectionResult), e.Meaningful :=
    fun e he => absurd he List.not_mem_nil
  obtain ⟨-, -, h⟩ := pitch_held hbefore hd
  obtain ⟨-, -, hrest⟩ := h (.inl hadopts)
  have hunvoiced : ∀ e ∈ List.replicate 6 (⟨0, -1, false, false⟩ : PitchDetectionResult),
      e.voiced = false ∨ (pitchTrackerUpdate pitchTrackerInit ⟨440, 69, true, false⟩).1.Misses e := by
    intro e he
    rw [List.eq_of_mem_replicate he]
    exact .inl rfl
  exact (hrest _ hunvoiced).1

end RemoteDevice.Buzzer
