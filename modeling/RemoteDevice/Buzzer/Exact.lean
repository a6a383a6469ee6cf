import RemoteDevice.Buzzer.Detected
import RemoteDevice.Lib.Goertzel

/-! The detector in exact arithmetic: it names the note whose frequency is the strongest in the
windowed samples. How loud they are and a constant offset make no difference to that. -/

namespace RemoteDevice.Buzzer.Detector
open Goertzel Wav Windows

/-! ## What the samples are made into -/

def realSamples (samples : List Int16) : List ℝ := samples.map fun x => (x.toInt : ℝ)

noncomputable def centered (xs : List ℝ) : List ℝ := xs.map (· - xs.sum / xs.length)

noncomputable def weight (n i : Nat) : ℝ :=
  if 1 < n then 0.5 - 0.5 * Real.cos (2.0 * Real.pi * (i / (n - 1))) else 1

noncomputable def weighted (xs : List ℝ) : List ℝ := xs.zipIdx.map fun x => x.1 * weight xs.length x.2

noncomputable def rmsOf (xs : List ℝ) : ℝ := √(energy (centered xs) / xs.length)

theorem sum_realSamples (samples : List Int16) (start : ℝ) :
    samples.foldl (fun mean x => mean + (x.toInt : ℝ)) start = start + (realSamples samples).sum := by
  induction samples generalizing start with
  | nil => exact (add_zero start).symm
  | cons x samples ih =>
    have hsum : (realSamples (x :: samples)).sum = (x.toInt : ℝ) + (realSamples samples).sum := List.sum_cons
    rw [List.foldl_cons, ih, hsum, add_assoc]

theorem meanOf_real (samples : List Int16) :
    (meanOf samples : ℝ) = (realSamples samples).sum / (realSamples samples).length := by
  show samples.foldl (fun mean x => mean + (x.toInt : ℝ)) 0.0 / ((samples.length : Int) : ℝ) = _
  rw [sum_realSamples, realSamples, List.length_map, Int.cast_natCast]
  norm_num

theorem hann_real {n : Nat} (h : 1 < n) (i : Nat) : (hann ℝ n i : ℝ) = weight n i := by
  show (0.5 : ℝ) - 0.5 * Real.cos (2.0 * Real.pi * (((i : Int) : ℝ) / (((n - 1 : Nat) : Int) : ℝ))) = _
  rw [weight, if_pos h, Int.cast_natCast, Int.cast_natCast, Nat.cast_sub h.le]
  norm_num

theorem preprocess_fold (mean : ℝ) (n : Nat) (samples : List (Int16 × Nat)) (s : Sums ℝ ℝ) :
    samples.foldl (preprocessSample mean n) s =
      ⟨s.processed ++ samples.map (fun x => ((x.1.toInt : ℝ) - mean) * weight n x.2),
        s.squareSum + energy (samples.map fun x => (x.1.toInt : ℝ) - mean),
        s.windowedEnergy + energy (samples.map fun x => ((x.1.toInt : ℝ) - mean) * weight n x.2)⟩ := by
  induction samples generalizing s with
  | nil => simp [energy]
  | cons x samples ih =>
    have hstep : preprocessSample mean n s x =
        ⟨s.processed ++ [((x.1.toInt : ℝ) - mean) * weight n x.2],
          s.squareSum + ((x.1.toInt : ℝ) - mean) * ((x.1.toInt : ℝ) - mean),
          s.windowedEnergy + ((x.1.toInt : ℝ) - mean) * weight n x.2 *
            (((x.1.toInt : ℝ) - mean) * weight n x.2)⟩ := by
      have hcentered : (if n > 1 then ((x.1.toInt : ℝ) - mean) * hann ℝ n x.2 else (x.1.toInt : ℝ) - mean) =
          ((x.1.toInt : ℝ) - mean) * weight n x.2 := by
        split
        · next h => rw [hann_real h]
        · next h => rw [weight, if_neg h, mul_one]
      rw [← hcentered]
      rfl
    rw [List.foldl_cons, hstep, ih]
    simp only [List.map_cons, energy, List.sum_cons, List.append_assoc, List.cons_append,
      List.nil_append, add_assoc, List.map_map]

theorem preprocessSamples_real (samples : List Int16) :
    preprocessSamples (F := ℝ) (D := ℝ) samples =
      (weighted (centered (realSamples samples)), energy (weighted (centered (realSamples samples))),
        rmsOf (realSamples samples)) := by
  have hlength : (realSamples samples).length = samples.length := List.length_map ..
  have hcentered : (samples.zipIdx.map fun x => (x.1.toInt : ℝ) - (meanOf samples : ℝ)) =
      centered (realSamples samples) := by
    have hfst : (samples.zipIdx.map Prod.fst).map (fun x => (x.toInt : ℝ) - (meanOf samples : ℝ)) =
        samples.zipIdx.map fun x => (x.1.toInt : ℝ) - (meanOf samples : ℝ) := List.map_map
    rw [← hfst, List.zipIdx_map_fst, centered, realSamples, List.map_map, meanOf_real]
    rfl
  have hweighted : (samples.zipIdx.map fun x =>
      ((x.1.toInt : ℝ) - (meanOf samples : ℝ)) * weight samples.length x.2) =
      weighted (centered (realSamples samples)) := by
    rw [weighted, centered, realSamples, List.map_map, List.zipIdx_map, List.map_map, List.length_map,
      meanOf_real]
    rfl
  rw [preprocessSamples, preprocess_fold, hcentered, hweighted]
  have hzero (x : ℝ) : (0.0 : ℝ) + x = x := by norm_num
  refine Prod.ext (List.nil_append _) (Prod.ext (hzero _) ?_)
  show √(((0.0 : ℝ) + energy (centered (realSamples samples))) / ((samples.length : Int) : ℝ)) = _
  rw [hzero, rmsOf, hlength, Int.cast_natCast]

/-! ## The strength of a note -/

noncomputable def noteFrequency (m : Nat) : ℝ := 440.0 * 2.0 ^ (((m : ℝ) - 69.0) / 12.0)

theorem noteFrequency_eq (m : Nat) : noteFrequency m = 440 * 2 ^ (((m : ℝ) - 69) / 12) := by
  norm_num [noteFrequency]

theorem midiNoteToFrequency_note (m : Nat) : midiNoteToFrequency ℝ m = noteFrequency m := by
  rw [midiNoteToFrequency_real, noteFrequency_eq, Int.cast_natCast]

/-- The power of the note, as a part of what `xs` can have at most at one frequency. -/
noncomputable def strength (sampleRate : UInt32) (xs : List ℝ) (m : Nat) : ℝ :=
  Complex.normSq (transform (2.0 * Real.pi * noteFrequency m / sampleRate.toNat) xs) /
    (energy xs * xs.length)

variable {sampleRate : UInt32} {xs : List ℝ} {m n : Nat}

theorem strength_le_one (sampleRate : UInt32) (xs : List ℝ) (m : Nat) : strength sampleRate xs m ≤ 1 := by
  apply div_le_one_of_le₀
  · exact (normSq_transform_le _ xs).trans_eq (mul_comm _ _)
  · exact mul_nonneg (energy_nonneg xs) (Nat.cast_nonneg _)

theorem goertzelScore_real (hxs : 0 < energy xs) (sampleRate : UInt32) (m : Nat) :
    goertzelScore xs sampleRate (midiNoteToFrequency ℝ m) (energy xs) = strength sampleRate xs m := by
  have homega : 2.0 * Real.pi * midiNoteToFrequency ℝ m / ((sampleRate.toNat : Int) : ℝ) =
      2.0 * Real.pi * noteFrequency m / sampleRate.toNat := by
    rw [midiNoteToFrequency_note, Int.cast_natCast]
  have hcoefficient (ω : ℝ) : (2.0 : ℝ) * Real.cos ω = 2 * Real.cos ω := by norm_num
  have hzero : (0.0 : ℝ) = 0 := by norm_num
  have hpower := power_eq_normSq (2.0 * Real.pi * noteFrequency m / sampleRate.toNat) xs
  have hnonneg := Complex.normSq_nonneg (transform (2.0 * Real.pi * noteFrequency m / sampleRate.toNat) xs)
  show (if energy xs ≤ 0.0 then (0.0 : ℝ) else
    let s := xs.foldl (Goertzel.next (2.0 * Real.cos (2.0 * Real.pi * midiNoteToFrequency ℝ m /
      ((sampleRate.toNat : Int) : ℝ)))) (0.0, 0.0)
    if power (2.0 * Real.cos (2.0 * Real.pi * midiNoteToFrequency ℝ m /
        ((sampleRate.toNat : Int) : ℝ))) s ≤ 0.0 then 0.0
    else power (2.0 * Real.cos (2.0 * Real.pi * midiNoteToFrequency ℝ m /
        ((sampleRate.toNat : Int) : ℝ))) s / (energy xs * ((xs.length : Int) : ℝ))) = _
  rw [hzero, if_neg hxs.not_ge, homega, hcoefficient, Int.cast_natCast]
  dsimp only
  rw [← terms, hpower, strength]
  split
  · next hnone => rw [le_antisymm hnone hnonneg, zero_div]
  · rfl

/-! ## The scan -/

theorem noteFrequency_lt (h : m < n) : noteFrequency m < noteFrequency n := by
  have hexp : ((m : ℝ) - 69) / 12 < ((n : ℝ) - 69) / 12 := by
    have hcast : (m : ℝ) < n := Nat.cast_lt.mpr h
    linarith
  rw [noteFrequency_eq, noteFrequency_eq]
  exact mul_lt_mul_of_pos_left (Real.rpow_lt_rpow_of_exponent_lt one_lt_two hexp) (by norm_num)

theorem half_le_iff : CFloat.ofInt sampleRate.toNat * 0.5 ≤ midiNoteToFrequency ℝ m ↔
    (sampleRate.toNat : ℝ) / 2 ≤ noteFrequency m := by
  have hhalf : ((sampleRate.toNat : Int) : ℝ) * 0.5 = sampleRate.toNat / 2 := by
    rw [Int.cast_natCast, div_eq_mul_inv]
    norm_num
  show ((sampleRate.toNat : Int) : ℝ) * 0.5 ≤ midiNoteToFrequency ℝ m ↔ _
  rw [hhalf, midiNoteToFrequency_note]

structure ScanEnds (sampleRate : UInt32) (xs : List ℝ) (count start : Nat) (best r : Best ℝ) : Prop where
  le : best.score ≤ r.score
  strongest : ∀ k, start ≤ k → k < start + count → noteFrequency k < sampleRate.toNat / 2 →
    strength sampleRate xs k ≤ r.score
  first : r = best ∨ ∃ m : Nat, start ≤ m ∧ m < start + count ∧ noteFrequency m < sampleRate.toNat / 2 ∧
    r = ⟨strength sampleRate xs m, m⟩ ∧ best.score < r.score ∧
      ∀ k, start ≤ k → k < m → strength sampleRate xs k < r.score

theorem scanNotes_real (sampleRate : UInt32) (hxs : 0 < energy xs) (count start : Nat) (best : Best ℝ) :
    ScanEnds sampleRate xs count start best
      (scanNotes xs sampleRate (energy xs) count start best) := by
  induction count generalizing start best with
  | zero => exact ⟨le_rfl, fun k hlow hhigh => absurd hhigh (by omega), .inl rfl⟩
  | succ count ih =>
    rw [scanNotes]
    simp only [half_le_iff, goertzelScore_real hxs]
    split
    -- the scan breaks, and every later note is above half the rate, too
    · next hhalf =>
      refine ⟨le_rfl, fun k hlow _ hk => ?_, .inl rfl⟩
      have hmono : noteFrequency start ≤ noteFrequency k := by
        rcases hlow.eq_or_lt with rfl | hlt
        · exact le_rfl
        · exact (noteFrequency_lt hlt).le
      exact absurd hk (hhalf.trans hmono).not_gt
    · next hhalf =>
      obtain ⟨hle, hstrongest, hfirst⟩ := ih (start + 1)
        (if best.score < strength sampleRate xs start then ⟨strength sampleRate xs start, start⟩ else best)
      generalize scanNotes xs sampleRate (energy xs) count (start + 1) _ = r at *
      have hbest : best.score ≤ r.score ∧ strength sampleRate xs start ≤ r.score := by
        split at hle
        · next hlt => exact ⟨hlt.le.trans hle, hle⟩
        · next hge => exact ⟨hle, (not_lt.mp hge).trans hle⟩
      refine ⟨hbest.1, fun k hlow hhigh hk => ?_, ?_⟩
      · rcases hlow.eq_or_lt with rfl | hlt
        · exact hbest.2
        · exact hstrongest k hlt (by omega) hk
      -- the first of the strongest notes is this one or a later one
      rcases hfirst with rfl | ⟨m, hlow, hhigh, hm, hr, hlt, hbefore⟩
      · split
        · next hlt =>
          exact .inr ⟨start, le_rfl, by omega, not_le.mp hhalf, rfl, hlt, fun k hlow hk => by omega⟩
        · exact .inl rfl
      · have hmore : best.score < r.score ∧ strength sampleRate xs start < r.score := by
          split at hlt
          · next hstart => exact ⟨hstart.trans hlt, hlt⟩
          · next hstart => exact ⟨hlt, (not_lt.mp hstart).trans_lt hlt⟩
        refine .inr ⟨m, by omega, by omega, hm, hr, hmore.1, fun k hlow hk => ?_⟩
        rcases hlow.eq_or_lt with rfl | hafter
        · exact hmore.2
        · exact hbefore k hafter hk

/-! ## What is heard -/

noncomputable def analysed (samples : List Int16) : List ℝ :=
  realSamples (samples.take (clampSampleCount samples.length))

structure Strongest (sampleRate : UInt32) (xs : List ℝ) (m : Nat) : Prop where
  note : IsNote m
  below : noteFrequency m < sampleRate.toNat / 2
  clear : 35 / 1000 ≤ strength sampleRate xs m
  strongest : ∀ k, IsNote k → noteFrequency k < sampleRate.toNat / 2 →
    strength sampleRate xs k ≤ strength sampleRate xs m
  lowest : ∀ k < m, IsNote k → strength sampleRate xs k < strength sampleRate xs m

structure Heard (sampleRate : UInt32) (xs : List ℝ) (m : Nat) : Prop where
  rate : sampleRate ≠ 0
  loud : 180 ≤ rmsOf xs
  sounding : 0 < energy (weighted (centered xs))
  strongest : Strongest sampleRate (weighted (centered xs)) m

theorem ScanEnds.score_eq {r : Best ℝ} {count start : Nat} {score : ℝ}
    (h : ScanEnds sampleRate xs count start ⟨score, -1⟩ r) (hm : r.midiNote = m) :
    r.score = strength sampleRate xs m := by
  rcases h.first with rfl | ⟨k, -, -, -, rfl, -⟩
  · exact absurd hm (by show ¬(-1 : Int) = m; omega)
  · obtain rfl : k = m := Int.ofNat_inj.mp hm
    rfl

theorem ScanEnds.note_iff {r : Best ℝ}
    (h : ScanEnds sampleRate xs (detectorMaxMidiNote + 1 - detectorMinMidiNote) detectorMinMidiNote
      ⟨0, -1⟩ r) :
    Strongest sampleRate xs m ↔ ¬(r.midiNote < 0 ∨ r.score < 0.035) ∧ r.midiNote = m := by
  have hclear : (0.035 : ℝ) = 35 / 1000 := by norm_num
  have hrange (k : Nat) : IsNote k ↔ detectorMinMidiNote ≤ k ∧
      k < detectorMinMidiNote + (detectorMaxMidiNote + 1 - detectorMinMidiNote) := by
    rw [IsNote, detectorMinMidiNote, detectorMaxMidiNote]
    omega
  obtain ⟨-, hstrongest, hfirst⟩ := h
  rw [hclear]
  constructor
  · intro hm
    obtain ⟨hlow, hhigh⟩ := (hrange m).mp hm.note
    have hle := hstrongest m hlow hhigh hm.below
    rcases hfirst with rfl | ⟨k, hklow, hkhigh, hk, rfl, -, hbefore⟩
    · have hclear := hm.clear
      have hzero : strength sampleRate xs m ≤ 0 := hle
      linarith
    have hsame : k = m := by
      have hnot : ¬k < m := fun hlt =>
        absurd (hm.lowest k hlt ((hrange k).mpr ⟨hklow, hkhigh⟩)) hle.not_gt
      have hnot' : ¬m < k := fun hlt => absurd (hbefore m hlow hlt)
        (hm.strongest k ((hrange k).mpr ⟨hklow, hkhigh⟩) hk).not_gt
      omega
    subst hsame
    refine ⟨?_, rfl⟩
    rw [not_or, not_lt, not_lt]
    exact ⟨Int.natCast_nonneg k, hm.clear⟩
  · rintro ⟨hfound, hnote⟩
    rw [not_or, not_lt, not_lt] at hfound
    rcases hfirst with rfl | ⟨k, hklow, hkhigh, hk, rfl, -, hbefore⟩
    · exact absurd hfound.1 (by decide)
    obtain rfl : k = m := Int.ofNat_inj.mp hnote
    refine ⟨(hrange k).mpr ⟨hklow, hkhigh⟩, hk, hfound.2, fun j hj hbelow => ?_, fun j hlt hj => ?_⟩
    · exact hstrongest j ((hrange j).mp hj).1 ((hrange j).mp hj).2 hbelow
    · exact hbefore j ((hrange j).mp hj).1 hlt

theorem rmsOf_nil : rmsOf [] = 0 := by simp [rmsOf]

theorem Strongest.unique (hm : Strongest sampleRate xs m) (hn : Strongest sampleRate xs n) : m = n := by
  rcases lt_trichotomy m n with hlt | heq | hlt
  · exact absurd (hn.lowest m hlt hm.note) (hm.strongest n hn.note hn.below).not_gt
  · exact heq
  · exact absurd (hm.lowest n hlt hn.note) (hn.strongest m hm.note hm.below).not_gt

theorem pitchDetectNote_real (samples : List Int16) (sampleRate : UInt32) :
    let r : Int × Detection ℝ := pitchDetectNote ℝ samples sampleRate
    (Silent r ∧ ∀ m, ¬Heard sampleRate (analysed samples) m) ∨
      ∃ m, Heard sampleRate (analysed samples) m ∧ Names r m ∧
        r.2.confidence = strength sampleRate (weighted (centered (analysed samples))) m := by
  have hloud : (180.0 : ℝ) = 180 := by norm_num
  have hzero : (0.0 : ℝ) = 0 := by norm_num
  have hone : (1.0 : ℝ) = 1 := by norm_num
  rw [pitchDetectNote, preprocessSamples_real]
  split
  · next hempty =>
    refine .inl ⟨⟨rfl, rfl, rfl⟩, fun m h => ?_⟩
    rcases hempty with hnil | hrate
    · have hloud := h.loud
      rw [analysed, List.length_eq_zero_iff.mp hnil] at hloud
      have hsmall : (180 : ℝ) ≤ 0 := hloud.trans_eq rmsOf_nil
      linarith
    · exact h.rate hrate
  next hsome =>
  obtain ⟨-, hrate⟩ := not_or.mp hsome
  rw [← analysed, hloud, hzero]
  dsimp only
  split
  · next hquiet =>
    refine .inl ⟨⟨rfl, rfl, rfl⟩, fun m h => ?_⟩
    rcases hquiet with hrms | henergy
    · exact absurd h.loud hrms.not_ge
    · exact absurd h.sounding henergy.not_gt
  next hsounding =>
  rw [not_or, not_lt, not_le] at hsounding
  -- of the scan only what it ends with matters from here on
  have hends := scanNotes_real sampleRate hsounding.2 (detectorMaxMidiNote + 1 - detectorMinMidiNote)
    detectorMinMidiNote ⟨0, -1⟩
  generalize scanNotes (weighted (centered (analysed samples))) sampleRate
    (energy (weighted (centered (analysed samples)))) (detectorMaxMidiNote + 1 - detectorMinMidiNote)
    detectorMinMidiNote (⟨0, -1⟩ : Best ℝ) = best at hends ⊢
  split
  · next hnone =>
    exact .inl ⟨⟨rfl, rfl, rfl⟩, fun m h => (hends.note_iff.mp h.strongest).1 hnone⟩
  · next hfound =>
    obtain ⟨m, hm⟩ : ∃ m : Nat, best.midiNote = m := Int.eq_ofNat_of_zero_le (not_lt.mp (not_or.mp hfound).1)
    have hle := strength_le_one sampleRate (weighted (centered (analysed samples))) m
    have hconfidence : (if 1.0 < best.score then 1.0 else best.score) =
        strength sampleRate (weighted (centered (analysed samples))) m := by
      rw [hone, hends.score_eq hm]
      exact if_neg hle.not_gt
    refine .inr ⟨m, ⟨hrate, hsounding.1, hsounding.2, hends.note_iff.mpr ⟨hfound, hm⟩⟩, ?_, hconfidence⟩
    rw [hm]
    exact ⟨rfl, rfl, rfl⟩

theorem Names.unique {F : Type} [Sub F] [Mul F] [Div F] [OfScientific F] [CFloat F]
    {r : Int × Detection F} (hm : Names r m) (hn : Names r n) : m = n :=
  Int.ofNat_inj.mp ((congrArg PitchDetectionResult.midiNote hm.2.1).symm.trans
    (congrArg PitchDetectionResult.midiNote hn.2.1))

theorem Silent.not_names {F : Type} [Sub F] [Mul F] [Div F] [OfScientific F] [CFloat F]
    {r : Int × Detection F} (h : Silent r) : ¬Names r m :=
  fun hm => absurd (h.1.symm.trans hm.1) (by decide)

theorem Heard.names {samples : List Int16} (h : Heard sampleRate (analysed samples) m) :
    Names (pitchDetectNote ℝ samples sampleRate : Int × Detection ℝ) m := by
  rcases pitchDetectNote_real samples sampleRate with ⟨-, hnone⟩ | ⟨n, hheard, hnames, -⟩
  · exact absurd h (hnone m)
  · exact hheard.strongest.unique h.strongest ▸ hnames

/-- In exact arithmetic a note is detected if and only if it is the strongest of the samples, these are
loud and the note is clear. -/
theorem exact_note (samples : List Int16) (sampleRate : UInt32) (m : Nat) :
    let r : Int × Detection ℝ := pitchDetectNote ℝ samples sampleRate
    (Names r m ↔ Heard sampleRate (analysed samples) m) ∧
      (Names r m → r.2.confidence = strength sampleRate (weighted (centered (analysed samples))) m ∧
        r.2.confidence ≤ 1) := by
  intro r
  rcases pitchDetectNote_real samples sampleRate with ⟨hsilent, hnone⟩ | ⟨n, hheard, hnames, hconfidence⟩
  · exact ⟨iff_of_false hsilent.not_names (hnone m), fun h => absurd h hsilent.not_names⟩
  · refine ⟨⟨fun h => hnames.unique h ▸ hheard, Heard.names⟩, fun h => ?_⟩
    obtain rfl := hnames.unique h
    exact ⟨hconfidence, hconfidence.trans_le (strength_le_one ..)⟩

/-! ## Louder, inverted or shifted -/

variable {a b : ℝ}

theorem centered_affine (a b : ℝ) (xs : List ℝ) :
    centered (xs.map fun x => a * x + b) = (centered xs).map (a * ·) := by
  rcases eq_or_ne xs [] with rfl | hxs
  · rfl
  have hlength : (xs.length : ℝ) ≠ 0 :=
    Nat.cast_ne_zero.mpr fun h => hxs (List.length_eq_zero_iff.mp h)
  have hsum : (xs.map fun x => a * x + b).sum = a * xs.sum + xs.length * b := by
    rw [List.sum_map_add, List.sum_map_mul_left, List.map_id', List.map_const', List.sum_replicate,
      nsmul_eq_mul]
  rw [centered, centered, List.map_map, List.map_map, hsum, List.length_map]
  apply List.map_congr_left
  intro x _
  show a * x + b - (a * xs.sum + xs.length * b) / xs.length = a * (x - xs.sum / xs.length)
  field_simp
  ring

theorem weighted_smul (a : ℝ) (xs : List ℝ) :
    weighted (xs.map (a * ·)) = (weighted xs).map (a * ·) := by
  rw [weighted, weighted, List.length_map, List.zipIdx_map, List.map_map, List.map_map]
  apply List.map_congr_left
  intro x _
  exact mul_assoc a x.1 _

theorem strength_smul (ha : a ≠ 0) (sampleRate : UInt32) (xs : List ℝ) (m : Nat) :
    strength sampleRate (xs.map (a * ·)) m = strength sampleRate xs m := by
  have hsq : Complex.normSq (a : ℂ) = a ^ 2 := by rw [Complex.normSq_ofReal, sq]
  rw [strength, strength, transform_smul, energy_smul, List.length_map, map_mul, hsq,
    mul_assoc (a ^ 2) (energy xs), mul_div_mul_left _ _ (pow_ne_zero 2 ha)]

theorem rmsOf_affine (a b : ℝ) (xs : List ℝ) :
    rmsOf (xs.map fun x => a * x + b) = |a| * rmsOf xs := by
  rw [rmsOf, rmsOf, centered_affine, energy_smul, List.length_map, mul_div_assoc,
    Real.sqrt_mul (sq_nonneg a), Real.sqrt_sq_eq_abs]

theorem Heard.affine (h : Heard sampleRate xs m) (ha : 1 ≤ |a|) (b : ℝ) :
    Heard sampleRate (xs.map fun x => a * x + b) m := by
  have hne : a ≠ 0 := by
    rintro rfl
    rw [abs_zero] at ha
    linarith
  refine ⟨h.rate, ?_, ?_, ?_⟩
  · rw [rmsOf_affine]
    exact h.loud.trans (le_mul_of_one_le_left (Real.sqrt_nonneg _) ha)
  · rw [centered_affine, weighted_smul, energy_smul]
    exact mul_pos (by positivity) h.sounding
  · rw [centered_affine, weighted_smul]
    obtain ⟨hnote, hbelow, hclear, hstrongest, hlowest⟩ := h.strongest
    refine ⟨hnote, hbelow, ?_, ?_, ?_⟩
    · rwa [strength_smul hne]
    · simpa only [strength_smul hne] using hstrongest
    · simpa only [strength_smul hne] using hlowest

def Amplified (a b : ℝ) (quiet loud : List Int16) : Prop :=
  realSamples loud = (realSamples quiet).map fun x => a * x + b

variable {quiet loud : List Int16}

theorem amplified_of_toInt {p q : Int}
    (h : loud.map Int16.toInt = quiet.map fun x => p * x.toInt + q) : Amplified p q quiet loud := by
  have hcast := congrArg (List.map fun n : Int => (n : ℝ)) h
  rw [List.map_map, List.map_map] at hcast
  rw [Amplified, realSamples, realSamples, List.map_map]
  refine hcast.trans (List.map_congr_left fun x _ => ?_)
  show ((p * x.toInt + q : Int) : ℝ) = p * (x.toInt : ℝ) + q
  push_cast
  rfl

theorem Amplified.length_eq (h : Amplified a b quiet loud) : loud.length = quiet.length := by
  have hlength := congrArg List.length h
  rwa [realSamples, realSamples, List.length_map, List.length_map, List.length_map] at hlength

theorem Amplified.take (h : Amplified a b quiet loud) (n : Nat) :
    Amplified a b (quiet.take n) (loud.take n) := by
  have htake := congrArg (List.take n) h
  rwa [realSamples, realSamples, ← List.map_take, ← List.map_take, ← List.map_take] at htake

theorem Amplified.drop (h : Amplified a b quiet loud) (n : Nat) :
    Amplified a b (quiet.drop n) (loud.drop n) := by
  have hdrop := congrArg (List.drop n) h
  rwa [realSamples, realSamples, ← List.map_drop, ← List.map_drop, ← List.map_drop] at hdrop

theorem Amplified.analysed_eq (h : Amplified a b quiet loud) :
    analysed loud = (analysed quiet).map fun x => a * x + b := by
  rw [analysed, h.length_eq]
  exact h.take _

theorem Amplified.symm (h : Amplified a b quiet loud) (ha : a ≠ 0) :
    Amplified a⁻¹ (-(a⁻¹ * b)) loud quiet := by
  rw [Amplified, h, List.map_map]
  conv => left; rw [← List.map_id' (realSamples quiet)]
  apply List.map_congr_left
  intro x _
  show x = a⁻¹ * (a * x + b) + -(a⁻¹ * b)
  rw [mul_add, inv_mul_cancel_left₀ ha, add_neg_cancel_right]

/-- In exact arithmetic a note that is heard in a window is heard in the same way in the window played
louder, upside down or around another middle. -/
theorem louder_same_note (h : Amplified a b quiet loud) (ha : 1 ≤ |a|)
    (hheard : Names (pitchDetectNote ℝ quiet sampleRate : Int × Detection ℝ) m) :
    Names (pitchDetectNote ℝ loud sampleRate : Int × Detection ℝ) m ∧
      (pitchDetectNote ℝ loud sampleRate : Int × Detection ℝ).2.confidence =
        (pitchDetectNote ℝ quiet sampleRate : Int × Detection ℝ).2.confidence := by
  have hne : a ≠ 0 := by
    rintro rfl
    rw [abs_zero] at ha
    linarith
  rcases pitchDetectNote_real quiet sampleRate with ⟨hsilent, -⟩ | ⟨n, hquiet, hnames, hconfidence⟩
  · exact absurd hheard hsilent.not_names
  obtain rfl := hnames.unique hheard
  have hloud := hquiet.affine ha b
  rw [← h.analysed_eq] at hloud
  rcases pitchDetectNote_real loud sampleRate with ⟨-, hnone⟩ | ⟨k, hheard', hnames', hconfidence'⟩
  · exact absurd hloud (hnone n)
  obtain rfl := hheard'.strongest.unique hloud.strongest
  refine ⟨hnames', ?_⟩
  rw [hconfidence', hconfidence, h.analysed_eq, centered_affine, weighted_smul, strength_smul hne]

/-! A window of three samples, of which the weights leave the middle one. -/

def pulse : List Int16 := [-2048, 4096, -2048]

theorem analysed_pulse : analysed pulse = [-2048, 4096, -2048] := by
  show [((-2048 : Int16).toInt : ℝ), ((4096 : Int16).toInt : ℝ), ((-2048 : Int16).toInt : ℝ)] = _
  have hlow : (-2048 : Int16).toInt = -2048 := by decide
  have hhigh : (4096 : Int16).toInt = 4096 := by decide
  rw [hlow, hhigh]
  norm_num

theorem centered_pulse : centered [-2048, 4096, -2048] = [-2048, 4096, -2048] := by
  norm_num [centered]

theorem weighted_pulse : weighted (centered (analysed pulse)) = [0, 4096, 0] := by
  have hfirst : weight 3 0 = 0 := by norm_num [weight]
  have hmiddle : weight 3 1 = 1 := by
    have hhalf : 2 * Real.pi * (1 / 2) = Real.pi := by ring
    norm_num [weight]
    rw [hhalf, Real.cos_pi]
    norm_num
  have hlast : weight 3 2 = 0 := by norm_num [weight]
  rw [analysed_pulse, centered_pulse]
  show [-2048 * weight 3 0, 4096 * weight 3 1, -2048 * weight 3 2] = [0, 4096, 0]
  rw [hfirst, hmiddle, hlast]
  norm_num

theorem strength_pulse (m : Nat) : strength 8000 [0, 4096, 0] m = 1 / 3 := by
  have htransform (ω : ℝ) : transform ω [0, 4096, 0] = 4096 * Complex.exp (-ω * Complex.I) := by
    simp [transform, Finset.sum_range_succ]
  have hunit (ω : ℝ) : Complex.normSq (Complex.exp (-ω * Complex.I)) = 1 := by
    rw [Complex.normSq_eq_norm_sq, ← Complex.ofReal_neg, Complex.norm_exp_ofReal_mul_I, one_pow]
  rw [strength, htransform, map_mul, hunit]
  norm_num [energy, Complex.normSq_ofNat]

theorem heard_pulse : Heard 8000 (analysed pulse) 33 := by
  refine ⟨by decide, ?_, ?_, ?_⟩
  · rw [analysed_pulse, rmsOf, centered_pulse]
    apply Real.le_sqrt_of_sq_le
    norm_num [energy]
  · rw [weighted_pulse]
    norm_num [energy]
  · rw [weighted_pulse]
    refine ⟨by decide, ?_, ?_, ?_, ?_⟩
    · have hoctaves : (2 : ℝ) ^ ((((33 : Nat) : ℝ) - 69) / 12) ≤ 1 :=
        Real.rpow_le_one_of_one_le_of_nonpos one_le_two (by norm_num)
      have hrate : (8000 : UInt32).toNat = 8000 := rfl
      rw [noteFrequency_eq, hrate]
      push_cast at hoctaves ⊢
      linarith
    · rw [strength_pulse]
      norm_num
    · intro k _ _
      rw [strength_pulse, strength_pulse]
    · intro k hk hnote
      exact absurd hnote.1 (by rw [detectorMinMidiNote]; omega)

/-- The pulse twice as loud, upside down and 500 higher. -/
theorem louder_same_note_pulse :
    Names (pitchDetectNote ℝ [4596, -7692, 4596] 8000 : Int × Detection ℝ) 33 := by
  have hloud : Amplified (-2 : Int) (500 : Int) pulse [4596, -7692, 4596] := amplified_of_toInt (by decide)
  exact (louder_same_note hloud (by norm_num) heard_pulse.names).1

/-! ## A recording upside down -/

theorem Amplified.hear_eq (h : Amplified a b quiet loud) (ha : |a| = 1) (sampleRate : UInt32) :
    hear ℝ ℝ sampleRate loud = hear ℝ ℝ sampleRate quiet := by
  have hne : a ≠ 0 := by
    rintro rfl
    rw [abs_zero] at ha
    exact zero_ne_one ha
  rw [hear, hear]
  rcases pitchDetectNote_real quiet sampleRate with ⟨hsilent, hnone⟩ | ⟨m, hquiet, hnames, -⟩
  · rcases pitchDetectNote_real loud sampleRate with ⟨hsilent', -⟩ | ⟨m, hloud, -⟩
    · rw [hsilent.2.1, hsilent'.2.1]
    · have hback := hloud.affine (a := a⁻¹) (by rw [abs_inv, ha, inv_one]) (-(a⁻¹ * b))
      rw [← (h.symm hne).analysed_eq] at hback
      exact absurd hback (hnone m)
  · have hloud := hquiet.affine ha.ge b
    rw [← h.analysed_eq] at hloud
    rw [hnames.2.1, hloud.names.2.1]

theorem expectedHops_notes (detect : List Int16 → PitchDetectionResult) (sampleRate : UInt32)
    (window hop : Nat) (tracker : PitchTracker) (todo : List Int16) :
    (expectedHops detect sampleRate window hop tracker todo).map Hop.note =
      (pitchTrackerRun tracker ((windows window hop todo).map detect)).2.zip
        ((hops hop todo.length).map fun n => UInt32.ofNat (durationMs sampleRate n)) := by
  apply List.ext_getElem
  · rw [List.length_map, expectedHops_length, List.length_zip, pitchTrackerRun_length, List.length_map,
      List.length_map, windows, hops, List.length_map, List.length_map, List.length_range, Nat.min_self]
  · intro i hi hi'
    simp only [expectedHops, List.getElem_map, List.getElem_zipWith]

theorem Amplified.recordedNotes (h : Amplified a b quiet loud) (ha : |a| = 1) (sampleRate : UInt32)
    (window hop : Nat) (tracker : PitchTracker) :
    (expectedHops (hear ℝ ℝ sampleRate) sampleRate window hop tracker loud).map Hop.note =
      (expectedHops (hear ℝ ℝ sampleRate) sampleRate window hop tracker quiet).map Hop.note := by
  have hheard : (windows window hop loud).map (hear ℝ ℝ sampleRate) =
      (windows window hop quiet).map (hear ℝ ℝ sampleRate) := by
    rw [windows, windows, List.map_map, List.map_map, h.length_eq]
    apply List.map_congr_left
    intro i _
    exact ((h.drop (i * hop)).take window).hear_eq ha sampleRate
  rw [expectedHops_notes, expectedHops_notes, hheard, h.length_eq]

theorem build_expected {info : WavInfo} (hinfo : info.Supported) (file : ByteFile)
    (samples : Checked.Buffer pitchMaxWindowSamples Int16) (detect : List Int16 → PitchDetectionResult)
    {answers : List (Bool × Bool)} (hrun : ∀ p ∈ answers, p.1 = false) (hok : ∀ p ∈ answers, p.2 = true)
    (hlong : rounds (hopSize info.sampleRate.toNat)
      (WavStream.samples info ⟨file, info.dataSize.toNat⟩).length < answers.length) :
    buildMelodyFromWav detect info file samples answers = .ok (some (DeviceResult.ok,
      (appendAll {} (((recordedHops detect info file).map Hop.note).zip (answers.map Prod.snd))).1)) := by
  obtain ⟨made, r, melody, -, hbuild, happend, -, hend⟩ :=
    hopsOfWav_expected hinfo file samples detect hrun hlong
  have hall : (appendAll {} ((made.map Hop.note).zip (answers.map Prod.snd))).2 = true := by
    apply appendAll_ok
    intro p hp
    obtain ⟨answer, hanswer, hsnd⟩ := List.mem_map.mp (List.of_mem_zip hp).2
    rw [← hsnd]
    exact hok answer hanswer
  rw [happend] at hall
  have hr : r = DeviceResult.ok := of_decide_eq_true hall
  rcases hend with ⟨-, rfl⟩ | ⟨hfailed, -⟩
  · rw [hbuild, happend, hr]
  · rw [hr] at hfailed
    exact absurd hfailed (by decide)

/-- In exact arithmetic a recording and its copy upside down or around another middle become the same
melody, whatever else is in the two files. -/
theorem inverted_recording_same_melody {bytes bytes' : List UInt8} {info info' : WavInfo}
    (haccepted : wavReadHeader bytes = some (info, (DeviceResult.ok : Int)))
    (haccepted' : wavReadHeader bytes' = some (info', (DeviceResult.ok : Int)))
    (hrate : info'.sampleRate = info.sampleRate) {pos pos' : Nat} (ha : |a| = 1)
    (h : Amplified a b (WavStream.samples info ⟨⟨bytes, pos⟩, info.dataSize.toNat⟩)
      (WavStream.samples info' ⟨⟨bytes', pos'⟩, info'.dataSize.toNat⟩))
    (samples samples' : Checked.Buffer pitchMaxWindowSamples Int16) {answers : List (Bool × Bool)}
    (hrun : ∀ p ∈ answers, p.1 = false) (hok : ∀ p ∈ answers, p.2 = true)
    (hlong : rounds (hopSize info.sampleRate.toNat)
      (WavStream.samples info ⟨⟨bytes, pos⟩, info.dataSize.toNat⟩).length < answers.length) :
    ∃ melody,
      buildMelodyFromWav (hear ℝ ℝ info.sampleRate) info ⟨bytes, pos⟩ samples answers =
        .ok (some (DeviceResult.ok, melody)) ∧
      buildMelodyFromWav (hear ℝ ℝ info'.sampleRate) info' ⟨bytes', pos'⟩ samples' answers =
        .ok (some (DeviceResult.ok, melody)) := by
  have hlong' : rounds (hopSize info'.sampleRate.toNat)
      (WavStream.samples info' ⟨⟨bytes', pos'⟩, info'.dataSize.toNat⟩).length < answers.length := by
    rwa [h.length_eq, hrate]
  refine ⟨_, build_expected (wavReadHeader_supported haccepted) _ samples _ hrun hok hlong, ?_⟩
  rw [build_expected (wavReadHeader_supported haccepted') _ samples' _ hrun hok hlong', recordedHops,
    recordedHops, hrate, h.recordedNotes ha]

theorem dataId_length : dataId.length = 4 := rfl

theorem threeSamples_lt (x y z : UInt8) : [x, y, z].length < 2 ^ 32 := (by decide : 3 < 2 ^ 32)

theorem noExtra_lt : ([] : List UInt8).length < 100 := by decide

def threeSamples (x y z : UInt8) : WavFile :=
  { WavFile.sample [] noExtra_lt with
    data := ⟨dataId, [x, y, z], 0, dataId_length, threeSamples_lt x y z⟩
    data_id := Eq.refl dataId }

/-- The pulse at 8000 Hz is the note of 55 Hz, for the millisecond that it lasts. -/
theorem melody_of_detected_notes_pulse : ∃ r melody,
    buildMelodyFromWav (hear ℝ ℝ (threeSamples 120 144 120).info.sampleRate)
        (threeSamples 120 144 120).info
        ⟨(threeSamples 120 144 120).encode, 44⟩ (fun _ => 0) [(false, true), (false, true)] =
      .ok (some (r, melody)) ∧
    melody.notes = [⟨55, 1⟩] ∧
    ∀ note ∈ melody.notes, SoundsIn ℝ ℝ (threeSamples 120 144 120).info
      ⟨(threeSamples 120 144 120).encode, 44⟩ note.frequencyHz := by
  have haccepted : wavReadHeader (threeSamples 120 144 120).encode =
      some ((threeSamples 120 144 120).info, (DeviceResult.ok : Int)) := by decide
  have hread : WavStream.samples (threeSamples 120 144 120).info
      ⟨⟨(threeSamples 120 144 120).encode, 44⟩, (threeSamples 120 144 120).info.dataSize.toNat⟩ =
        pulse := by decide
  have hrate : (threeSamples 120 144 120).info.sampleRate = 8000 := by decide
  have hwindows : windows (windowSize 8000) (hopSize 8000) pulse = [pulse] := by decide
  have hheard : hear ℝ ℝ 8000 pulse = ⟨55, 33, true, false⟩ := by
    have hnote : Buzzer.midiNoteToFrequencyHz 33 = 55 := by
      rw [midiNoteToFrequencyHz_eq (by decide) (by decide)]
      rfl
    rw [hear, heard_pulse.names.2.1, roundsNotes_real 33 (by decide), hnote]
    rfl
  have hrun : ∀ p ∈ [(false, true), (false, true)], p.1 = false := by decide
  have hok : ∀ p ∈ [(false, true), (false, true)], p.2 = true := by decide
  have hbuild := build_expected (wavReadHeader_supported haccepted)
    ⟨(threeSamples 120 144 120).encode, 44⟩ (fun _ => 0)
    (hear ℝ ℝ (threeSamples 120 144 120).info.sampleRate) hrun hok (by rw [hread]; decide)
  refine ⟨_, _, hbuild, ?_, melody_of_detected_notes roundsNotes_real haccepted hbuild⟩
  have hnotes : (recordedHops (hear ℝ ℝ (threeSamples 120 144 120).info.sampleRate)
      (threeSamples 120 144 120).info ⟨(threeSamples 120 144 120).encode, 44⟩).map Hop.note = [(55, 1)] := by
    rw [recordedHops, expectedHops_notes, hread, hrate]
    show (pitchTrackerRun pitchTrackerInit
      ((windows (windowSize 8000) (hopSize 8000) pulse).map (hear ℝ ℝ 8000))).2.zip _ = _
    rw [hwindows, List.map_singleton, hheard]
    decide
  rw [hnotes]
  decide

theorem inverted_recording_same_melody_pulse : ∃ melody,
    buildMelodyFromWav (hear ℝ ℝ 8000) (threeSamples 120 144 120).info
        ⟨(threeSamples 120 144 120).encode, 44⟩ (fun _ => 0) [(false, true), (false, true)] =
      .ok (some (DeviceResult.ok, melody)) ∧
    buildMelodyFromWav (hear ℝ ℝ 8000) (threeSamples 136 112 136).info
        ⟨(threeSamples 136 112 136).encode, 44⟩ (fun _ => 0) [(false, true), (false, true)] =
      .ok (some (DeviceResult.ok, melody)) := by
  have haccepted : wavReadHeader (threeSamples 120 144 120).encode =
      some ((threeSamples 120 144 120).info, (DeviceResult.ok : Int)) := by decide
  have haccepted' : wavReadHeader (threeSamples 136 112 136).encode =
      some ((threeSamples 136 112 136).info, (DeviceResult.ok : Int)) := by decide
  have hquiet : WavStream.samples (threeSamples 120 144 120).info
      ⟨⟨(threeSamples 120 144 120).encode, 44⟩, (threeSamples 120 144 120).info.dataSize.toNat⟩ =
        [-2048, 4096, -2048] := by decide
  have hloud : WavStream.samples (threeSamples 136 112 136).info
      ⟨⟨(threeSamples 136 112 136).encode, 44⟩, (threeSamples 136 112 136).info.dataSize.toNat⟩ =
        [2048, -4096, 2048] := by decide
  have hinverted : Amplified (-1 : Int) (0 : Int) [-2048, 4096, -2048] [2048, -4096, 2048] :=
    amplified_of_toInt (by decide)
  rw [← hquiet, ← hloud] at hinverted
  exact inverted_recording_same_melody haccepted haccepted' rfl (by norm_num) hinverted _ _ (by decide)
    (by decide) (by rw [hquiet]; decide)

end RemoteDevice.Buzzer.Detector
