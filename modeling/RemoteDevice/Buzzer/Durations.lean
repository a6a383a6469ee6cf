import Mathlib.Algebra.Order.BigOperators.Group.List
import Mathlib.Tactic.Ring
import RemoteDevice.Buzzer.Window

/-! How long a melody is: what the rounding of each hop adds, and whether the 32-bit sums hold it. -/

namespace RemoteDevice.Buzzer
open Checked Wav Windows

/-! ## Rounding up -/

/-- What rounding up to whole milliseconds adds to so many samples, in parts of a millisecond of
which a millisecond has as many as a second has samples. -/
def roundingExcess (sampleRate : UInt32) (sampleCount : Nat) : Nat :=
  (sampleRate.toNat - sampleCount * 1000 % sampleRate.toNat) % sampleRate.toNat

variable {info : WavInfo} {sampleRate : UInt32} {hop : Nat}

theorem toNat_pos (hrate : sampleRate ≠ 0) : 0 < sampleRate.toNat :=
  Nat.pos_of_ne_zero fun h => hrate (UInt32.toNat_inj.mp h)

theorem durationMs_mul (hrate : sampleRate ≠ 0) (n : Nat) :
    durationMs sampleRate n * sampleRate.toNat = n * 1000 + roundingExcess sampleRate n := by
  have hpos := toNat_pos hrate
  rw [durationMs, roundingExcess]
  generalize sampleRate.toNat = rate at hpos ⊢
  generalize n * 1000 = a
  have hsplit : rate * (a / rate) + a % rate = a := Nat.div_add_mod a rate
  have hlt : a % rate < rate := Nat.mod_lt a hpos
  have hdiv : (a + rate - 1) / rate = a / rate + (a % rate + rate - 1) / rate := by
    have hregroup : a + rate - 1 = rate * (a / rate) + (a % rate + rate - 1) := by omega
    rw [hregroup, Nat.mul_add_div hpos]
  rcases Nat.eq_zero_or_pos (a % rate) with hzero | hsome
  · have hlast : (a % rate + rate - 1) / rate = 0 := Nat.div_eq_of_lt (by omega)
    rw [hdiv, hlast, hzero, Nat.sub_zero, Nat.mod_self, Nat.add_zero, Nat.mul_comm]
    omega
  · have hregroup : a % rate + rate - 1 = a % rate - 1 + rate := by omega
    have hlast : (a % rate + rate - 1) / rate = 1 := by
      rw [hregroup, Nat.add_div_right _ hpos, Nat.div_eq_of_lt (by omega)]
    rw [hdiv, hlast, Nat.mod_eq_of_lt (by omega : rate - a % rate < rate), Nat.add_mul, Nat.one_mul,
      Nat.mul_comm]
    omega

theorem durationMs_zero (hrate : sampleRate ≠ 0) : durationMs sampleRate 0 = 0 := by
  have hpos := toNat_pos hrate
  rw [durationMs, Nat.zero_mul, Nat.zero_add]
  exact Nat.div_eq_of_lt (Nat.sub_one_lt_of_lt hpos)

theorem roundingExcess_zero (sampleRate : UInt32) : roundingExcess sampleRate 0 = 0 := by
  rw [roundingExcess, Nat.zero_mul, Nat.zero_mod, Nat.sub_zero, Nat.mod_self]

theorem roundingExcess_lt (hrate : sampleRate ≠ 0) (n : Nat) :
    roundingExcess sampleRate n < sampleRate.toNat := Nat.mod_lt _ (toNat_pos hrate)

def totalMs (sampleRate : UInt32) (hop n : Nat) : Nat :=
  n / hop * durationMs sampleRate hop + durationMs sampleRate (n % hop)

def totalExcess (sampleRate : UInt32) (hop n : Nat) : Nat :=
  n / hop * roundingExcess sampleRate hop + roundingExcess sampleRate (n % hop)

theorem sum_durationMs (hrate : sampleRate ≠ 0) (hhop : 0 < hop) (n : Nat) :
    ((hops hop n).map (durationMs sampleRate)).sum = totalMs sampleRate hop n :=
  sum_hops hhop _ (durationMs_zero hrate) n

theorem totalMs_mul (hrate : sampleRate ≠ 0) (hop n : Nat) :
    totalMs sampleRate hop n * sampleRate.toNat = n * 1000 + totalExcess sampleRate hop n := by
  have hsplit : hop * (n / hop) + n % hop = n := Nat.div_add_mod n hop
  calc totalMs sampleRate hop n * sampleRate.toNat
    _ = n / hop * (durationMs sampleRate hop * sampleRate.toNat) +
        durationMs sampleRate (n % hop) * sampleRate.toNat := by
      rw [totalMs, Nat.add_mul, Nat.mul_assoc]
    _ = n / hop * (hop * 1000 + roundingExcess sampleRate hop) +
        (n % hop * 1000 + roundingExcess sampleRate (n % hop)) := by
      rw [durationMs_mul hrate, durationMs_mul hrate]
    _ = (hop * (n / hop) + n % hop) * 1000 + totalExcess sampleRate hop n := by
      rw [totalExcess]
      ring
    _ = n * 1000 + totalExcess sampleRate hop n := by rw [hsplit]

theorem totalExcess_le (hrate : sampleRate ≠ 0) (hhop : 0 < hop) (n : Nat) :
    totalExcess sampleRate hop n ≤ rounds hop n * (sampleRate.toNat - 1) := by
  have hsum : ((hops hop n).map (roundingExcess sampleRate)).sum = totalExcess sampleRate hop n :=
    sum_hops hhop _ (roundingExcess_zero sampleRate) n
  have hlength : ((hops hop n).map (roundingExcess sampleRate)).length = rounds hop n := by
    rw [List.length_map, hops, List.length_map, List.length_range]
  rw [← hsum, ← hlength]
  apply List.sum_le_card_nsmul
  intro x hx
  obtain ⟨k, -, rfl⟩ := List.mem_map.mp hx
  exact Nat.le_sub_one_of_lt (roundingExcess_lt hrate k)

/-! ## The hops of a recording -/

variable {detect : List Int16 → PitchDetectionResult}

theorem expectedHops_durations (hrate : sampleRate ≠ 0) {window : Nat} (hhop : 0 < hop)
    (hbound : hop ≤ pitchMaxWindowSamples) (tracker : PitchTracker) (todo : List Int16) :
    (expectedHops detect sampleRate window hop tracker todo).map (fun h => h.note.2.toNat) =
      (hops hop todo.length).map (durationMs sampleRate) := by
  have hpos := toNat_pos hrate
  rw [pitchMaxWindowSamples] at hbound
  apply List.ext_getElem
  · rw [List.length_map, expectedHops_length, List.length_map, hops, List.length_map,
      List.length_range]
  intro i hi hi'
  rw [List.getElem_map, List.getElem_map]
  rw [List.length_map] at hi
  obtain ⟨-, -, hnote⟩ := expectedHops_get (List.getElem?_eq_getElem hi)
  rw [hnote]
  simp only [hops, List.getElem_map, List.getElem_range]
  apply UInt32.toNat_ofNat_of_lt'
  rw [durationMs, Nat.div_lt_iff_lt_mul hpos]
  have hless : 4096000 * sampleRate.toNat + sampleRate.toNat ≤ UInt32.size * sampleRate.toNat := by
    rw [← Nat.succ_mul]
    exact Nat.mul_le_mul_right _ (by decide)
  have hcount : 4096000 ≤ 4096000 * sampleRate.toNat := Nat.le_mul_of_pos_right _ hpos
  omega

theorem expectedHops_total (hrate : sampleRate ≠ 0) {window : Nat} (hhop : 0 < hop)
    (hbound : hop ≤ pitchMaxWindowSamples) (tracker : PitchTracker) (todo : List Int16) :
    ((expectedHops detect sampleRate window hop tracker todo).map fun h => h.note.2.toNat).sum =
      totalMs sampleRate hop todo.length := by
  rw [expectedHops_durations hrate hhop hbound, sum_durationMs hrate hhop]

/-! ## The sums -/

def MelodyBuffer.totalMs (melody : MelodyBuffer) : Nat :=
  (melody.notes.map fun note => note.durationMs.toNat).sum

def appendedMs (hops : List ((Int × UInt32) × Bool)) : Nat := (hops.map fun p => p.1.2.toNat).sum

theorem appendedMs_eq (hops : List ((Int × UInt32) × Bool)) :
    appendedMs hops = (Timeline.expand (Timeline.encode (segmentsOf hops))).length := by
  rw [Timeline.expand_encode, Timeline.expand_length, segmentsOf, List.map_map]
  rfl

theorem NeverWraps.total {hops : List ((Int × UInt32) × Bool)} {melody : MelodyBuffer}
    (h : NeverWraps {} hops) (hall : appendAll {} hops = (melody, true)) :
    melody.totalMs = appendedMs hops := by
  have hsegments : melody.segments = Timeline.encode (segmentsOf hops) := h.segments hall
  rw [appendedMs_eq, ← hsegments, Timeline.expand_length, MelodyBuffer.segments, List.map_map]
  rfl

theorem neverWraps_of_total {hops : List ((Int × UInt32) × Bool)} (h : appendedMs hops < 2 ^ 32) :
    NeverWraps {} hops := by
  apply neverWraps_of_fit
  intro s hs
  rw [appendedMs_eq] at h
  exact lt_of_le_of_lt (Timeline.duration_le hs) h

theorem appendedMs_zip (made : List Hop) (answers : List (Bool × Bool))
    (hlen : made.length ≤ answers.length) :
    appendedMs ((made.map Hop.note).zip (answers.map Prod.snd)) =
      (made.map fun h => h.note.2.toNat).sum := by
  have hfst : ((made.map Hop.note).zip (answers.map Prod.snd)).map Prod.fst = made.map Hop.note := by
    apply List.map_fst_zip
    rw [List.length_map, List.length_map]
    exact hlen
  have hmap := congrArg (List.map fun note : Int × UInt32 => note.2.toNat) hfst
  rw [List.map_map, List.map_map] at hmap
  exact congrArg List.sum hmap

theorem appendedMs_zip_le (notes : List (Int × UInt32)) (answers : List Bool) :
    appendedMs (notes.zip answers) ≤ (notes.map fun note => note.2.toNat).sum := by
  induction notes generalizing answers with
  | nil => exact Nat.zero_le _
  | cons note notes ih =>
    cases answers with
    | nil => exact Nat.zero_le _
    | cons answer answers => exact Nat.add_le_add_left (ih answers) _

theorem appendedMs_le {made hops : List Hop} (hpre : made <+: hops) (answers : List Bool) :
    appendedMs ((made.map Hop.note).zip answers) ≤ (hops.map fun h => h.note.2.toNat).sum := by
  obtain ⟨rest, rfl⟩ := hpre
  calc appendedMs ((made.map Hop.note).zip answers)
    _ ≤ ((made.map Hop.note).map fun note => note.2.toNat).sum := appendedMs_zip_le _ _
    _ = (made.map fun h => h.note.2.toNat).sum := by
      rw [List.map_map]
      rfl
    _ ≤ ((made ++ rest).map fun h => h.note.2.toNat).sum := by
      rw [List.map_append, List.sum_append]
      exact Nat.le_add_right _ _

/-! ## Drift -/

theorem recorded_total (hinfo : info.Supported) (file : ByteFile)
    (samples : Buffer pitchMaxWindowSamples Int16) (detect : List Int16 → PitchDetectionResult)
    {answers : List (Bool × Bool)} (hrun : ∀ a ∈ answers, a = (false, true))
    (hlong : rounds (hopSize info.sampleRate.toNat)
      (WavStream.samples info ⟨file, info.dataSize.toNat⟩).length < answers.length) :
    ∃ melody, hopsOfWav detect info file samples answers = .ok (recordedHops detect info file) ∧
      buildMelodyFromWav detect info file samples answers =
        .ok (some (DeviceResult.ok, melody)) ∧
      appendAll {} (((recordedHops detect info file).map Hop.note).zip (answers.map Prod.snd)) =
        (melody, true) ∧
      appendedMs (((recordedHops detect info file).map Hop.note).zip (answers.map Prod.snd)) =
        totalMs info.sampleRate (hopSize info.sampleRate.toNat)
          (WavStream.samples info ⟨file, info.dataSize.toNat⟩).length := by
  have hsizes := sizes info
  obtain ⟨made, r, melody, hmade, hbuild, happend, -, hend⟩ := hopsOfWav_expected hinfo file samples
    detect (fun a ha => congrArg Prod.fst (hrun a ha)) hlong
  have hok : (appendAll {} ((made.map Hop.note).zip (answers.map Prod.snd))).2 = true := by
    apply appendAll_ok
    intro p hp
    obtain ⟨a, ha, hsnd⟩ := List.mem_map.mp (List.of_mem_zip hp).2
    rw [← hsnd, hrun a ha]
  rw [happend] at hok
  obtain rfl := of_decide_eq_true hok
  rcases hend with ⟨-, rfl⟩ | ⟨hfailed, -⟩
  · refine ⟨melody, hmade, hbuild, happend, ?_⟩
    rw [appendedMs_zip, recordedHops, expectedHops_total hinfo.2.2.2.1 hsizes.hop_pos]
    · exact Nat.le_of_lt (Nat.lt_of_lt_of_le hsizes.hop_lt hsizes.window_le)
    · rw [recordedHops, expectedHops_length]
      exact Nat.le_of_lt hlong
  · exact absurd hfailed (by decide)

/-- Each hop is rounded up to whole milliseconds on its own: the melody is never shorter than the
recording, and longer by what the roundings add up to. -/
theorem recording_drift {bytes : List UInt8}
    (haccepted : wavReadHeader bytes = some (info, (DeviceResult.ok : Int))) :
    ∃ window hop, windowSamples info = .ok window ∧ hopSamples info window = .ok hop ∧
      ∀ (pos : Nat) (samples : Buffer pitchMaxWindowSamples Int16)
        (detect : List Int16 → PitchDetectionResult) (answers : List (Bool × Bool)) (s : WavStream),
        s = ⟨⟨bytes, pos⟩, info.dataSize.toNat⟩ → (∀ a ∈ answers, a = (false, true)) →
        rounds hop (s.decoded info).length < answers.length →
        ∃ made melody, hopsOfWav detect info ⟨bytes, pos⟩ samples answers = .ok made ∧
          buildMelodyFromWav detect info ⟨bytes, pos⟩ samples answers =
            .ok (some (DeviceResult.ok, melody)) ∧
          (NeverWraps {} ((made.map Hop.note).zip (answers.map Prod.snd)) →
            let n := (s.decoded info).length
            let rate := info.sampleRate.toNat
            n * 1000 ≤ melody.totalMs * rate ∧
              melody.totalMs * rate ≤ n * 1000 + rounds hop n * (rate - 1) ∧
              melody.totalMs * rate = n * 1000 + (n / hop * roundingExcess info.sampleRate hop +
                roundingExcess info.sampleRate (n % hop)) ∧
              (melody.totalMs * rate < n * 1000 + rate ↔
                n / hop * roundingExcess info.sampleRate hop +
                  roundingExcess info.sampleRate (n % hop) < rate)) := by
  have hinfo := wavReadHeader_supported haccepted
  have hrate := hinfo.2.2.2.1
  have hsizes := sizes info
  refine ⟨_, _, windowSamples_eq info, hopSamples_eq info, ?_⟩
  rintro pos samples detect answers s rfl hrun hlong
  rw [← WavStream.samples_length] at hlong ⊢
  obtain ⟨melody, hmade, hbuild, happend, htotal⟩ :=
    recorded_total hinfo ⟨bytes, pos⟩ samples detect hrun hlong
  refine ⟨_, melody, hmade, hbuild, ?_⟩
  intro hfits n rate
  have hmul : melody.totalMs * rate =
      n * 1000 + totalExcess info.sampleRate (hopSize info.sampleRate.toNat) n := by
    rw [hfits.total happend, htotal]
    exact totalMs_mul hrate _ n
  have hexcess := totalExcess_le hrate hsizes.hop_pos n
  refine ⟨?_, ?_, hmul, ?_⟩
  · rw [hmul]
    exact Nat.le_add_right _ _
  · rw [hmul]
    exact Nat.add_le_add_left hexcess _
  · rw [hmul, Nat.add_lt_add_iff_left]
    rfl

/-- Three hops at 8000 samples in a second: two of 20 milliseconds, and one of 7.5 that is played for
8. -/
theorem recording_drift_sample :
    ∃ made melody, hopsOfWav (fun _ => ⟨440, 69, true, false⟩)
        (WavFile.silence 8000 380 (by decide)).info (WavFile.silenceStream 8000 380 (by decide)).file
        (fun _ => 0) (List.replicate 4 (false, true)) = .ok made ∧
      buildMelodyFromWav (fun _ => ⟨440, 69, true, false⟩)
        (WavFile.silence 8000 380 (by decide)).info (WavFile.silenceStream 8000 380 (by decide)).file
        (fun _ => 0) (List.replicate 4 (false, true)) = .ok (some (DeviceResult.ok, melody)) ∧
      melody.totalMs * 8000 = 380 * 1000 + 4000 := by
  have hmany : 380 < 2 ^ 31 := by decide
  have hfits : 8000 < 2 ^ 32 := by decide
  have hpos : 0 < 8000 := by decide
  have hdecoded := WavFile.silence_decoded (h := hmany) hfits hpos
  have hlen := WavFile.silence_decoded_length (h := hmany) hfits hpos
  have hsamples := WavFile.silence_samples_length (h := hmany) hfits hpos
  have hrate := WavFile.silence_sampleRate (h := hmany) hfits
  have hrun : ∀ a ∈ List.replicate 4 (false, true), a = (false, true) := by decide
  obtain ⟨window, hop, hwindow, hhop, h⟩ := recording_drift hdecoded
  obtain rfl := Except.ok.inj ((windowSamples_eq _).symm.trans hwindow)
  obtain rfl := Except.ok.inj ((hopSamples_eq _).symm.trans hhop)
  obtain ⟨made, melody, hmade, hbuild, hdrift⟩ :=
    h (WavFile.silence 8000 380 hmany).info.dataOffset.toNat (fun _ => 0)
      (fun _ => ⟨440, 69, true, false⟩) (List.replicate 4 (false, true))
      (WavFile.silenceStream 8000 380 hmany) rfl hrun (by rw [hlen, hrate]; decide)
  obtain ⟨-, hrecorded, -, -, hsum⟩ := recorded_total (wavReadHeader_supported hdecoded)
    (WavFile.silenceStream 8000 380 hmany).file (fun _ => 0) (fun _ => ⟨440, 69, true, false⟩) hrun
    (by rw [hsamples, hrate]; decide)
  obtain rfl := Except.ok.inj (hmade.symm.trans hrecorded)
  rw [hsamples, hrate] at hsum
  obtain ⟨-, -, htotal, -⟩ := hdrift (neverWraps_of_total (hsum ▸ by decide))
  rw [hlen, hrate] at htotal
  exact ⟨_, melody, hmade, hbuild, htotal.trans (by decide)⟩

/-- At 11025 samples in a second a hop takes 20.05 milliseconds and is played for 21: after two hops
the melody is more than a millisecond longer than the recording. -/
theorem roundings_accumulate :
    (WavFile.silence 11025 442 (by decide)).Decoded ∧
      ((WavFile.silenceStream 11025 442 (by decide)).decoded
        (WavFile.silence 11025 442 (by decide)).info).length = 442 ∧
      ∃ made melody, hopsOfWav (fun _ => ⟨440, 69, true, false⟩)
          (WavFile.silence 11025 442 (by decide)).info (WavFile.silenceStream 11025 442 (by decide)).file
          (fun _ => 0) (List.replicate 3 (false, true)) = .ok made ∧
        buildMelodyFromWav (fun _ => ⟨440, 69, true, false⟩)
          (WavFile.silence 11025 442 (by decide)).info (WavFile.silenceStream 11025 442 (by decide)).file
          (fun _ => 0) (List.replicate 3 (false, true)) = .ok (some (DeviceResult.ok, melody)) ∧
        NeverWraps {} ((made.map Hop.note).zip ((List.replicate 3 (false, true)).map Prod.snd)) ∧
        442 * 1000 + 11025 ≤ melody.totalMs * 11025 := by
  have hmany : 442 < 2 ^ 31 := by decide
  have hfits : 11025 < 2 ^ 32 := by decide
  have hpos : 0 < 11025 := by decide
  have hdecoded : (WavFile.silence 11025 442 hmany).Decoded := WavFile.silence_decoded hfits hpos
  have hlen := WavFile.silence_samples_length (h := hmany) hfits hpos
  have hrate := WavFile.silence_sampleRate (h := hmany) hfits
  refine ⟨hdecoded, WavFile.silence_decoded_length hfits hpos, ?_⟩
  have hrun : ∀ a ∈ List.replicate 3 (false, true), a = (false, true) := by decide
  obtain ⟨melody, hmade, hbuild, happend, htotal⟩ :=
    recorded_total (wavReadHeader_supported hdecoded) (WavFile.silenceStream 11025 442 hmany).file
      (fun _ => 0) (fun _ => ⟨440, 69, true, false⟩) hrun (by rw [hlen, hrate]; decide)
  rw [hlen, hrate] at htotal
  have hsum : totalMs (.ofNat 11025) (hopSize (UInt32.ofNat 11025).toNat) 442 = 42 := by decide
  rw [hsum] at htotal
  have hwraps := neverWraps_of_total (htotal ▸ (by decide : 42 < 2 ^ 32))
  refine ⟨_, melody, hmade, hbuild, hwraps, ?_⟩
  rw [hwraps.total happend, htotal]
  decide

/-! ## Sums that wrap -/

/-- No sum wraps, and after each hop the melody is the encoding of the hops so far: a note lasts
exactly as long as those that it stands for. -/
def ExactDurations (hops : List ((Int × UInt32) × Bool)) : Prop :=
  NeverWraps {} hops ∧ ∀ made rest melody, hops = made ++ rest →
    appendAll {} made = (melody, true) → melody.segments = Timeline.encode (segmentsOf made)

theorem NeverWraps.exact {hops : List ((Int × UInt32) × Bool)} (h : NeverWraps {} hops) :
    ExactDurations hops := by
  refine ⟨h, ?_⟩
  rintro made rest melody rfl hall
  exact h.of_append.segments hall

def unvoiced : List Int16 → PitchDetectionResult := fun _ => ⟨0, -1, false, false⟩

theorem pitchTrackerRun_unvoiced {ds : List PitchDetectionResult} (hds : ∀ d ∈ ds, d.voiced = false) :
    ∀ pitch ∈ (pitchTrackerRun pitchTrackerInit ds).2, pitch = 0 := by
  induction ds with
  | nil => exact fun _ h => absurd h List.not_mem_nil
  | cons d ds ih =>
    have hd := hds d List.mem_cons_self
    have hupdate : pitchTrackerUpdate pitchTrackerInit d = (pitchTrackerInit, 0) := by
      rw [pitchTrackerUpdate, hd]
      rfl
    rw [pitchTrackerRun, hupdate]
    intro pitch hpitch
    rcases List.mem_cons.mp hpitch with rfl | hpitch
    · rfl
    · exact ih (fun e he => hds e (List.mem_cons_of_mem _ he)) pitch hpitch

theorem expectedHops_unvoiced (sampleRate : UInt32) (window hop : Nat) (todo : List Int16) :
    ∀ h ∈ expectedHops unvoiced sampleRate window hop pitchTrackerInit todo, h.note.1 = 0 := by
  intro h hh
  obtain ⟨i, hi⟩ := List.mem_iff_getElem?.mp hh
  obtain ⟨heard, note, -, hnote, rfl⟩ := List.getElem?_zipWith_eq_some.mp hi
  refine pitchTrackerRun_unvoiced ?_ _ (List.of_mem_zip (List.mem_iff_getElem?.mpr ⟨i, hnote⟩)).1
  intro d hd
  obtain ⟨heard, -, rfl⟩ := List.mem_map.mp hd
  rfl

theorem NeverWraps.silence_lt {hops : List ((Int × UInt32) × Bool)} {melody : MelodyBuffer}
    (h : NeverWraps {} hops) (hsilent : ∀ p ∈ hops, p.1.1 = 0)
    (hall : appendAll {} hops = (melody, true)) : appendedMs hops < 2 ^ 32 := by
  have hsegments : melody.segments = Timeline.encode (segmentsOf hops) := h.segments hall
  have hzero : ∀ s ∈ segmentsOf hops, s.1 = (0 : Int) := by
    intro s hs
    obtain ⟨p, hp, rfl⟩ := List.mem_map.mp hs
    rw [hopSegment, hsilent p hp]
    rfl
  have hsum := appendedMs_eq hops
  rw [Timeline.expand_encode] at hsum
  rcases Nat.eq_zero_or_pos (appendedMs hops) with hnone | hpos
  · rw [hnone]
    exact Nat.two_pow_pos 32
  · have hone := Timeline.encode_same hzero (hsum ▸ hpos)
    rw [← hsum] at hone
    have hmem : ((0 : Int), appendedMs hops) ∈ melody.segments := by
      rw [hsegments, hone]
      exact List.mem_singleton_self _
    obtain ⟨note, -, hnote⟩ := List.mem_map.mp hmem
    have hduration : note.durationMs.toNat = appendedMs hops := congrArg Prod.snd hnote
    rw [← hduration]
    exact note.durationMs.toNat_lt

theorem silence_wraps (hinfo : info.Supported) (file : ByteFile)
    (samples : Buffer pitchMaxWindowSamples Int16)
    (hlong : 2 ^ 32 ≤ totalMs info.sampleRate (hopSize info.sampleRate.toNat)
      (WavStream.samples info ⟨file, info.dataSize.toNat⟩).length) :
    ∃ answers made, hopsOfWav unvoiced info file samples answers = .ok made ∧
      ¬NeverWraps {} ((made.map Hop.note).zip (answers.map Prod.snd)) := by
  let answers := List.replicate (rounds (hopSize info.sampleRate.toNat)
    (WavStream.samples info ⟨file, info.dataSize.toNat⟩).length + 1) (false, true)
  have hrun : ∀ a ∈ answers, a = (false, true) := fun a ha => List.eq_of_mem_replicate ha
  obtain ⟨melody, hmade, -, happend, htotal⟩ := recorded_total hinfo file samples unvoiced hrun
    (by rw [List.length_replicate]; exact Nat.lt_succ_self _)
  refine ⟨answers, _, hmade, ?_⟩
  intro hwraps
  have hsilent : ∀ p ∈ ((recordedHops unvoiced info file).map Hop.note).zip (answers.map Prod.snd),
      p.1.1 = 0 := by
    intro p hp
    obtain ⟨h, hh, heq⟩ := List.mem_map.mp (List.of_mem_zip hp).1
    rw [← heq]
    exact expectedHops_unvoiced _ _ _ _ h hh
  have hlt := hwraps.silence_lt hsilent happend
  rw [htotal] at hlt
  exact absurd hlt (Nat.not_lt.mpr hlong)

/-- The durations that the loop stores are exact as long as the whole recording, with every hop
rounded up, fits into an `unsigned int`: silence is one note, however long it is. -/
theorem durations_exact_iff {bytes : List UInt8}
    (haccepted : wavReadHeader bytes = some (info, (DeviceResult.ok : Int))) :
    ∃ window hop, windowSamples info = .ok window ∧ hopSamples info window = .ok hop ∧
      ∀ (pos : Nat) (s : WavStream), s = ⟨⟨bytes, pos⟩, info.dataSize.toNat⟩ →
        let n := (s.decoded info).length
        let rate := info.sampleRate.toNat
        ((∀ (samples : Buffer pitchMaxWindowSamples Int16)
            (detect : List Int16 → PitchDetectionResult) (answers : List (Bool × Bool))
            (made : List Hop), hopsOfWav detect info ⟨bytes, pos⟩ samples answers = .ok made →
            ExactDurations ((made.map Hop.note).zip (answers.map Prod.snd))) ↔
          n / hop * ((hop * 1000 + rate - 1) / rate) + (n % hop * 1000 + rate - 1) / rate < 2 ^ 32) := by
  have hinfo := wavReadHeader_supported haccepted
  have hsizes := sizes info
  refine ⟨_, _, windowSamples_eq info, hopSamples_eq info, ?_⟩
  rintro pos s rfl n rate
  have hlen : (WavStream.samples info ⟨⟨bytes, pos⟩, info.dataSize.toNat⟩).length = n :=
    WavStream.samples_length ..
  change _ ↔ totalMs info.sampleRate (hopSize info.sampleRate.toNat) n < 2 ^ 32
  constructor
  · intro hexact
    apply Nat.lt_of_not_le
    intro hlong
    rw [← hlen] at hlong
    -- silence makes one note of the whole recording, whose length wraps around
    obtain ⟨answers, made, hmade, hwraps⟩ := silence_wraps hinfo ⟨bytes, pos⟩ (fun _ => 0) hlong
    exact hwraps (hexact _ _ answers made hmade).1
  · intro hshort samples detect answers made hmade
    obtain ⟨all, hall, hpre⟩ := hopsOfWav_prefix hinfo ⟨bytes, pos⟩ samples detect answers
    obtain rfl : all = made := Except.ok.inj (hall.symm.trans hmade)
    apply NeverWraps.exact
    apply neverWraps_of_total
    apply Nat.lt_of_le_of_lt (appendedMs_le hpre _)
    rw [recordedHops, expectedHops_total hinfo.2.2.2.1 hsizes.hop_pos, hlen]
    · exact hshort
    · exact Nat.le_of_lt (Nat.lt_of_lt_of_le hsizes.hop_lt hsizes.window_le)

/-- Silence in three hops. -/
theorem durations_exact_iff_sample :
    ∃ made, hopsOfWav (fun _ => ⟨440, 69, true, false⟩) (WavFile.silence 11025 500 (by decide)).info
        (WavFile.silenceStream 11025 500 (by decide)).file (fun _ => 0)
        (List.replicate 4 (false, true)) = .ok made ∧ made.length = 3 ∧
      ExactDurations ((made.map Hop.note).zip (List.replicate 4 true)) := by
  have hmany : 500 < 2 ^ 31 := by decide
  have hfits : 11025 < 2 ^ 32 := by decide
  have hpos : 0 < 11025 := by decide
  have hdecoded := WavFile.silence_decoded (h := hmany) hfits hpos
  have hlen := WavFile.silence_decoded_length (h := hmany) hfits hpos
  have hsamples := WavFile.silence_samples_length (h := hmany) hfits hpos
  have hrate := WavFile.silence_sampleRate (h := hmany) hfits
  obtain ⟨window, hop, hwindow, hhop, h⟩ := durations_exact_iff hdecoded
  obtain rfl := Except.ok.inj ((windowSamples_eq _).symm.trans hwindow)
  obtain rfl := Except.ok.inj ((hopSamples_eq _).symm.trans hhop)
  obtain ⟨melody, hmade, -⟩ := recorded_total (wavReadHeader_supported hdecoded)
    (WavFile.silenceStream 11025 500 hmany).file (fun _ => 0) (fun _ => ⟨440, 69, true, false⟩)
    (show ∀ a ∈ List.replicate 4 (false, true), a = (false, true) by decide)
    (by rw [hsamples, hrate]; decide)
  have hexact := (h (WavFile.silence 11025 500 hmany).info.dataOffset.toNat
    (WavFile.silenceStream 11025 500 hmany) rfl).mpr (by rw [hlen, hrate]; decide)
  refine ⟨_, hmade, ?_, hexact _ _ _ _ hmade⟩
  rw [recordedHops, expectedHops_length, hsamples, hrate]
  decide

/-- Almost fifty days of silence at one sample in a second: the one note wraps. -/
theorem duration_wraps :
    (WavFile.silence 1 4294968 (by decide)).Decoded ∧
      ∃ answers made, hopsOfWav unvoiced (WavFile.silence 1 4294968 (by decide)).info
          (WavFile.silenceStream 1 4294968 (by decide)).file (fun _ => 0) answers = .ok made ∧
        ¬NeverWraps {} ((made.map Hop.note).zip (answers.map Prod.snd)) := by
  have hmany : 4294968 < 2 ^ 31 := by decide
  have hfits : 1 < 2 ^ 32 := by decide
  have hdecoded : (WavFile.silence 1 4294968 hmany).Decoded := WavFile.silence_decoded hfits Nat.one_pos
  have hlen := WavFile.silence_samples_length (h := hmany) hfits Nat.one_pos
  have hrate := WavFile.silence_sampleRate (h := hmany) hfits
  refine ⟨hdecoded, silence_wraps (wavReadHeader_supported hdecoded) _ _ ?_⟩
  rw [hlen, hrate]
  decide

end RemoteDevice.Buzzer
