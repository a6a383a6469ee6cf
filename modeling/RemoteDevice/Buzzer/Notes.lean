import Mathlib.Algebra.Order.Round
import Mathlib.Analysis.SpecialFunctions.Pow.NthRootLemmas
import Mathlib.Analysis.SpecialFunctions.Pow.Real
import Mathlib.Data.Nat.NthRoot.Defs

/-! The frequencies of the equal-tempered notes, rounded to whole hertz. -/

namespace RemoteDevice.Buzzer

def detectorMinMidiNote : Nat := 33
def detectorMaxMidiNote : Nat := 96

/-- `lroundf(440 * powf(2, (midi_note - 69) / 12))` without the errors of `float`: half of the
whole part of the twelfth root of `880 ^ 12 * 2 ^ (midi_note - 69)`, rounded up. -/
def midiNoteToFrequencyHz (midiNote : Nat) : Nat :=
  (Nat.nthRoot 12 (880 ^ 12 * 2 ^ midiNote / 2 ^ 69) + 1) / 2

theorem round_eq_of_pow {x : ℝ} {r n : ℕ} (hx : 0 ≤ x) (hn : n ≠ 0)
    (hlow : (r : ℝ) ^ n ≤ (2 * x) ^ n) (hhigh : (2 * x) ^ n < ((r : ℝ) + 1) ^ n) :
    round x = (((r + 1) / 2 : ℕ) : ℤ) := by
  have hle : (r : ℝ) ≤ 2 * x := (pow_le_pow_iff_left₀ (Nat.cast_nonneg r) (by positivity) hn).mp hlow
  have hlt : 2 * x < (r : ℝ) + 1 :=
    (pow_lt_pow_iff_left₀ (by positivity) (by positivity) hn).mp hhigh
  have hfloor : ⌊2 * x⌋ = (r : ℤ) := Int.floor_eq_iff.mpr ⟨by exact_mod_cast hle, by exact_mod_cast hlt⟩
  rw [round_eq_div, hfloor]
  norm_cast

/-- Twice the frequencies of the notes from `detectorMinMidiNote` on, rounded down. -/
def doubledFrequencies : List Nat :=
  [110, 116, 123, 130, 138, 146, 155, 164, 174, 184, 195, 207, 220, 233, 246, 261, 277, 293, 311,
    329, 349, 369, 391, 415, 440, 466, 493, 523, 554, 587, 622, 659, 698, 739, 783, 830, 880, 932,
    987, 1046, 1108, 1174, 1244, 1318, 1396, 1479, 1567, 1661, 1760, 1864, 1975, 2093, 2217, 2349,
    2489, 2637, 2793, 2959, 3135, 3322, 3520, 3729, 3951, 4186]

theorem doubledFrequencies_root : ∀ m ≤ detectorMaxMidiNote, detectorMinMidiNote ≤ m →
    doubledFrequencies.getD (m - detectorMinMidiNote) 0 ^ 12 * 2 ^ 69 ≤ 880 ^ 12 * 2 ^ m ∧
      880 ^ 12 * 2 ^ m <
        (doubledFrequencies.getD (m - detectorMinMidiNote) 0 + 1) ^ 12 * 2 ^ 69 := by
  decide +kernel

theorem nthRoot_eq {m : Nat} (hm : m ≤ detectorMaxMidiNote) (hm' : detectorMinMidiNote ≤ m) :
    Nat.nthRoot 12 (880 ^ 12 * 2 ^ m / 2 ^ 69) =
      doubledFrequencies.getD (m - detectorMinMidiNote) 0 := by
  obtain ⟨hle, hlt⟩ := doubledFrequencies_root m hm hm'
  have hlow : doubledFrequencies.getD (m - detectorMinMidiNote) 0 ≤
      Nat.nthRoot 12 (880 ^ 12 * 2 ^ m / 2 ^ 69) := by
    rw [Nat.le_nthRoot_iff (by decide), Nat.le_div_iff_mul_le (by positivity)]
    exact hle
  have hhigh : Nat.nthRoot 12 (880 ^ 12 * 2 ^ m / 2 ^ 69) <
      doubledFrequencies.getD (m - detectorMinMidiNote) 0 + 1 := by
    rw [Nat.nthRoot_lt_iff (by decide), Nat.div_lt_iff_lt_mul (by positivity)]
    exact hlt
  exact le_antisymm (Nat.lt_succ_iff.mp hhigh) hlow

theorem midiNoteToFrequencyHz_eq {m : Nat} (hm : m ≤ detectorMaxMidiNote)
    (hm' : detectorMinMidiNote ≤ m) :
    midiNoteToFrequencyHz m = (doubledFrequencies.getD (m - detectorMinMidiNote) 0 + 1) / 2 := by
  rw [midiNoteToFrequencyHz, nthRoot_eq hm hm']

theorem midiNoteToFrequencyHz_eq_round {m : ℕ} (hlow : detectorMinMidiNote ≤ m)
    (hhigh : m ≤ detectorMaxMidiNote) :
    (midiNoteToFrequencyHz m : ℤ) = round (440 * (2 : ℝ) ^ (((m : ℝ) - 69) / 12)) := by
  obtain ⟨hle, hlt⟩ := doubledFrequencies_root m hhigh hlow
  have hpow : (2 * (440 * (2 : ℝ) ^ (((m : ℝ) - 69) / 12))) ^ 12 * 2 ^ 69 = 880 ^ 12 * 2 ^ m := by
    have hroot : ((2 : ℝ) ^ (((m : ℝ) - 69) / 12)) ^ 12 * 2 ^ 69 = 2 ^ m := by
      rw [← Real.rpow_natCast, ← Real.rpow_mul (by norm_num), ← Real.rpow_natCast 2 69,
        ← Real.rpow_add (by norm_num), ← Real.rpow_natCast 2 m]
      congr 1
      push_cast
      ring
    calc (2 * (440 * (2 : ℝ) ^ (((m : ℝ) - 69) / 12))) ^ 12 * 2 ^ 69
        = 880 ^ 12 * (((2 : ℝ) ^ (((m : ℝ) - 69) / 12)) ^ 12 * 2 ^ 69) := by ring
      _ = 880 ^ 12 * 2 ^ m := by rw [hroot]
  rw [midiNoteToFrequencyHz_eq hhigh hlow]
  symm
  refine round_eq_of_pow (n := 12) (by positivity) (by norm_num) ?_ ?_
  · refine le_of_mul_le_mul_right ?_ (show (0 : ℝ) < 2 ^ 69 by positivity)
    rw [hpow]
    exact_mod_cast hle
  · refine lt_of_mul_lt_mul_right ?_ (show (0 : ℝ) ≤ 2 ^ 69 by positivity)
    rw [hpow]
    exact_mod_cast hlt

end RemoteDevice.Buzzer
