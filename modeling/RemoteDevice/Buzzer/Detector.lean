import Mathlib.Analysis.SpecialFunctions.Trigonometric.Basic
import RemoteDevice.Buzzer.Pitch

/-! `pitch_detector.c`: the note of a window of samples. `F` and `D` stand for `float` and `double`;
nothing is assumed of their operations. -/

namespace RemoteDevice.Buzzer.Detector

/-- The conversion from an integer to `float`, and what `<math.h>` has for this type. -/
class CFloat (F : Type) where
  ofInt : Int → F
  cosf : F → F
  powf : F → F → F
  lroundf : F → Int

class CDouble (F : outParam Type) (D : Type) where
  ofInt : Int → D
  sqrt : D → D
  mPi : D
  toFloat : D → F
  ofFloat : F → D

open CFloat CDouble

def detectorMaxSamples : Nat := 4096

structure Detection (F : Type) extends PitchDetectionResult where
  rawFrequencyHz : Int
  confidence : F
  rms : F

variable {F : Type} [Add F] [Sub F] [Mul F] [Div F] [OfScientific F] [LT F] [DecidableLT F] [LE F]
  [DecidableLE F] [CFloat F]

def resetResult : Detection F := ⟨⟨0, -1, false, false⟩, 0, 0.0, 0.0⟩

def clampSampleCount (sampleCount : Nat) : Nat :=
  if sampleCount > detectorMaxSamples then detectorMaxSamples else sampleCount

variable (F) in
def midiNoteToFrequency (midiNote : Int) : F :=
  440.0 * powf 2.0 ((CFloat.ofInt midiNote - CFloat.ofInt 69) / 12.0)

variable (F) in
def midiNoteToFrequencyHz (midiNote : Int) : Int := lroundf (midiNoteToFrequency F midiNote)

variable {D : Type} [Add D] [Sub D] [Mul D] [Div D] [OfScientific D] [LE D] [DecidableLE D] [CDouble F D]

def meanOf (samples : List Int16) : D :=
  samples.foldl (fun mean x => mean + CDouble.ofInt x.toInt) 0.0 / CDouble.ofInt samples.length

variable (D) in
def hann (sampleCount i : Nat) : F :=
  let phase := CFloat.ofInt i / CFloat.ofInt (sampleCount - 1 : Nat)
  0.5 - 0.5 * cosf (2.0 * toFloat (mPi : D) * phase)

structure Sums (F D : Type) where
  processed : List F
  squareSum : D
  windowedEnergy : D

def preprocessSample (mean : D) (sampleCount : Nat) (s : Sums F D) (sample : Int16 × Nat) : Sums F D :=
  let energySample : F := toFloat (CDouble.ofInt sample.1.toInt - mean)
  let centered :=
    if sampleCount > 1 then energySample * hann D sampleCount sample.2 else energySample
  { processed := s.processed ++ [centered]
    squareSum := s.squareSum + ofFloat energySample * ofFloat energySample
    windowedEnergy := s.windowedEnergy + ofFloat centered * ofFloat centered }

def preprocessSamples (samples : List Int16) : List F × D × F :=
  let s : Sums F D :=
    samples.zipIdx.foldl (preprocessSample (meanOf samples) samples.length) ⟨[], 0.0, 0.0⟩
  (s.processed, s.windowedEnergy, toFloat (sqrt (s.squareSum / CDouble.ofInt samples.length)))

def goertzelNext (coefficient : F) (previous : F × F) (sample : F) : F × F :=
  (sample + coefficient * previous.1 - previous.2, previous.1)

def goertzelScore (samples : List F) (sampleRate : UInt32) (frequencyHz : F) (energy : D) : F :=
  let omega := 2.0 * toFloat (mPi : D) * frequencyHz / CFloat.ofInt sampleRate.toNat
  let coefficient := 2.0 * cosf omega
  if energy ≤ 0.0 then 0.0
  else
    let (previous, previous2) := samples.foldl (goertzelNext coefficient) (0.0, 0.0)
    let power := previous2 * previous2 + previous * previous - coefficient * previous * previous2
    if power ≤ 0.0 then 0.0 else power / (toFloat energy * CFloat.ofInt samples.length)

structure Best (F : Type) where
  score : F
  midiNote : Int

def scanNotes (processed : List F) (sampleRate : UInt32) (energy : D) : Nat → Nat → Best F → Best F
  | 0, _, best => best
  | count + 1, midiNote, best =>
    let frequencyHz := midiNoteToFrequency F midiNote
    if CFloat.ofInt sampleRate.toNat * 0.5 ≤ frequencyHz then best
    else
      let score := goertzelScore processed sampleRate frequencyHz energy
      scanNotes processed sampleRate energy count (midiNote + 1)
        (if best.score < score then ⟨score, midiNote⟩ else best)

variable (D) in
def pitchDetectNote (samples : List Int16) (sampleRate : UInt32) : Int × Detection F :=
  if samples.length = 0 ∨ sampleRate = 0 then (0, resetResult)
  else
    let (processed, energy, rms) : List F × D × F :=
      preprocessSamples (samples.take (clampSampleCount samples.length))
    let result : Detection F := { (resetResult : Detection F) with rms }
    if rms < 180.0 ∨ energy ≤ 0.0 then (0, result)
    else
      let best := scanNotes processed sampleRate energy (detectorMaxMidiNote + 1 - detectorMinMidiNote)
        detectorMinMidiNote ⟨0.0, -1⟩
      if best.midiNote < 0 ∨ best.score < 0.035 then (0, { result with confidence := best.score })
      else
        let frequencyHz := midiNoteToFrequencyHz F best.midiNote
        (1, { result with
          midiNote := best.midiNote
          frequencyHz
          rawFrequencyHz := frequencyHz
          confidence := if 1.0 < best.score then 1.0 else best.score
          voiced := true
          fallback := false })

/-! ## Exact numbers -/

/-- `lroundf` rounds away from zero half way between two integers. -/
noncomputable instance : CFloat ℝ where
  ofInt n := n
  cosf := Real.cos
  powf := (· ^ ·)
  lroundf x := if 0 ≤ x then ⌊x + 1 / 2⌋ else ⌈x - 1 / 2⌉

noncomputable instance : CDouble ℝ ℝ where
  ofInt n := n
  sqrt := Real.sqrt
  mPi := Real.pi
  toFloat x := x
  ofFloat x := x

end RemoteDevice.Buzzer.Detector
