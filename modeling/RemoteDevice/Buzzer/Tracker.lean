import Mathlib.Algebra.Group.Int.Defs

/-! The pitch tracker of `buzzer.c`: a stable note, a candidate for the next one, and the hops
since the last note was heard. -/

namespace RemoteDevice.Buzzer

def pitchHoldHops : Nat := 4
def pitchConfirmHops : Nat := 1
def pitchJitterPercent : Int := 8

structure PitchDetectionResult where
  frequencyHz : Int
  midiNote : Int
  voiced : Bool
  fallback : Bool
  deriving DecidableEq

structure PitchTracker where
  stablePitchHz : Int
  stableMidiNote : Int
  pendingPitchHz : Int
  pendingMidiNote : Int
  pendingHops : Nat
  missingHops : Nat
  deriving DecidableEq

/-- The comparison is one of unsigned numbers, as `PITCH_JITTER_PERCENT` is. -/
def pitchesAreClose (pitchHz previousPitchHz : Int) : Bool :=
  if pitchHz ≤ 0 ∨ previousPitchHz ≤ 0 then false
  else
    let difference :=
      if pitchHz > previousPitchHz then pitchHz - previousPitchHz else previousPitchHz - pitchHz
    difference * 100 % 2 ^ 32 ≤ previousPitchHz * pitchJitterPercent % 2 ^ 32

def pitchTrackerInit : PitchTracker := ⟨0, -1, 0, -1, 0, 0⟩

def pitchTrackerClearPending (t : PitchTracker) : PitchTracker :=
  { t with pendingPitchHz := 0, pendingMidiNote := -1, pendingHops := 0 }

def pitchTrackerHoldOrSilence (t : PitchTracker) : PitchTracker × Int :=
  let t := pitchTrackerClearPending t
  if t.stablePitchHz > 0 ∧ t.missingHops < pitchHoldHops then
    ({ t with missingHops := t.missingHops + 1 }, t.stablePitchHz)
  else ({ t with stablePitchHz := 0, stableMidiNote := -1, missingHops := 0 }, 0)

def pitchTrackerPending (t : PitchTracker) (d : PitchDetectionResult) : PitchTracker :=
  if d.midiNote = t.pendingMidiNote then { t with pendingHops := t.pendingHops + 1 }
  else { t with pendingPitchHz := d.frequencyHz, pendingMidiNote := d.midiNote, pendingHops := 1 }

def pitchTrackerUpdate (t : PitchTracker) (d : PitchDetectionResult) : PitchTracker × Int :=
  if !d.voiced ∨ d.frequencyHz ≤ 0 then pitchTrackerHoldOrSilence t
  else if t.stablePitchHz > 0 ∧
      (d.midiNote = t.stableMidiNote ∨ pitchesAreClose d.frequencyHz t.stablePitchHz) then
    (pitchTrackerClearPending { t with missingHops := 0 }, t.stablePitchHz)
  else if d.fallback then pitchTrackerHoldOrSilence t
  else
    let t := pitchTrackerPending t d
    if t.pendingHops ≥ pitchConfirmHops then
      (pitchTrackerClearPending { t with
          stablePitchHz := t.pendingPitchHz, stableMidiNote := t.pendingMidiNote, missingHops := 0 },
        t.pendingPitchHz)
    else (t, t.stablePitchHz)

def pitchTrackerRun (t : PitchTracker) : List PitchDetectionResult → PitchTracker × List Int
  | [] => (t, [])
  | d :: ds =>
    let (t, pitch) := pitchTrackerUpdate t d
    let (t, pitches) := pitchTrackerRun t ds
    (t, pitch :: pitches)

end RemoteDevice.Buzzer
