import RemoteDevice.Buzzer.Plugin

/-! A plugin function of the buzzer returns: each of its sections brings it nearer to its end, but
for the reading of one more pitch of a music file. -/

namespace RemoteDevice.Buzzer

def notesToGo : List BuzzerNote → Nat
  | [] => 0
  | note :: notes => note.durationMs.toNat + 2 + notesToGo notes

def RunPc.toGo : RunPc → Nat
  | .musicClear => 6
  | .musicSilence => 5
  | .musicOpen => 4
  | .building melody => notesToGo melody.notes + 3
  | .playing notes => notesToGo notes + 2
  | .playDelay durationMs elapsedMs notes => durationMs - elapsedMs + notesToGo notes + 3
  | .beepStart durationMs => durationMs + 3
  | .beepDelay durationMs elapsedMs => durationMs - elapsedMs + 2
  | .onStart | .stopping _ => 1
  | .done _ => 0

def Reading.isHop : Reading → Bool
  | .hop _ _ _ => true
  | _ => false

variable {o o' : Output} {pc pc' : RunPc} {x : Reading} {es : List RunEvent}

theorem runStep_ready (o : Output) (x : Reading) (hpc : ∀ r, pc ≠ .done r) :
    ∃ y, runStep o pc x = some y := by
  cases pc with
  | done r => exact (hpc r rfl).elim
  | musicOpen => simp only [runStep]; split <;> exact ⟨_, rfl⟩
  | building melody =>
    simp only [runStep]
    split
    · split
      · exact ⟨_, rfl⟩
      · split <;> exact ⟨_, rfl⟩
    · exact ⟨_, rfl⟩
  | playing notes =>
    cases notes with
    | nil => exact ⟨_, rfl⟩
    | cons note notes => simp only [runStep]; split <;> exact ⟨_, rfl⟩
  | playDelay durationMs elapsedMs notes | beepDelay durationMs elapsedMs =>
    simp only [runStep]
    split <;> exact ⟨_, rfl⟩
  | musicClear | musicSilence | beepStart | onStart | stopping => exact ⟨_, rfl⟩

theorem delayRound_toGo {durationMs elapsedMs ms : Nat}
    (h : delayRound o durationMs elapsedMs = .slept ms) :
    durationMs - (elapsedMs + ms) < durationMs - elapsedMs := by
  unfold delayRound at h
  split at h
  · split at h <;> cases h
    omega
  · split at h <;> cases h

theorem runStep_toGo (hs : runStep o pc x = some (o', pc', es)) (hx : x.isHop = false) :
    pc'.toGo < pc.toGo := by
  cases pc with
  | musicClear | musicSilence | beepStart | onStart | stopping =>
    cases hs
    simp [RunPc.toGo]
  | musicOpen =>
    simp only [runStep] at hs
    split at hs <;> cases hs
    · simp [RunPc.toGo]
    · decide
  | building melody =>
    cases x <;> cases hx
    all_goals cases hs; exact Nat.lt_succ_self _
  | playing notes =>
    cases notes with
    | nil => cases hs; decide
    | cons note notes =>
      simp only [runStep] at hs
      split at hs <;> cases hs
      · simp only [RunPc.toGo, notesToGo]
        omega
      · simp [RunPc.toGo]
  | playDelay durationMs elapsedMs notes =>
    simp only [runStep] at hs
    split at hs <;> cases hs
    · simp only [RunPc.toGo]
      omega
    · simp [RunPc.toGo]
    · next h =>
      have hlt := delayRound_toGo h
      simp only [RunPc.toGo]
      omega
  | beepDelay durationMs elapsedMs =>
    simp only [runStep] at hs
    split at hs <;> cases hs
    · simp [RunPc.toGo]
    · simp [RunPc.toGo]
    · next h => exact Nat.add_lt_add_right (delayRound_toGo h) 2
  | done r => cases hs

end RemoteDevice.Buzzer
