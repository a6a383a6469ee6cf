import RemoteDevice.Buzzer.Melody

/-! The buzzer plugin: its static variables and the functions that the worker runs, at the
granularity of the `buzzer_lock` sections. -/

namespace RemoteDevice.Buzzer

def buzzerDefaultTone : Int := 440

structure Output where
  buzzerState : Bool := false
  stopRequested : Bool := false
  currentToneHz : Int := -1
  deriving DecidableEq

def writeOutputLocked (o : Output) (toneHz : Int) (state : Bool) : Output :=
  { o with currentToneHz := toneHz, buzzerState := state }

def stopOutput (o : Output) (requestStop : Bool) : Output :=
  writeOutputLocked { o with stopRequested := o.stopRequested || requestStop } 0 false

def startOutput (o : Output) (toneHz : Int) : Output :=
  writeOutputLocked { o with stopRequested := false } toneHz (0 < toneHz)

def clearStopRequest (o : Output) : Output := { o with stopRequested := false }

def writeOutputIfRunning (o : Output) (toneHz : Int) : Output × Bool :=
  if o.stopRequested then (writeOutputLocked o 0 false, false)
  else (writeOutputLocked o toneHz (0 < toneHz), true)

def buzzerInit : Output := stopOutput {} false

inductive Delay
  | finished
  | stopped
  | slept (ms : Nat)
  deriving DecidableEq

def delayRound (o : Output) (durationMs elapsedMs : Nat) : Delay :=
  if elapsedMs < durationMs then
    if o.stopRequested then .stopped else .slept (min (durationMs - elapsedMs) 10)
  else if o.stopRequested then .stopped else .finished

/-- Where a plugin function called by the worker stands: `buzzer_music` before its first section
(`musicClear`) up to `playing`, `buzzer_beep`, `buzzer_on`. -/
inductive RunPc
  | musicClear
  | musicSilence
  | musicOpen
  | building (melody : MelodyBuffer)
  | playing (notes : List BuzzerNote)
  | playDelay (durationMs elapsedMs : Nat) (notes : List BuzzerNote)
  | beepStart (durationMs : Nat)
  | beepDelay (durationMs elapsedMs : Nat)
  | onStart
  | stopping (r : Int)
  | done (r : Int)
  deriving DecidableEq

/-- What the file holds where the code reads it: `openFails` is any failure up to `fseek`, `hop`
the next pitch with its duration. -/
inductive Reading
  | opened
  | openFails (r : Int)
  | hop (pitchHz : Int) (durationMs : UInt32) (reallocOk : Bool)
  | endOfData
  deriving DecidableEq

inductive RunEvent
  | tone (hz : Int)
  | delay (ms : Nat)
  deriving DecidableEq

def buzzerMusic (filePath : CText) : RunPc :=
  if filePath = [] then .done DeviceResult.invalidValue else .musicClear

def buzzerBeep (durationMs : Int) : RunPc :=
  if durationMs ≤ 0 ∨ durationMs > 10000 then .done DeviceResult.invalidValue
  else .beepStart durationMs.toNat

def buzzerOn : RunPc := .onStart

/-- The next locked section of the function and what follows it up to the next one. -/
def runStep (o : Output) (pc : RunPc) (x : Reading) : Option (Output × RunPc × List RunEvent) :=
  match pc with
  | .musicClear => some (clearStopRequest o, .musicSilence, [])
  | .musicSilence => some (stopOutput o false, .musicOpen, [.tone 0])
  | .musicOpen =>
    match x with
    | .openFails r => some (o, .done r, [])
    | _ => some (o, .building {}, [])
  | .building melody =>
    match x with
    | .hop pitchHz durationMs reallocOk =>
      -- a stop ends the build with what there is, which is no failure
      if o.stopRequested then some (o, .playing melody.notes, [])
      else
        match melodyBufferAppend melody pitchHz durationMs reallocOk with
        | none => some (o, .stopping DeviceResult.deviceFailed, [])
        | some melody => some (o, .building melody, [])
    | _ => some (o, .playing melody.notes, [])
  | .playing [] => some (o, .stopping DeviceResult.ok, [])
  | .playing (note :: notes) =>
    match writeOutputIfRunning o note.frequencyHz with
    | (o', true) =>
      some (o', .playDelay note.durationMs.toNat 0 notes, [.tone note.frequencyHz])
    | (o', false) => some (o', .stopping DeviceResult.ok, [.tone 0])
  | .playDelay durationMs elapsedMs notes =>
    match delayRound o durationMs elapsedMs with
    | .finished => some (o, .playing notes, [])
    | .stopped => some (o, .stopping DeviceResult.ok, [])
    | .slept ms => some (o, .playDelay durationMs (elapsedMs + ms) notes, [.delay ms])
  | .beepStart durationMs =>
    some (startOutput o buzzerDefaultTone, .beepDelay durationMs 0, [.tone buzzerDefaultTone])
  | .beepDelay durationMs elapsedMs =>
    match delayRound o durationMs elapsedMs with
    | .finished | .stopped => some (o, .stopping DeviceResult.ok, [])
    | .slept ms => some (o, .beepDelay durationMs (elapsedMs + ms), [.delay ms])
  | .onStart =>
    some (startOutput o buzzerDefaultTone, .done DeviceResult.ok, [.tone buzzerDefaultTone])
  | .stopping r => some (stopOutput o false, .done r, [.tone 0])
  | .done _ => none

/-! ## After a stop request -/

def RunPc.unstarted : RunPc → Bool
  | .musicClear | .beepStart _ | .onStart => true
  | _ => false

def Stopped (o : Output) (pc : RunPc) : Prop :=
  pc.unstarted = false ∧ (o.stopRequested = true ∨ ∃ r, pc = .done r)

def RunEvent.quiet : RunEvent → Prop
  | .tone hz => hz ≤ 0
  | .delay _ => False

@[simp] theorem stopOutput_stopRequested (o : Output) (b : Bool) :
    (stopOutput o b).stopRequested = (o.stopRequested || b) := rfl

theorem Stopped.stopOutput {o : Output} {pc : RunPc} (h : Stopped o pc) :
    Stopped (stopOutput o true) pc := ⟨h.1, .inl (by simp)⟩

theorem Stopped.runStep {o o' : Output} {pc pc' : RunPc} {x : Reading} {es : List RunEvent}
    (h : Stopped o pc) (hs : runStep o pc x = some (o', pc', es)) :
    Stopped o' pc' ∧ ∀ e ∈ es, e.quiet := by
  have hstop : o.stopRequested = true := by
    rcases h.2 with hstop | ⟨r, rfl⟩
    · exact hstop
    · cases hs
  have hpc := h.1
  cases pc with
  | musicClear | beepStart _ | onStart => cases hpc
  | done r => cases hs
  | musicSilence | stopping r =>
    cases hs
    exact ⟨⟨rfl, .inl (by simp [hstop])⟩, by simp [RunEvent.quiet]⟩
  | musicOpen =>
    simp only [Buzzer.runStep] at hs
    split at hs <;> cases hs <;> exact ⟨⟨rfl, .inl hstop⟩, nofun⟩
  | building melody =>
    simp only [Buzzer.runStep, hstop, if_true] at hs
    split at hs <;> cases hs <;> exact ⟨⟨rfl, .inl hstop⟩, nofun⟩
  | playing notes =>
    cases notes with
    | nil => cases hs; exact ⟨⟨rfl, .inl hstop⟩, nofun⟩
    | cons note notes =>
      simp only [Buzzer.runStep, writeOutputIfRunning, hstop, if_true] at hs
      cases hs
      exact ⟨⟨rfl, .inl hstop⟩, by simp [RunEvent.quiet]⟩
  | playDelay d el notes | beepDelay d el =>
    simp only [Buzzer.runStep, delayRound, hstop, if_true, ite_self] at hs
    cases hs
    exact ⟨⟨rfl, .inl hstop⟩, nofun⟩

end RemoteDevice.Buzzer
