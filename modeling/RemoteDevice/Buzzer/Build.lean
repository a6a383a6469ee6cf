import RemoteDevice.Buzzer.Melody
import RemoteDevice.Buzzer.Tracker
import RemoteDevice.Lib.Runs
import RemoteDevice.Wav.Frames

/-! `build_melody_from_wav`: a window slides over the samples of a recording, and each hop adds a
note to the melody. -/

namespace RemoteDevice.Buzzer

open Checked Wav

def pitchWindowMs : Nat := 96
def pitchHopMs : Nat := 20
def pitchMinWindowSamples : Nat := 768
def pitchMinHopSamples : Nat := 128
def pitchMaxWindowSamples : Nat := 4096

def samplesForDuration (sampleRate : UInt32) (durationMs minSamples maxSamples : Nat) :
    Result Nat := do
  let product ← unsigned 64 (sampleRate.toNat * durationMs)
  let sum ← unsigned 64 (product + 999)
  let samples ← div sum 1000
  let samples := if samples < minSamples then minSamples else samples
  pure (if samples > maxSamples then maxSamples else samples)

def samplesToDurationMs (sampleCount : Nat) (sampleRate : UInt32) : Result UInt32 := do
  let product ← unsigned 64 (sampleCount * 1000)
  let sum ← unsigned 64 (product + sampleRate.toNat)
  let sum ← sub sum 1
  let durationMs ← div sum sampleRate.toNat
  pure (.ofNat (if durationMs = 0 then 1 else durationMs))

def readWindowSamples (info : WavInfo) {n : Nat} (samples : Buffer n Int16) (offset capacity : Nat)
    (s : WavStream) : Result (Nat × Buffer n Int16 × WavStream) :=
  if offset ≥ capacity then pure (0, samples, s)
  else
    let frameSize := wavFrameSize info
    if frameSize = 0 then pure (0, samples, s)
    else do
      let availableSamples ← div s.remaining frameSize
      let space ← sub capacity offset
      let requestSamples := min space availableSamples
      if requestSamples = 0 then pure (0, samples, s)
      else wavReadSamples info samples offset requestSamples s

def windowSamples (info : WavInfo) : Result Nat :=
  samplesForDuration info.sampleRate pitchWindowMs pitchMinWindowSamples pitchMaxWindowSamples

def hopSamples (info : WavInfo) (window : Nat) : Result Nat := do
  let hop ← samplesForDuration info.sampleRate pitchHopMs pitchMinHopSamples window
  let hop ← if hop ≥ window then div window 2 else pure hop
  pure (if hop = 0 then 1 else hop)

structure Builder where
  stream : WavStream
  samples : Buffer pitchMaxWindowSamples Int16
  activeSamples : Nat
  tracker : PitchTracker
  melody : MelodyBuffer

def buildStart (info : WavInfo) (file : ByteFile) (samples : Buffer pitchMaxWindowSamples Int16)
    (window : Nat) : Result Builder := do
  let (activeSamples, samples, stream) ←
    readWindowSamples info samples 0 window ⟨file, info.dataSize.toNat⟩
  pure { stream, samples, activeSamples, tracker := pitchTrackerInit, melody := {} }

def shiftWindow {n : Nat} (samples : Buffer n Int16) (playSamples activeSamples : Nat) :
    Result (Nat × Buffer n Int16) :=
  if playSamples < activeSamples then do
    let kept ← sub activeSamples playSamples
    let samples ← samples.moveDown playSamples kept
    pure (kept, samples)
  else pure (0, samples)

inductive BuildStep
  | next (b : Builder)
  | returned (r : Int) (melody : MelodyBuffer)

/-- One round of the loop, with its test. `stopRequested` and `reallocOk` are what the stop request
and the allocator answer in it. -/
def buildRound (detect : List Int16 → PitchDetectionResult) (info : WavInfo) (window hop : Nat)
    (b : Builder) (stopRequested reallocOk : Bool) : Result BuildStep :=
  if b.activeSamples = 0 then pure (.returned DeviceResult.ok b.melody)
  else if stopRequested then pure (.returned DeviceResult.ok b.melody)
  else do
    let heard ← b.samples.take b.activeSamples
    let tracked := pitchTrackerUpdate b.tracker (detect heard)
    let playSamples := min hop b.activeSamples
    let durationMs ← samplesToDurationMs playSamples info.sampleRate
    match melodyBufferAppend b.melody tracked.2 durationMs reallocOk with
    | none => pure (.returned DeviceResult.deviceFailed b.melody)
    | some melody =>
      if b.stream.remaining = 0 ∧ b.activeSamples ≤ playSamples then
        pure (.returned DeviceResult.ok melody)
      else do
        let (kept, samples) ← shiftWindow b.samples playSamples b.activeSamples
        let (samplesRead, samples, stream) ← readWindowSamples info samples kept window b.stream
        pure (.next
          { stream, samples, activeSamples := kept + samplesRead, tracker := tracked.1, melody })

/-- The loop; `none` means that the answers for its rounds are used up. -/
def buildLoop (detect : List Int16 → PitchDetectionResult) (info : WavInfo) (window hop : Nat) :
    List (Bool × Bool) → Builder → Result (Option (Int × MelodyBuffer))
  | [], _ => pure none
  | (stopRequested, reallocOk) :: answers, b => do
    match ← buildRound detect info window hop b stopRequested reallocOk with
    | .next b => buildLoop detect info window hop answers b
    | .returned r melody => pure (some (r, melody))

def buildMelodyFromWav (detect : List Int16 → PitchDetectionResult) (info : WavInfo)
    (file : ByteFile) (samples : Buffer pitchMaxWindowSamples Int16) (answers : List (Bool × Bool)) :
    Result (Option (Int × MelodyBuffer)) := do
  let window ← windowSamples info
  let hop ← hopSamples info window
  let b ← buildStart info file samples window
  buildLoop detect info window hop answers b

/-! ## No fault, and an end -/

theorem samplesForDuration_returns (sampleRate : UInt32) {durationMs minSamples maxSamples : Nat}
    (hms : durationMs ≤ 1000) :
    Returns (samplesForDuration sampleRate durationMs minSamples maxSamples) fun n =>
      n ≤ maxSamples ∧ (minSamples ≤ maxSamples → minSamples ≤ n) := by
  have hrate := sampleRate.toNat_lt
  have hproduct : sampleRate.toNat * durationMs ≤ 2 ^ 32 * 1000 :=
    Nat.mul_le_mul (Nat.le_of_lt hrate) hms
  apply (unsigned_returns (by omega)).bind
  rintro _ rfl
  apply (unsigned_returns (by omega)).bind
  rintro _ rfl
  apply (div_returns (by omega)).bind
  rintro samples -
  refine .pure ⟨?_, ?_⟩
  · split <;> split <;> omega
  · intro hle
    split <;> split <;> omega

theorem samplesToDurationMs_returns {sampleCount : Nat} (hcount : sampleCount ≤ pitchMaxWindowSamples)
    {sampleRate : UInt32} (hrate : sampleRate ≠ 0) :
    Returns (samplesToDurationMs sampleCount sampleRate) fun _ => True := by
  have hlt := sampleRate.toNat_lt
  have hpos : sampleRate.toNat ≠ 0 := fun h => hrate (UInt32.toNat_inj.mp h)
  rw [pitchMaxWindowSamples] at hcount
  apply (unsigned_returns (by omega)).bind
  rintro _ rfl
  apply (unsigned_returns (by omega)).bind
  rintro _ rfl
  apply (sub_returns (by omega)).bind
  rintro _ rfl
  apply (div_returns hpos).bind
  rintro _ rfl
  exact .pure trivial

theorem readWindowSamples_returns {info : WavInfo} (hinfo : info.Supported) {n offset capacity : Nat}
    (hfit : capacity ≤ n) (hoffset : offset ≤ capacity) (samples : Buffer n Int16) (s : WavStream) :
    Returns (readWindowSamples info samples offset capacity s) fun (k, _, t) =>
      offset + k ≤ capacity ∧ k + t.file.rest.length ≤ s.file.rest.length := by
  rw [readWindowSamples]
  split
  · exact .pure ⟨hoffset, (Nat.zero_add _).le⟩
  · simp only [if_neg (frameSize_pos hinfo).ne']
    apply (div_returns (frameSize_pos hinfo).ne').bind
    rintro _ rfl
    apply (sub_returns hoffset).bind
    rintro _ rfl
    split
    · exact .pure ⟨hoffset, (Nat.zero_add _).le⟩
    · apply (wavReadSamples_returns hinfo (by omega) samples s).mono
      rintro ⟨k, -, t⟩ ⟨hk, hrest⟩
      exact ⟨by omega, hrest⟩

structure Sizes (window hop : Nat) : Prop where
  window_le : window ≤ pitchMaxWindowSamples
  hop_pos : 1 ≤ hop
  hop_lt : hop < window

theorem windowSamples_returns (info : WavInfo) :
    Returns (windowSamples info) fun window =>
      window ≤ pitchMaxWindowSamples ∧ pitchMinWindowSamples ≤ window :=
  (samplesForDuration_returns info.sampleRate (by decide)).mono fun _ h => ⟨h.1, h.2 (by decide)⟩

theorem hopSamples_returns (info : WavInfo) {window : Nat} (hwindow : window ≤ pitchMaxWindowSamples)
    (hwindow' : pitchMinWindowSamples ≤ window) :
    Returns (hopSamples info window) (Sizes window) := by
  rw [pitchMinWindowSamples] at hwindow'
  apply (samplesForDuration_returns info.sampleRate (by decide)).bind
  rintro hop ⟨hle, hmin⟩
  have hmin := hmin (by rw [pitchMinHopSamples]; omega)
  rw [pitchMinHopSamples] at hmin
  split
  · apply (div_returns (by omega)).bind
    rintro _ rfl
    exact .pure ⟨hwindow, by split <;> omega, by split <;> omega⟩
  · apply Returns.bind (.pure rfl)
    rintro _ rfl
    exact .pure ⟨hwindow, by split <;> omega, by split <;> omega⟩

def Builder.left (b : Builder) : Nat := b.activeSamples + b.stream.file.rest.length

theorem buildStart_returns {info : WavInfo} (hinfo : info.Supported) (file : ByteFile)
    (samples : Buffer pitchMaxWindowSamples Int16) {window : Nat}
    (hwindow : window ≤ pitchMaxWindowSamples) :
    Returns (buildStart info file samples window) fun b =>
      b.activeSamples ≤ window ∧ b.left ≤ file.rest.length := by
  apply (readWindowSamples_returns hinfo hwindow (Nat.zero_le _) samples _).bind
  rintro ⟨k, samples, t⟩ ⟨hk, hrest⟩
  exact .pure ⟨by rwa [Nat.zero_add] at hk, hrest⟩

theorem shiftWindow_returns {n : Nat} (samples : Buffer n Int16) (playSamples : Nat)
    {activeSamples : Nat} (hactive : activeSamples ≤ n) :
    Returns (shiftWindow samples playSamples activeSamples) fun (kept, _) =>
      kept = activeSamples - playSamples := by
  rw [shiftWindow]
  split
  · next hlt =>
    apply (sub_returns hlt.le).bind
    rintro _ rfl
    apply (Buffer.moveDown_returns samples (by omega)).bind
    intro samples _
    exact .pure rfl
  · exact .pure (by omega)

theorem buildRound_returns (detect : List Int16 → PitchDetectionResult) {info : WavInfo}
    (hinfo : info.Supported) {window hop : Nat} (hsizes : Sizes window hop) {b : Builder}
    (hb : b.activeSamples ≤ window) (stopRequested reallocOk : Bool) :
    Returns (buildRound detect info window hop b stopRequested reallocOk) fun r =>
      ∀ c, r = .next c → c.activeSamples ≤ window ∧ c.left < b.left := by
  obtain ⟨hwindow, hpos, hlt⟩ := hsizes
  rw [buildRound]
  split
  · exact .pure nofun
  next hactive =>
  split
  · exact .pure nofun
  apply (Buffer.take_returns b.samples (hb.trans hwindow)).bind
  rintro heard -
  apply (samplesToDurationMs_returns (by omega) hinfo.2.2.2.1).bind
  rintro durationMs -
  split
  · exact .pure nofun
  next melody _ =>
  split
  · exact .pure nofun
  -- there is a rest: the window moves on by what has been played and is filled up
  apply (shiftWindow_returns b.samples (min hop b.activeSamples) (by omega)).bind
  rintro ⟨kept, samples⟩ rfl
  apply (readWindowSamples_returns hinfo hwindow (by omega) samples b.stream).bind
  rintro ⟨k, samples, t⟩ ⟨hk, hrest⟩
  refine .pure ?_
  rintro _ ⟨⟩
  refine ⟨hk, ?_⟩
  simp only [Builder.left]
  omega

theorem buildLoop_returns (detect : List Int16 → PitchDetectionResult) {info : WavInfo}
    (hinfo : info.Supported) {window hop : Nat} (hsizes : Sizes window hop)
    {answers : List (Bool × Bool)} {b : Builder} (hb : b.activeSamples ≤ window)
    (hleft : b.left < answers.length) :
    Returns (buildLoop detect info window hop answers b) fun r => r.isSome = true := by
  induction answers generalizing b with
  -- every round uses up a byte or a sample, so the answers do not run out
  | nil => exact absurd hleft (Nat.not_lt_zero _)
  | cons answer answers ih =>
    apply (buildRound_returns detect hinfo hsizes hb answer.1 answer.2).bind
    intro r hr
    cases r with
    | next c =>
      obtain ⟨hc, hless⟩ := hr c rfl
      apply ih hc
      rw [List.length_cons] at hleft
      omega
    | returned r melody => exact .pure rfl

def AtHead (detect : List Int16 → PitchDetectionResult) (info : WavInfo) (window hop : Nat)
    (start : Builder) : Builder → Prop :=
  Runs.Reachable (· = start) fun b (answer : Bool × Bool) =>
    match buildRound detect info window hop b answer.1 answer.2 with
    | .ok (.next c) => some c
    | _ => none

theorem AtHead.active_le {detect : List Int16 → PitchDetectionResult} {info : WavInfo}
    (hinfo : info.Supported) {window hop : Nat} (hsizes : Sizes window hop) {start b : Builder}
    (hstart : start.activeSamples ≤ window) (hb : AtHead detect info window hop start b) :
    b.activeSamples ≤ window := by
  refine hb.invariant (fun s hs => hs ▸ hstart) ?_
  intro s answer t hs hstep
  obtain ⟨r, hr, hnext⟩ := buildRound_returns detect hinfo hsizes hs answer.1 answer.2
  rw [hr] at hstep
  cases r with
  | next c => exact Option.some.inj hstep ▸ (hnext c rfl).1
  | returned r melody => cases hstep

/-- Whatever the bytes of the file, its header is read to an end. If it is accepted, the sizes are
as the loop needs them, from any position of the file and any contents of the array, and whatever
the detector, the stop request and the allocator answer, no round runs into a fault, the window
stays within the array, and there are no more rounds than bytes. -/
theorem wav_decoded_safely (bytes : List UInt8) :
    (∃ info r, wavReadHeader bytes = some (info, r)) ∧
      ∀ info, wavReadHeader bytes = some (info, (DeviceResult.ok : Int)) →
        ∀ (pos : Nat) (samples : Buffer pitchMaxWindowSamples Int16)
          (detect : List Int16 → PitchDetectionResult),
          ∃ window hop start, windowSamples info = .ok window ∧ hopSamples info window = .ok hop ∧
            buildStart info ⟨bytes, pos⟩ samples window = .ok start ∧
            (window ≤ pitchMaxWindowSamples ∧ 1 ≤ hop ∧ hop < window) ∧
            (∀ b, AtHead detect info window hop start b → b.activeSamples ≤ window ∧
              ∀ stopRequested reallocOk,
                ∃ r, buildRound detect info window hop b stopRequested reallocOk = .ok r) ∧
            ∀ answers : List (Bool × Bool), bytes.length < answers.length →
              ∃ r, buildMelodyFromWav detect info ⟨bytes, pos⟩ samples answers = .ok (some r) := by
  refine ⟨?_, ?_⟩
  · obtain ⟨⟨info, r⟩, h⟩ := wavReadHeader_total bytes
    exact ⟨info, r, h⟩
  intro info hok pos samples detect
  have hinfo := wavReadHeader_supported hok
  obtain ⟨window, hwindow, hle, hge⟩ := windowSamples_returns info
  obtain ⟨hop, hhop, hsizes⟩ := hopSamples_returns info hle hge
  obtain ⟨start, hstart, hactive, hleft⟩ := buildStart_returns hinfo ⟨bytes, pos⟩ samples hle
  refine ⟨window, hop, start, hwindow, hhop, hstart,
    ⟨hsizes.window_le, hsizes.hop_pos, hsizes.hop_lt⟩, ?_, ?_⟩
  · intro b hb
    have hb := hb.active_le hinfo hsizes hactive
    refine ⟨hb, ?_⟩
    intro stopRequested reallocOk
    obtain ⟨r, hr, -⟩ := buildRound_returns detect hinfo hsizes hb stopRequested reallocOk
    exact ⟨r, hr⟩
  · intro answers hlong
    -- each round uses up a byte or a sample, so the length of the file bounds the rounds
    have hrest : (ByteFile.mk bytes pos).rest.length ≤ bytes.length := by
      rw [ByteFile.rest, List.length_drop]
      exact Nat.sub_le ..
    have hless : start.left < answers.length := by omega
    obtain ⟨r, hr, hsome⟩ := buildLoop_returns detect hinfo hsizes hactive hless
    obtain ⟨r, rfl⟩ := Option.isSome_iff_exists.mp hsome
    refine ⟨r, ?_⟩
    simp only [buildMelodyFromWav, hwindow, hhop, hstart, bind, Except.bind]
    exact hr

/-- Silence in three rounds, heard as a note all the same. -/
theorem wav_decoded_safely_sample : ∃ r,
    buildMelodyFromWav (fun _ => ⟨440, 69, true, false⟩) (WavFile.silence 11025 500 (by decide)).info
      (WavFile.silenceStream 11025 500 (by decide)).file (fun _ => 0)
      (List.replicate ((WavFile.silence 11025 500 (by decide)).encode.length + 1) (false, true)) =
        .ok (some r) := by
  have hmany : 500 < 2 ^ 31 := by decide
  have hfits : 11025 < 2 ^ 32 := by decide
  have hpos : 0 < 11025 := by decide
  have hdecoded := WavFile.silence_decoded (h := hmany) hfits hpos
  obtain ⟨-, h⟩ := wav_decoded_safely (WavFile.silence 11025 500 (by decide)).encode
  obtain ⟨_, _, _, -, -, -, -, -, hend⟩ := h _ hdecoded
    (WavFile.silence 11025 500 (by decide)).info.dataOffset.toNat (fun _ => 0) fun _ => ⟨440, 69, true, false⟩
  have hlong : (WavFile.silence 11025 500 hmany).encode.length <
      (List.replicate ((WavFile.silence 11025 500 hmany).encode.length + 1) (false, true)).length := by
    rw [List.length_replicate]
    exact Nat.lt_succ_self _
  exact hend _ hlong

end RemoteDevice.Buzzer
