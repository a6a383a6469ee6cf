import RemoteDevice.Lib.Checked
import RemoteDevice.Wav.Reader

/-! `wav_read_samples`: the frames of the data chunk, mixed to one channel. -/

namespace RemoteDevice.Wav

open Checked

/-- The file and `remaining_data_size`. -/
structure WavStream where
  file : ByteFile
  remaining : Nat
  deriving DecidableEq

def bytesPerSample (info : WavInfo) : Nat := (info.bitsPerSample / 8).toNat

def readSampleAsI16 (file : ByteFile) (info : WavInfo) : Option Int16 × ByteFile :=
  if info.bitsPerSample = 8 then
    let (bytes, file) := file.fread 1
    if bytes.length ≠ 1 then (none, file)
    else (some (.ofInt (((bytes.getD 0 0).toNat - 128) * 256)), file)
  else if info.bitsPerSample = 16 then
    let (bytes, file) := file.fread 2
    if bytes.length ≠ 2 then (none, file) else (some (readLeU16 bytes).toInt16, file)
  else (none, file)

/-- The loop over the channels of a frame; `none` when the file ends inside the frame. -/
def readChannels (info : WavInfo) : Nat → WavStream → Int → Result (Option Int × WavStream)
  | 0, s, mixed => pure (some mixed, s)
  | channels + 1, s, mixed =>
    match readSampleAsI16 s.file info with
    | (none, file) => pure (none, { s with file })
    | (some sample, file) => do
      let remaining ← sub s.remaining (bytesPerSample info)
      let mixed ← signed 31 (mixed + sample.toInt)
      readChannels info channels ⟨file, remaining⟩ mixed

/-- The loop over the frames, of which `left` still fit the array. -/
def readFrames (info : WavInfo) {n : Nat} (offset : Nat) :
    Nat → Nat → Buffer n Int16 → WavStream → Result (Nat × Buffer n Int16 × WavStream)
  | 0, samplesRead, samples, s => pure (samplesRead, samples, s)
  | left + 1, samplesRead, samples, s =>
    if s.remaining < wavFrameSize info then pure (samplesRead, samples, s)
    else do
      let (mixed, s) ← readChannels info info.channels.toNat s 0
      match mixed with
      | none => pure (samplesRead, samples, s)
      | some mixed =>
        let mixed ← tdiv mixed info.channels.toNat
        let mixed ← signed 15 mixed
        let samples ← samples.write (offset + samplesRead) (.ofInt mixed)
        readFrames info offset left (samplesRead + 1) samples s

/-- `samples + offset` is the array that is passed. -/
def wavReadSamples (info : WavInfo) {n : Nat} (samples : Buffer n Int16) (offset maxSamples : Nat)
    (s : WavStream) : Result (Nat × Buffer n Int16 × WavStream) :=
  if wavFrameSize info = 0 then pure (0, samples, s)
  else readFrames info offset maxSamples 0 samples s

/-! ## A stream never runs into a fault -/

theorem tdiv_bounds {z c lo hi : Int} (hc : 0 < c) (hlo : lo ≤ 0) (hhi : 0 ≤ hi)
    (h : lo * c ≤ z) (h' : z ≤ hi * c) : lo ≤ z.tdiv c ∧ z.tdiv c ≤ hi := by
  rcases Int.le_total 0 z with hz | hz
  · rw [Int.tdiv_eq_ediv_of_nonneg hz]
    exact ⟨hlo.trans (Int.ediv_nonneg hz hc.le), Int.ediv_le_of_le_mul hc h'⟩
  · rw [← Int.neg_neg z, Int.neg_tdiv, Int.tdiv_eq_ediv_of_nonneg (Int.neg_nonneg.mpr hz)]
    have hle : -z / c ≤ -lo := Int.ediv_le_of_le_mul hc (by rw [Int.neg_mul]; omega)
    have hge : 0 ≤ -z / c := Int.ediv_nonneg (Int.neg_nonneg.mpr hz) hc.le
    omega

def decodeSample (info : WavInfo) (bytes : List UInt8) : Int16 :=
  if info.bitsPerSample = 8 then .ofInt (((bytes.getD 0 0).toNat - 128) * 256)
  else (readLeU16 bytes).toInt16

theorem readSampleAsI16_eq {info : WavInfo} (hinfo : info.Supported) (file : ByteFile) :
    readSampleAsI16 file info =
      (if (file.fread (bytesPerSample info)).1.length = bytesPerSample info then
        some (decodeSample info (file.fread (bytesPerSample info)).1) else none,
        (file.fread (bytesPerSample info)).2) := by
  obtain ⟨-, -, -, -, hbits, -⟩ := hinfo
  rcases hbits with h | h
  · have hbytes : bytesPerSample info = 1 := by rw [bytesPerSample, h]; rfl
    rw [readSampleAsI16, if_pos h, hbytes]
    by_cases hread : (file.fread 1).1.length = 1
    · simp [hread, decodeSample, h]
    · simp [hread]
  · have hbytes : bytesPerSample info = 2 := by rw [bytesPerSample, h]; rfl
    have hne : info.bitsPerSample ≠ 8 := by rw [h]; decide
    rw [readSampleAsI16, if_neg hne, if_pos h, hbytes]
    by_cases hread : (file.fread 2).1.length = 2
    · simp [hread, decodeSample, hne]
    · simp [hread]

theorem frameSize_eq {info : WavInfo} (hinfo : info.Supported) :
    wavFrameSize info = info.channels.toNat * bytesPerSample info := by
  obtain ⟨-, hne, -, -, -, hframe, -⟩ := hinfo
  rw [wavFrameSize] at hframe ⊢
  split at hframe
  · exact absurd rfl hframe
  · next h => rw [if_neg h, bytesPerSample]

theorem channels_cases {info : WavInfo} (hinfo : info.Supported) :
    info.channels.toNat = 1 ∨ info.channels.toNat = 2 := by
  obtain ⟨-, hne, hle, -⟩ := hinfo
  have hpos : info.channels.toNat ≠ 0 := fun h => hne (UInt16.toNat_inj.mp h)
  have hle : info.channels.toNat ≤ 2 := UInt16.le_iff_toNat_le.mp hle
  omega

theorem readChannels_returns {info : WavInfo} (hinfo : info.Supported) {s : WavStream}
    {channels k : Nat} {mixed : Int} (hk : k + channels ≤ 2)
    (hs : channels * bytesPerSample info ≤ s.remaining)
    (hmixed : -2 ^ 15 * (k : Int) ≤ mixed ∧ mixed ≤ (2 ^ 15 - 1) * k) :
    Returns (readChannels info channels s mixed) fun (m, t) =>
      t.file.rest.length ≤ s.file.rest.length ∧
        ∀ z, m = some z →
          channels * bytesPerSample info + t.file.rest.length = s.file.rest.length ∧
          -2 ^ 15 * ((k + channels : Nat) : Int) ≤ z ∧ z ≤ (2 ^ 15 - 1) * ((k + channels : Nat) : Int) := by
  -- on the channels of the frame; `k` samples have been added up so far
  induction channels generalizing s k mixed with
  | zero =>
    refine .pure ⟨le_rfl, ?_⟩
    rintro z ⟨⟩
    exact ⟨by omega, hmixed⟩
  | succ channels ih =>
    have hrest := s.file.fread_rest_length (bytesPerSample info)
    rw [readChannels, readSampleAsI16_eq hinfo]
    by_cases hread : (s.file.fread (bytesPerSample info)).1.length = bytesPerSample info
    · rw [if_pos hread]
      rw [Nat.succ_mul] at hs ⊢
      have hlow := (decodeSample info (s.file.fread (bytesPerSample info)).1).le_toInt
      have hhigh := (decodeSample info (s.file.fread (bytesPerSample info)).1).toInt_lt
      apply (sub_returns (by omega)).bind
      rintro _ rfl
      apply (signed_returns (by omega) (by omega)).bind
      rintro _ rfl
      apply (ih (k := k + 1) (by omega) (by simp only; omega) (by push_cast; omega)).mono
      rintro ⟨m, t⟩ ⟨hle, hsome⟩
      refine ⟨by simp only at hle ⊢; omega, ?_⟩
      intro z hz
      obtain ⟨hlen, hz⟩ := hsome z hz
      simp only at hlen
      exact ⟨by omega, by push_cast at hz ⊢; omega⟩
    · rw [if_neg hread]
      exact .pure ⟨by simp only; omega, nofun⟩

theorem frameSize_pos {info : WavInfo} (hinfo : info.Supported) : 0 < wavFrameSize info :=
  Nat.pos_of_ne_zero hinfo.2.2.2.2.2.1

theorem readFrames_returns {info : WavInfo} (hinfo : info.Supported) {n offset left samplesRead : Nat}
    (hfit : offset + samplesRead + left ≤ n) (samples : Buffer n Int16) (s : WavStream) :
    Returns (readFrames info offset left samplesRead samples s) fun (k, _, t) =>
      samplesRead ≤ k ∧ k ≤ samplesRead + left ∧
        k + t.file.rest.length ≤ samplesRead + s.file.rest.length := by
  induction left generalizing samplesRead samples s with
  | zero => exact .pure ⟨le_rfl, le_rfl, le_rfl⟩
  | succ left ih =>
    rw [readFrames]
    split
    · exact .pure ⟨le_rfl, Nat.le_add_right _ _, le_rfl⟩
    · next hmore =>
      have hframe := frameSize_eq hinfo
      have hpos := frameSize_pos hinfo
      have hchannels := channels_cases hinfo
      apply (readChannels_returns hinfo (k := 0) (by omega) (by omega) (by simp)).bind
      rintro ⟨m, t⟩ ⟨hle, hsome⟩
      cases m with
      | none => exact .pure ⟨le_rfl, Nat.le_add_right _ _, by omega⟩
      | some z =>
        obtain ⟨hlen, hlow, hhigh⟩ := hsome z rfl
        rw [Nat.zero_add] at hlow hhigh
        obtain ⟨hlow, hhigh⟩ := tdiv_bounds (by omega) (by omega) (by omega) hlow hhigh
        apply (tdiv_returns (by omega)).bind
        rintro _ rfl
        apply (signed_returns hlow (by omega)).bind
        rintro _ rfl
        apply (Buffer.write_returns samples _ (by omega)).bind
        intro samples' _
        apply (ih (by omega) samples' t).mono
        rintro ⟨k, -, u⟩ ⟨hk, hk', hrest⟩
        simp only at hrest ⊢
        exact ⟨by omega, by omega, by omega⟩

theorem wavReadSamples_returns {info : WavInfo} (hinfo : info.Supported) {n offset maxSamples : Nat}
    (hfit : offset + maxSamples ≤ n) (samples : Buffer n Int16) (s : WavStream) :
    Returns (wavReadSamples info samples offset maxSamples s) fun (k, _, t) =>
      k ≤ maxSamples ∧ k + t.file.rest.length ≤ s.file.rest.length := by
  rw [wavReadSamples, if_neg (frameSize_pos hinfo).ne']
  have hfit : offset + 0 + maxSamples ≤ n := hfit
  apply (readFrames_returns hinfo hfit samples s).mono
  rintro ⟨k, -, t⟩ ⟨-, hk, hrest⟩
  rw [Nat.zero_add] at hk hrest
  exact ⟨hk, hrest⟩

end RemoteDevice.Wav
