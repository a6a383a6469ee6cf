import RemoteDevice.Wav.Header
import RemoteDevice.Wav.Samples

/-! The samples of a recording: one for every frame that is complete, whatever the announced size. -/

namespace RemoteDevice.Wav
open Checked

/-- The value of the first sample of the bytes: unsigned around 128 with 8 bits, little-endian and
signed with 16. -/
def pcmValue (info : WavInfo) (bytes : List UInt8) : Int :=
  if info.bitsPerSample = 8 then ((bytes.getD 0 0).toNat - 128) * 256
  else
    let v := Bytes.value [bytes.getD 0 0, bytes.getD 1 0]
    if v < 2 ^ 15 then v else v - 2 ^ 16

def channelSum (info : WavInfo) : Nat → List UInt8 → Int
  | 0, _ => 0
  | channels + 1, bytes =>
    pcmValue info bytes + channelSum info channels (bytes.drop (bytesPerSample info))

def frameValue (info : WavInfo) (bytes : List UInt8) : Int :=
  (channelSum info info.channels.toNat bytes).tdiv info.channels.toNat

namespace WavStream

/-- The frames that are announced and that the file holds to their end. -/
def frameCount (info : WavInfo) (s : WavStream) : Nat :=
  min (s.remaining / wavFrameSize info) (s.file.rest.length / wavFrameSize info)

def decoded (info : WavInfo) (s : WavStream) : List Int :=
  (List.range (s.frameCount info)).map fun k => frameValue info (s.file.rest.drop (k * wavFrameSize info))

def samples (info : WavInfo) (s : WavStream) : List Int16 := (s.decoded info).map .ofInt

def skip (s : WavStream) (n : Nat) : WavStream := ⟨s.file.advance n, s.remaining - n⟩

end WavStream

/-! ## One frame -/

variable {info : WavInfo} {s : WavStream}

theorem readLeU16_toNat (b₀ b₁ : UInt8) : (readLeU16 [b₀, b₁]).toNat = Bytes.value [b₀, b₁] := by
  have h0 := b₀.toNat_lt
  have h1 := b₁.toNat_lt
  have hshift : b₁.toNat <<< 8 % 2 ^ 16 = b₁.toNat <<< 8 := by
    rw [Nat.shiftLeft_eq, Nat.mod_eq_of_lt (by omega)]
  have hor : b₀.toNat ||| b₁.toNat <<< 8 = b₀.toNat + b₁.toNat * 2 ^ 8 := by
    rw [Nat.or_comm, ← Nat.shiftLeft_add_eq_or_of_lt h0, Nat.shiftLeft_eq, Nat.add_comm]
  have hread : (readLeU16 [b₀, b₁]).toNat = b₀.toNat ||| b₁.toNat <<< 8 % 2 ^ 16 := rfl
  rw [hread, hshift, hor, Bytes.value, Bytes.value, Bytes.value]
  omega

theorem toInt_toInt16 (v : UInt16) :
    v.toInt16.toInt = if v.toNat < 2 ^ 15 then (v.toNat : Int) else v.toNat - 2 ^ 16 := by
  have hlt := v.toNat_lt
  have hdef : v.toInt16.toInt = if 2 * v.toNat < 2 ^ 16 then (v.toNat : Int) else v.toNat - (2 ^ 16 : Nat) :=
    rfl
  rw [hdef]
  split_ifs <;> omega

theorem decodeSample_toInt (hinfo : info.Supported) {bytes : List UInt8}
    (hlen : bytesPerSample info ≤ bytes.length) :
    (decodeSample info (bytes.take (bytesPerSample info))).toInt = pcmValue info bytes := by
  obtain ⟨-, -, -, -, hbits, -⟩ := hinfo
  rcases hbits with h | h
  · have hbytes : bytesPerSample info = 1 := by rw [bytesPerSample, h]; rfl
    have hlt := (bytes.getD 0 0).toNat_lt
    rw [hbytes] at hlen ⊢
    obtain ⟨b, rest, rfl⟩ := List.exists_cons_of_length_pos hlen
    rw [decodeSample, if_pos h, pcmValue, if_pos h]
    exact Int16.toInt_ofInt_of_le (by simp at hlt ⊢; omega) (by simp at hlt ⊢; omega)
  · have hbytes : bytesPerSample info = 2 := by rw [bytesPerSample, h]; rfl
    have hne : info.bitsPerSample ≠ 8 := by rw [h]; decide
    rw [hbytes] at hlen ⊢
    obtain ⟨b₀, rest, rfl⟩ := List.exists_cons_of_length_pos (Nat.lt_of_lt_of_le Nat.zero_lt_two hlen)
    obtain ⟨b₁, rest, rfl⟩ := List.exists_cons_of_length_pos (Nat.lt_of_succ_lt_succ hlen)
    have htake : (b₀ :: b₁ :: rest).take 2 = [b₀, b₁] := rfl
    rw [htake, decodeSample, if_neg hne, pcmValue, if_neg hne, toInt_toInt16, readLeU16_toNat]
    rfl

theorem pcmValue_bounds (info : WavInfo) (bytes : List UInt8) :
    -2 ^ 15 ≤ pcmValue info bytes ∧ pcmValue info bytes < 2 ^ 15 := by
  have h0 := (bytes.getD 0 0).toNat_lt
  have h1 := (bytes.getD 1 0).toNat_lt
  rw [pcmValue]
  split_ifs with h
  · omega
  · simp only [Bytes.value]
    split_ifs <;> omega

theorem channelSum_bounds (info : WavInfo) (channels : Nat) (bytes : List UInt8) :
    -2 ^ 15 * (channels : Int) ≤ channelSum info channels bytes ∧
      channelSum info channels bytes ≤ (2 ^ 15 - 1) * channels := by
  induction channels generalizing bytes with
  | zero => simp [channelSum]
  | succ channels ih =>
    have hfirst := pcmValue_bounds info bytes
    have hrest := ih (bytes.drop (bytesPerSample info))
    rw [channelSum]
    push_cast
    omega

theorem frameValue_bounds (hinfo : info.Supported) (bytes : List UInt8) :
    -2 ^ 15 ≤ frameValue info bytes ∧ frameValue info bytes < 2 ^ 15 := by
  have hchannels := channels_cases hinfo
  obtain ⟨hlow, hhigh⟩ := channelSum_bounds info info.channels.toNat bytes
  obtain ⟨hlow, hhigh⟩ := tdiv_bounds (by omega) (by omega) (by omega) hlow hhigh
  exact ⟨hlow, by rw [frameValue]; omega⟩

theorem fread_whole {file : ByteFile} {n : Nat} (h : n ≤ file.rest.length) :
    file.fread n = (file.rest.take n, file.advance n) := by
  rw [ByteFile.fread, List.length_take, Nat.min_eq_left h]
  rfl

theorem fread_short {file : ByteFile} {n : Nat} (h : file.rest.length < n) :
    (file.fread n).1.length ≠ n ∧ (file.fread n).2.rest = [] := by
  have hall : file.rest.take n = file.rest := List.take_of_length_le h.le
  have hadvance : (file.fread n).2 = file.advance file.rest.length := by
    rw [ByteFile.fread, hall]
    rfl
  refine ⟨?_, ?_⟩
  · rw [ByteFile.fread, hall]
    exact h.ne
  · rw [hadvance, ByteFile.advance_rest, List.drop_length]

theorem WavStream.skip_rest (s : WavStream) (n : Nat) :
    (s.skip n).file.rest = s.file.rest.drop n := ByteFile.advance_rest s.file n

theorem WavStream.skip_skip (s : WavStream) (m n : Nat) : (s.skip m).skip n = s.skip (m + n) := by
  rw [skip, skip, skip, ByteFile.advance_advance, Nat.sub_sub]

theorem readChannels_step (hinfo : info.Supported) {channels : Nat} {mixed : Int}
    (hs : bytesPerSample info ≤ s.remaining) (hfile : bytesPerSample info ≤ s.file.rest.length)
    (hmixed : -2 ^ 16 ≤ mixed ∧ mixed ≤ 2 ^ 16) :
    readChannels info (channels + 1) s mixed =
      readChannels info channels (s.skip (bytesPerSample info))
        (mixed + pcmValue info s.file.rest) := by
  have hvalue := pcmValue_bounds info s.file.rest
  have hlen : (s.file.rest.take (bytesPerSample info)).length = bytesPerSample info := by
    rw [List.length_take, Nat.min_eq_left hfile]
  have hsub : sub s.remaining (bytesPerSample info) = .ok (s.remaining - bytesPerSample info) :=
    if_pos hs
  have hsum : signed 31 (mixed + pcmValue info s.file.rest) =
      .ok (mixed + pcmValue info s.file.rest) := if_pos (by omega)
  rw [readChannels, readSampleAsI16_eq hinfo, fread_whole hfile, hlen, if_pos rfl]
  simp only [decodeSample_toInt hinfo hfile, hsub, hsum]
  rfl

theorem readChannels_whole (hinfo : info.Supported) (channels k : Nat) {mixed : Int}
    (hk : k + channels ≤ 2) (hs : channels * bytesPerSample info ≤ s.remaining)
    (hfile : channels * bytesPerSample info ≤ s.file.rest.length)
    (hmixed : -2 ^ 15 * (k : Int) ≤ mixed ∧ mixed ≤ (2 ^ 15 - 1) * k) :
    readChannels info channels s mixed =
      .ok (some (mixed + channelSum info channels s.file.rest),
        s.skip (channels * bytesPerSample info)) := by
  induction channels generalizing s k mixed with
  | zero =>
    rw [channelSum, Int.add_zero, Nat.zero_mul]
    rfl
  | succ channels ih =>
    rw [Nat.succ_mul] at hs hfile
    have hvalue := pcmValue_bounds info s.file.rest
    have hrest : (s.skip (bytesPerSample info)).file.rest.length =
        s.file.rest.length - bytesPerSample info := by
      rw [WavStream.skip_rest, List.length_drop]
    rw [readChannels_step hinfo (by omega) (by omega) (by omega),
      ih (k + 1) (by omega) (by simp only [WavStream.skip]; omega) (by omega)
        (by push_cast; omega),
      WavStream.skip_rest, WavStream.skip_skip, channelSum, Int.add_assoc, Nat.succ_mul,
      Nat.add_comm (channels * _)]

theorem readChannels_short (hinfo : info.Supported) (channels k : Nat) {mixed : Int}
    (hk : k + channels ≤ 2) (hs : channels * bytesPerSample info ≤ s.remaining)
    (hfile : s.file.rest.length < channels * bytesPerSample info)
    (hmixed : -2 ^ 15 * (k : Int) ≤ mixed ∧ mixed ≤ (2 ^ 15 - 1) * k) :
    ∃ t, readChannels info channels s mixed = .ok (none, t) ∧ t.file.rest = [] := by
  induction channels generalizing s k mixed with
  | zero =>
    rw [Nat.zero_mul] at hfile
    exact absurd hfile (Nat.not_lt_zero _)
  | succ channels ih =>
    rw [Nat.succ_mul] at hs hfile
    rcases Nat.lt_or_ge s.file.rest.length (bytesPerSample info) with hlt | hone
    · obtain ⟨hne, hend⟩ := fread_short hlt
      rw [readChannels, readSampleAsI16_eq hinfo, if_neg hne]
      exact ⟨_, rfl, hend⟩
    · have hvalue := pcmValue_bounds info s.file.rest
      have hrest : (s.skip (bytesPerSample info)).file.rest.length =
          s.file.rest.length - bytesPerSample info := by
        rw [WavStream.skip_rest, List.length_drop]
      rw [readChannels_step hinfo (by omega) hone (by omega)]
      exact ih (k + 1) (by omega) (by simp only [WavStream.skip]; omega) (by omega)
        (by push_cast; omega)

/-! ## The frames of a stream -/

namespace WavStream

theorem decoded_step (hinfo : info.Supported) (hs : wavFrameSize info ≤ s.remaining)
    (hfile : wavFrameSize info ≤ s.file.rest.length) :
    s.decoded info =
      frameValue info s.file.rest :: (s.skip (wavFrameSize info)).decoded info := by
  have hpos := frameSize_pos hinfo
  have hcount : s.frameCount info = (s.skip (wavFrameSize info)).frameCount info + 1 := by
    rw [frameCount, frameCount, skip_rest, List.length_drop, ← Nat.add_min_add_right,
      ← Nat.add_div_right _ hpos, ← Nat.add_div_right _ hpos, Nat.sub_add_cancel hfile]
    simp only [skip, Nat.sub_add_cancel hs]
  rw [decoded, decoded, hcount, List.range_succ_eq_map, List.map_cons, List.map_map, Nat.zero_mul,
    List.drop_zero]
  congr 1
  apply List.map_congr_left
  intro k _
  simp only [Function.comp_apply, skip_rest, List.drop_drop, Nat.succ_mul, Nat.add_comm]

theorem decoded_end (h : s.remaining < wavFrameSize info ∨ s.file.rest.length < wavFrameSize info) :
    s.decoded info = [] := by
  have hcount : s.frameCount info = 0 := by
    rw [frameCount]
    rcases h with h | h
    · rw [Nat.div_eq_of_lt h, Nat.zero_min]
    · rw [Nat.div_eq_of_lt h, Nat.min_zero]
  rw [decoded, hcount]
  rfl

theorem samples_length (info : WavInfo) (s : WavStream) :
    (s.samples info).length = (s.decoded info).length := List.length_map ..

theorem decoded_length (info : WavInfo) (s : WavStream) :
    (s.decoded info).length = s.frameCount info := by
  rw [decoded, List.length_map, List.length_range]

theorem samples_toInt (hinfo : info.Supported) (s : WavStream) :
    (s.samples info).map Int16.toInt = s.decoded info := by
  have hfits : ∀ v ∈ s.decoded info, Int16.toInt (.ofInt v) = v := by
    intro v hv
    obtain ⟨k, -, rfl⟩ := List.mem_map.mp hv
    obtain ⟨hlow, hhigh⟩ := frameValue_bounds hinfo (s.file.rest.drop (k * wavFrameSize info))
    exact Int16.toInt_ofInt_of_le hlow hhigh
  rw [samples, List.map_map]
  exact (List.map_congr_left hfits).trans (List.map_id _)

theorem samples_step (hinfo : info.Supported) (hs : wavFrameSize info ≤ s.remaining)
    (hfile : wavFrameSize info ≤ s.file.rest.length) :
    s.samples info =
      .ofInt (frameValue info s.file.rest) :: (s.skip (wavFrameSize info)).samples info := by
  rw [samples, decoded_step hinfo hs hfile]
  rfl

theorem samples_end (h : s.remaining < wavFrameSize info ∨ s.file.rest.length < wavFrameSize info) :
    s.samples info = [] := by
  rw [samples, decoded_end h]
  rfl

end WavStream

/-! ## Reading into an array -/

theorem readFrames_samples (hinfo : info.Supported) {n offset left samplesRead : Nat}
    {a : Buffer n Int16} {front : List Int16} (ha : a.Starts front)
    (hfront : front.length = offset + samplesRead) (hfit : front.length + left ≤ n) :
    Returns (readFrames info offset left samplesRead a s) fun (k, b, t) =>
      k = samplesRead + min left (s.samples info).length ∧
        b.Starts (front ++ (s.samples info).take left) ∧
        t.samples info = (s.samples info).drop left := by
  have hframe := frameSize_eq hinfo
  have hchannels := channels_cases hinfo
  have hle : info.channels.toNat ≤ 2 := by omega
  have hzero : -2 ^ 15 * ((0 : Nat) : Int) ≤ 0 ∧ (0 : Int) ≤ (2 ^ 15 - 1) * ((0 : Nat) : Int) := by simp
  induction left generalizing s samplesRead a front with
  | zero =>
    refine .pure ⟨?_, ?_, rfl⟩
    · rw [Nat.zero_min, Nat.add_zero]
    · rwa [List.take_zero, List.append_nil]
  | succ left ih =>
    rw [readFrames]
    by_cases hmore : s.remaining < wavFrameSize info
    · rw [if_pos hmore, WavStream.samples_end (.inl hmore)]
      refine .pure ⟨?_, ?_, ?_⟩
      · rw [List.length_nil, Nat.min_zero, Nat.add_zero]
      · rwa [List.take_nil, List.append_nil]
      · rw [WavStream.samples_end (.inl hmore), List.drop_nil]
    rw [if_neg hmore]
    rcases Nat.lt_or_ge s.file.rest.length (wavFrameSize info) with hshort | hwhole
    -- the file ends inside the frame: nothing of it is stored, and nothing more will be read
    · obtain ⟨t, ht, hend⟩ := readChannels_short (s := s) hinfo info.channels.toNat 0 (Nat.zero_add _ ▸ hle)
        (by omega) (by omega) hzero
      rw [ht, WavStream.samples_end (.inr hshort)]
      refine .pure ⟨?_, ?_, ?_⟩
      · rw [List.length_nil, Nat.min_zero, Nat.add_zero]
      · rwa [List.take_nil, List.append_nil]
      · rw [List.drop_nil]
        refine WavStream.samples_end (.inr ?_)
        rw [hend]
        exact frameSize_pos hinfo
    · have hread := readChannels_whole (s := s) hinfo info.channels.toNat 0
        (Nat.zero_add _ ▸ hle) (by omega) (by omega) hzero
      rw [Int.zero_add, ← hframe] at hread
      have hne : (info.channels.toNat : Int) ≠ 0 := by omega
      have hdiv : tdiv (channelSum info info.channels.toNat s.file.rest) info.channels.toNat =
          .ok (frameValue info s.file.rest) := if_neg hne
      have hvalue := frameValue_bounds hinfo s.file.rest
      have hsigned : signed 15 (frameValue info s.file.rest) = .ok (frameValue info s.file.rest) :=
        if_pos hvalue
      obtain ⟨b, hb, hstarts⟩ := ha.write (.ofInt (frameValue info s.file.rest)) (by omega)
      rw [hfront] at hb
      have hlen : (front ++ [Int16.ofInt (frameValue info s.file.rest)]).length =
          front.length + 1 := List.length_append
      simp only [hread, bind, Except.bind, hdiv, hsigned, hb]
      apply (ih hstarts (by omega) (by omega)).mono
      rintro ⟨k, c, t⟩ ⟨hk, hc, ht⟩
      rw [WavStream.samples_step hinfo (Nat.not_lt.mp hmore) hwhole]
      refine ⟨?_, ?_, ?_⟩
      · rw [List.length_cons]
        omega
      · rwa [List.take_succ_cons, List.append_cons]
      · rwa [List.drop_succ_cons]

/-! ## Recordings of silence -/

namespace WavFile

theorem rest_data (w : WavFile) (hlt : w.encode.length < 2 ^ 32) :
    (ByteFile.mk w.encode w.info.dataOffset.toNat).rest = w.data.body ++ encodeAll w.after := by
  have hlen := w.encode_length
  have hdata := w.data.encode_length
  have hoffset : w.info.dataOffset.toNat = 12 + (encodeAll w.preamble).length + 8 :=
    UInt32.toNat_ofNat_of_lt' (Nat.lt_of_le_of_lt (by omega) hlt)
  have hhead := ByteFile.advance_rest_append w.rest_twelve
  have hbody := advance_header hhead
  rw [ByteFile.advance_advance] at hbody
  rw [hoffset, Nat.add_assoc]
  exact hbody

variable {sampleRate n : Nat} {h : n < 2 ^ 31}

theorem silence_sampleRate (hrate : sampleRate < 2 ^ 32) :
    (silence sampleRate n h).info.sampleRate = .ofNat sampleRate := readLeU32_le hrate

theorem silence_fmt_length : (silence sampleRate n h).fmt.payload.length = 16 := by simp [silence]

theorem silence_channels : (silence sampleRate n h).info.channels = 1 := by
  change (1 : UInt8).toUInt16 ||| ((0 : UInt8).toUInt16 <<< 8) = 1
  rfl

theorem silence_blockAlign : (silence sampleRate n h).info.blockAlign = 1 := by
  change readLeU16 [1, 0, 8, 0] = 1
  rfl

theorem silence_bits : (silence sampleRate n h).info.bitsPerSample = 8 := by
  change readLeU16 [8, 0] = 8
  rfl

theorem silence_length : (silence sampleRate n h).encode.length = 44 + n + n % 2 := by
  have hpayload : (silence sampleRate n h).data.payload.length = n := List.length_replicate
  have hpreamble : (encodeAll (silence sampleRate n h).preamble).length = 24 := by
    change ((silence sampleRate n h).fmt.encode ++ []).length = 24
    rw [List.append_nil, Chunk.encode_length, Chunk.body_length, silence_fmt_length]
  have hafter : (encodeAll (silence sampleRate n h).after).length = 0 := rfl
  rw [encode_length, hpreamble, hafter, Chunk.encode_length, Chunk.body_length, hpayload]
  omega

theorem silence_supported (hrate : sampleRate < 2 ^ 32) (hpos : 0 < sampleRate) :
    (silence sampleRate n h).Supported where
  pcm := by
    change (1 : UInt8).toUInt16 ||| ((0 : UInt8).toUInt16 <<< 8) = 1
    rfl
  channels := .inl silence_channels
  rate := by
    have heq : (silence sampleRate n h).format.sampleRate = .ofNat sampleRate := readLeU32_le hrate
    rw [heq]
    intro hzero
    have hnat := congrArg UInt32.toNat hzero
    rw [UInt32.toNat_ofNat_of_lt' hrate] at hnat
    exact absurd hnat hpos.ne'
  bits := .inl silence_bits
  align := by
    change (silence sampleRate n h).info.blockAlign.toNat =
      (silence sampleRate n h).info.channels.toNat * (silence sampleRate n h).info.bitsPerSample.toNat / 8
    rw [silence_channels, silence_bits, silence_blockAlign]
    rfl
  length_lt := by
    rw [silence_length]
    omega

theorem silence_decoded (hrate : sampleRate < 2 ^ 32) (hpos : 0 < sampleRate) :
    (silence sampleRate n h).Decoded := by
  apply (silence sampleRate n h).decoded_of_evenFormats (silence_supported hrate hpos)
  intro c hc
  obtain rfl := List.mem_singleton.mp hc
  intro _
  rw [silence_fmt_length]

def silenceStream (sampleRate n : Nat) (h : n < 2 ^ 31) : WavStream :=
  ⟨⟨(silence sampleRate n h).encode, (silence sampleRate n h).info.dataOffset.toNat⟩,
    (silence sampleRate n h).info.dataSize.toNat⟩

theorem silence_decoded_length (hrate : sampleRate < 2 ^ 32) (hpos : 0 < sampleRate) :
    ((silenceStream sampleRate n h).decoded (silence sampleRate n h).info).length = n := by
  have hrest := (silence sampleRate n h).rest_data (silence_supported hrate hpos).length_lt
  have hlen : (silenceStream sampleRate n h).file.rest.length = n + n % 2 := by
    have hpayload : (silence sampleRate n h).data.payload.length = n := List.length_replicate
    rw [silenceStream, hrest, List.length_append, Chunk.body_length, hpayload]
    rfl
  have hsize : (silenceStream sampleRate n h).remaining = n := by
    have hpayload : (silence sampleRate n h).info.dataSize = .ofNat n :=
      congrArg UInt32.ofNat List.length_replicate
    rw [silenceStream, hpayload]
    exact UInt32.toNat_ofNat_of_lt' (Nat.lt_trans h (by decide))
  have hframe : wavFrameSize (silence sampleRate n h).info = 1 := by
    rw [wavFrameSize, silence_channels, silence_bits]
    rfl
  rw [WavStream.decoded_length, WavStream.frameCount, hframe, hlen, hsize, Nat.div_one, Nat.div_one]
  omega

theorem silence_samples_length (hrate : sampleRate < 2 ^ 32) (hpos : 0 < sampleRate) :
    (WavStream.samples (silence sampleRate n h).info
      ⟨(silenceStream sampleRate n h).file, (silence sampleRate n h).info.dataSize.toNat⟩).length = n := by
  rw [WavStream.samples_length]
  exact silence_decoded_length hrate hpos

end WavFile

end RemoteDevice.Wav
