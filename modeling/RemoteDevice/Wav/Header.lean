import RemoteDevice.Wav.Reader

/-! Well-formed WAV files, and which of them `wav_read_header` decodes. -/

namespace RemoteDevice.Wav

/-! ## Numbers -/

theorem readLeU32_toNat (b₀ b₁ b₂ b₃ : UInt8) (tail : List UInt8) :
    (readLeU32 (b₀ :: b₁ :: b₂ :: b₃ :: tail)).toNat = Bytes.value [b₀, b₁, b₂, b₃] := by
  have h0 := b₀.toNat_lt
  have h1 := b₁.toNat_lt
  have h2 := b₂.toNat_lt
  have h3 := b₃.toNat_lt
  have hor : ∀ a b i : Nat, a < 2 ^ i → a ||| b <<< i = a + b * 2 ^ i := fun a b i ha => by
    rw [Nat.or_comm, ← Nat.shiftLeft_add_eq_or_of_lt ha, Nat.shiftLeft_eq, Nat.add_comm]
  have hmod : ∀ b i : Nat, b * 2 ^ i < 2 ^ 32 → b <<< i % 2 ^ 32 = b <<< i := fun b i hb => by
    rw [Nat.shiftLeft_eq, Nat.mod_eq_of_lt hb]
  simp only [readLeU32, List.getD_cons_zero, List.getD_cons_succ, UInt32.toNat_or,
    UInt32.toNat_shiftLeft, UInt8.toNat_toUInt32, Bytes.value]
  show (b₀.toNat ||| b₁.toNat <<< 8 % 2 ^ 32 ||| b₂.toNat <<< 16 % 2 ^ 32) |||
    b₃.toNat <<< 24 % 2 ^ 32 = _
  rw [hmod _ 8 (by omega), hmod _ 16 (by omega), hmod _ 24 (by omega), hor _ _ 8 (by omega),
    hor _ _ 16 (by omega), hor _ _ 24 (by omega)]
  omega

theorem readLeU32_le {n : Nat} (h : n < 2 ^ 32) : readLeU32 (Bytes.le 4 n) = .ofNat n := by
  apply UInt32.toNat_inj.mp
  have hval : Bytes.value (Bytes.le 4 n) = n := Bytes.value_le (by omega)
  simp only [Bytes.le] at hval ⊢
  rw [readLeU32_toNat, hval, UInt32.toNat_ofNat_of_lt' h]

theorem odd_iff {n : Nat} (h : n < 2 ^ 32) : UInt32.ofNat n &&& 1 ≠ 0 ↔ n % 2 = 1 := by
  have hnat : (UInt32.ofNat n &&& 1).toNat = n % 2 := by
    rw [UInt32.toNat_and, UInt32.toNat_ofNat_of_lt' h]
    exact Nat.and_one_is_mod n
  rw [ne_eq, ← UInt32.toNat_inj, hnat]
  show ¬ n % 2 = 0 ↔ _
  omega

/-! ## Chunks -/

structure Chunk where
  id : List UInt8
  payload : List UInt8
  /-- Written when the payload has odd length. -/
  pad : UInt8
  id_length : id.length = 4
  payload_lt : payload.length < 2 ^ 32

namespace Chunk

def padding (c : Chunk) : List UInt8 := if c.payload.length % 2 = 1 then [c.pad] else []

def body (c : Chunk) : List UInt8 := c.payload ++ c.padding

def encode (c : Chunk) : List UInt8 := c.id ++ Bytes.le 4 c.payload.length ++ c.body

def size (c : Chunk) : UInt32 := .ofNat c.payload.length

theorem encode_length (c : Chunk) : c.encode.length = 8 + c.body.length := by
  simp only [encode, List.length_append, c.id_length, Bytes.le_length]

@[simp] theorem size_toNat (c : Chunk) : c.size.toNat = c.payload.length :=
  UInt32.toNat_ofNat_of_lt' c.payload_lt

theorem body_length (c : Chunk) : c.body.length = c.payload.length + c.payload.length % 2 := by
  simp only [body, padding, List.length_append]
  split <;> simp <;> omega

def EvenFmt (c : Chunk) : Prop := c.id = fmtId → c.payload.length % 2 = 0

end Chunk

theorem readChunkHeader_encode {file : ByteFile} {c : Chunk} {tail : List UInt8}
    (h : file.rest = c.encode ++ tail) :
    readChunkHeader file = some (c.id, c.size, file.advance 8) := by
  have hid : file.rest = c.id ++ (Bytes.le 4 c.payload.length ++ c.body ++ tail) := by
    simp [h, Chunk.encode]
  have hread := ByteFile.fread_append hid
  have hrest := ByteFile.advance_rest_append hid
  rw [c.id_length] at hread hrest
  have hsize : (file.advance 4).rest = Bytes.le 4 c.payload.length ++ (c.body ++ tail) := by
    rw [hrest, List.append_assoc]
  have hread' := ByteFile.fread_append hsize
  rw [Bytes.le_length] at hread'
  simp only [readChunkHeader, hread, c.id_length, hread', Bytes.le_length, ne_eq, not_true_eq_false,
    if_false, ByteFile.advance_advance, readLeU32_le c.payload_lt]
  rfl

theorem skipBytes_eq {file : ByteFile} {size : UInt32} {n : Nat} (hn : size.toNat = n)
    (hpos : file.pos + (n + n % 2) < 2 ^ 63) :
    skipBytes file size = some (file.advance (n + n % 2)) := by
  have hlt : n < 2 ^ 32 := hn ▸ size.toNat_lt
  obtain rfl : size = .ofNat n := by
    rw [← UInt32.toNat_inj, hn, UInt32.toNat_ofNat_of_lt' hlt]
  rw [skipBytes, UInt32.toNat_ofNat_of_lt' hlt, ByteFile.fseekCur_eq (by omega)]
  by_cases hodd : n % 2 = 1
  · simp only [if_pos ((odd_iff hlt).mpr hodd)]
    rw [ByteFile.fseekCur_eq (by simp only [ByteFile.advance_pos]; omega),
      ByteFile.advance_advance, hodd]
  · simp only [if_neg (mt (odd_iff hlt).mp hodd), show n % 2 = 0 by omega, Nat.add_zero]

/-- Reading a `"fmt "` chunk takes its fields from the first 16 bytes of the payload and skips the
rest of the chunk; an odd chunk loses one byte of what follows. -/
theorem readFmt_encode {file : ByteFile} {c : Chunk} {tail : List UInt8} (info : WavInfo)
    (h : file.rest = c.payload ++ tail) (hsize : 16 ≤ c.payload.length)
    (hpos : file.pos + (c.payload.length + 2) < 2 ^ 63) :
    readFmt file info c.size = (info.setFormat (c.payload.take 16),
      some (file.advance (c.payload.length + 2 * (c.payload.length % 2)))) := by
  have hlt := c.payload_lt
  have htake : (c.payload.take 16).length = 16 := by rw [List.length_take]; omega
  have hrest : file.rest = c.payload.take 16 ++ (c.payload.drop 16 ++ tail) := by
    rw [← List.append_assoc, List.take_append_drop, h]
  have hread := ByteFile.fread_append hrest
  rw [htake] at hread
  have hsmall : ¬ c.size < 16 := by
    rw [UInt32.lt_iff_toNat_lt, c.size_toNat]
    exact Nat.not_lt.mpr hsize
  simp only [readFmt, if_neg hsmall, hread, htake, ne_eq, not_true_eq_false, if_false]
  have hskip : (if c.size > 16 then skipBytes (file.advance 16) (c.size - 16)
        else some (file.advance 16)) =
      some (file.advance (c.payload.length + c.payload.length % 2)) := by
    split
    · next hbig =>
      have hsub : (c.size - 16).toNat = c.payload.length - 16 := by
        rw [UInt32.toNat_sub_of_le _ _ (UInt32.le_of_lt hbig), c.size_toNat]
        rfl
      rw [skipBytes_eq hsub (by simp only [ByteFile.advance_pos]; omega), ByteFile.advance_advance]
      congr 2
      omega
    · next hbig =>
      have heq : c.payload.length = 16 := by
        rw [gt_iff_lt, UInt32.lt_iff_toNat_lt, c.size_toNat] at hbig
        exact Nat.le_antisymm (Nat.not_lt.mp hbig) hsize
      rw [heq]
  rw [hskip]
  -- the padding has been skipped with the rest of the chunk, and is skipped again
  have hodd : c.size &&& 1 ≠ 0 ↔ c.payload.length % 2 = 1 := odd_iff hlt
  by_cases hp : c.payload.length % 2 = 1
  · simp only [if_pos (hodd.mpr hp)]
    rw [ByteFile.fseekCur_eq (by simp only [ByteFile.advance_pos]; omega),
      ByteFile.advance_advance, hp]
  · simp only [if_neg (mt hodd.mp hp), show c.payload.length % 2 = 0 by omega]

/-! ## The loop over well-formed chunks -/

def encodeAll (cs : List Chunk) : List UInt8 := cs.flatMap Chunk.encode

def formatAfter (info : WavInfo) (cs : List Chunk) : WavInfo :=
  cs.foldl (fun info c => if c.id = fmtId then info.setFormat (c.payload.take 16) else info) info

theorem Chunk.encode_append (c : Chunk) (tail : List UInt8) :
    c.encode ++ tail = (c.id ++ Bytes.le 4 c.payload.length) ++ (c.body ++ tail) := by
  simp [encode]

theorem advance_header {file : ByteFile} {c : Chunk} {tail : List UInt8}
    (h : file.rest = c.encode ++ tail) : (file.advance 8).rest = c.body ++ tail := by
  rw [c.encode_append] at h
  have hlen : (c.id ++ Bytes.le 4 c.payload.length).length = 8 := by
    rw [List.length_append, c.id_length, Bytes.le_length]
  rw [← hlen, ByteFile.advance_rest_append h]

structure Chunk.Skippable (c : Chunk) : Prop where
  not_data : c.id ≠ dataId
  even : c.EvenFmt
  size : c.id = fmtId → 16 ≤ c.payload.length

theorem readChunks_chunk {file : ByteFile} {c : Chunk} {tail : List UInt8} {fuel : Nat}
    (info : WavInfo) (foundFmt : Bool) (h : file.rest = c.encode ++ tail) (hc : c.Skippable)
    (hpos : file.pos + c.encode.length < 2 ^ 62) :
    readChunks (fuel + 1) file info foundFmt = readChunks fuel (file.advance c.encode.length)
      (formatAfter info [c]) (foundFmt || c.id = fmtId) := by
  have hbody := c.body_length
  have hlen := c.encode_length
  have hrest := advance_header h
  simp only [readChunks, readChunkHeader_encode h, formatAfter, List.foldl_cons, List.foldl_nil]
  by_cases hfmt : c.id = fmtId
  · have heven : c.payload.length % 2 = 0 := hc.even hfmt
    have hpad : c.body = c.payload := by simp [Chunk.body, Chunk.padding, heven]
    rw [hpad] at hrest hlen
    have hfit : (file.advance 8).pos + (c.payload.length + 2) < 2 ^ 63 := by
      simp only [ByteFile.advance_pos]; omega
    rw [if_pos hfmt, readFmt_encode info hrest (hc.size hfmt) hfit]
    simp [hfmt, heven, hlen]
  · have hskip : skipBytes (file.advance 8) c.size = some (file.advance c.encode.length) := by
      rw [skipBytes_eq c.size_toNat (by simp only [ByteFile.advance_pos]; omega),
        ByteFile.advance_advance, hlen, hbody]
    simp [hfmt, hc.not_data, hskip]

theorem readChunks_chunks {file : ByteFile} {cs : List Chunk} {tail : List UInt8} (fuel : Nat)
    (info : WavInfo) (foundFmt : Bool) (h : file.rest = encodeAll cs ++ tail)
    (hcs : ∀ c ∈ cs, c.Skippable) (hpos : file.pos + (encodeAll cs).length < 2 ^ 62) :
    readChunks (fuel + cs.length) file info foundFmt =
      readChunks fuel (file.advance (encodeAll cs).length) (formatAfter info cs)
        (foundFmt || cs.any fun c => c.id = fmtId) := by
  induction cs generalizing file info foundFmt with
  | nil => simp [encodeAll, ByteFile.advance, formatAfter]
  | cons c cs ih =>
    have hcons : encodeAll (c :: cs) = c.encode ++ encodeAll cs := rfl
    rw [hcons, List.length_append] at hpos
    have hfirst : file.rest = c.encode ++ (encodeAll cs ++ tail) := by rw [h, hcons, List.append_assoc]
    have hnext := ByteFile.advance_rest_append hfirst
    rw [List.length_cons, ← Nat.add_assoc, readChunks_chunk info foundFmt hfirst
      (hcs c (List.mem_cons_self ..)) (by omega), ih _ _ hnext
      (fun d hd => hcs d (List.mem_cons_of_mem _ hd)) (by simp only [ByteFile.advance_pos]; omega)]
    rw [ByteFile.advance_advance, hcons, List.length_append, Bool.or_assoc]
    rfl

theorem encodeAll_length (cs : List Chunk) : cs.length ≤ (encodeAll cs).length := by
  induction cs with
  | nil => exact Nat.le_refl _
  | cons c cs ih =>
    have hcons : encodeAll (c :: cs) = c.encode ++ encodeAll cs := rfl
    have := c.encode_length
    simp only [hcons, List.length_append, List.length_cons]
    omega

theorem readChunks_data {file : ByteFile} {c : Chunk} {tail : List UInt8} (fuel : Nat)
    (info : WavInfo) (h : file.rest = c.encode ++ tail) (hc : c.id = dataId) :
    readChunks (fuel + 1) file info true =
      some (.found { info with dataOffset := .ofNat (file.pos + 8), dataSize := c.size } true true) := by
  have hne : dataId ≠ fmtId := by decide
  simp [readChunks, readChunkHeader_encode h, hc, hne]

/-! ## One round of the loop -/

def Further (file file' : ByteFile) : Prop := file'.bytes = file.bytes ∧ file.pos ≤ file'.pos

theorem Further.trans {f g k : ByteFile} (h : Further f g) (h' : Further g k) : Further f k :=
  ⟨h'.1.trans h.1, Nat.le_trans h.2 h'.2⟩

theorem further_fread (f : ByteFile) (n : Nat) : Further f (f.fread n).2 := ⟨rfl, Nat.le_add_right ..⟩

theorem fseekCur_further {f g : ByteFile} {n : Nat} (h : f.fseekCur n = some g) : Further f g := by
  unfold ByteFile.fseekCur at h
  split at h <;> cases h
  exact ⟨rfl, Nat.le_add_right ..⟩

theorem skipBytes_further {f g : ByteFile} {size : UInt32} (h : skipBytes f size = some g) :
    Further f g := by
  unfold skipBytes at h
  split at h
  · cases h
  · next f' hf =>
    have hfirst := fseekCur_further hf
    split at h
    · exact hfirst.trans (fseekCur_further h)
    · cases h; exact hfirst

theorem readFmt_further {f g : ByteFile} {info info' : WavInfo} {size : UInt32}
    (h : readFmt f info size = (info', some g)) : Further f g := by
  have hread := further_fread f 16
  unfold readFmt at h
  split at h
  · cases h
  · simp only at h
    split at h
    · cases h
    · split at h
      · cases h
      · next f' hf =>
        have hskip : Further (f.fread 16).2 f' := by
          split at hf
          · exact skipBytes_further hf
          · cases hf; exact ⟨rfl, Nat.le_refl _⟩
        split at h
        · exact hread.trans (hskip.trans (fseekCur_further (Prod.mk.inj h).2))
        · cases h; exact hread.trans hskip

theorem readChunkHeader_some {f g : ByteFile} {id : List UInt8} {size : UInt32}
    (h : readChunkHeader f = some (id, size, g)) :
    g = f.advance 8 ∧ f.pos + 8 ≤ f.bytes.length := by
  simp only [readChunkHeader] at h
  split at h
  · cases h
  · next hid =>
    split at h <;> cases h
    next hsz =>
    simp only [ByteFile.fread, ByteFile.rest, List.length_take, List.length_drop, not_not] at hid hsz ⊢
    rw [hid] at hsz ⊢
    rw [hsz]
    exact ⟨rfl, by omega⟩

theorem readChunks_round (file : ByteFile) (info : WavInfo) (foundFmt : Bool) :
    (∃ r, (∀ fuel, readChunks (fuel + 1) file info foundFmt = some r) ∧
      ∀ i b, r = .found i b true → i.dataOffset = .ofNat (file.pos + 8) ∧
        file.pos + 8 ≤ file.bytes.length) ∨
    ∃ file' info' b, Further (file.advance 8) file' ∧ file.pos + 8 ≤ file.bytes.length ∧
      ∀ fuel, readChunks (fuel + 1) file info foundFmt = readChunks fuel file' info' b := by
  simp only [readChunks]
  cases hh : readChunkHeader file with
  | none => exact .inl ⟨_, fun _ => rfl, nofun⟩
  | some header =>
    obtain ⟨id, size, g⟩ := header
    obtain ⟨rfl, hlen⟩ := readChunkHeader_some hh
    simp only
    split
    · cases hf : readFmt (file.advance 8) info size with
      | mk info' g =>
        cases g with
        | none => exact .inl ⟨_, fun _ => rfl, nofun⟩
        | some g => exact .inr ⟨g, info', true, readFmt_further hf, hlen, fun _ => rfl⟩
    · split
      · split
        · exact .inl ⟨_, fun _ => rfl, nofun⟩
        · exact .inl ⟨_, fun _ => rfl, by rintro i b ⟨⟩; exact ⟨rfl, hlen⟩⟩
      · cases hs : skipBytes (file.advance 8) size with
        | none => exact .inl ⟨_, fun _ => rfl, nofun⟩
        | some g => exact .inr ⟨g, info, foundFmt, skipBytes_further hs, hlen, fun _ => rfl⟩

theorem readChunks_mono {file : ByteFile} {info : WavInfo} {foundFmt : Bool} {m n : Nat} {r : LoopExit}
    (hmn : m ≤ n) (h : readChunks m file info foundFmt = some r) :
    readChunks n file info foundFmt = some r := by
  induction m generalizing n file info foundFmt with
  | zero => cases h
  | succ m ih =>
    obtain ⟨n, rfl⟩ : ∃ k, n = k + 1 := ⟨n - 1, by omega⟩
    rcases readChunks_round file info foundFmt with ⟨r', hr, -⟩ | ⟨file', info', b, -, -, hr⟩
    · rwa [hr] at h ⊢
    · rw [hr] at h ⊢
      exact ih (by omega) h

theorem readChunks_total {file : ByteFile} {info : WavInfo} {foundFmt : Bool} {fuel : Nat}
    (h : file.bytes.length - file.pos < fuel) : ∃ r, readChunks fuel file info foundFmt = some r := by
  induction fuel generalizing file info foundFmt with
  | zero => omega
  | succ fuel ih =>
    obtain ⟨r, hr, -⟩ | ⟨file', info', b, ⟨hbytes, hpos⟩, hlen, hr⟩ :=
      readChunks_round file info foundFmt
    · exact ⟨r, hr fuel⟩
    · rw [hr]
      apply ih
      rw [ByteFile.advance_pos] at hpos
      have : (file.advance 8).bytes = file.bytes := rfl
      rw [hbytes, this]
      omega

theorem dataOffset_ge {file : ByteFile} {info i : WavInfo} {foundFmt b : Bool} {fuel : Nat}
    (hlt : file.bytes.length < 2 ^ 32)
    (h : readChunks fuel file info foundFmt = some (.found i b true)) :
    file.pos + 8 ≤ i.dataOffset.toNat := by
  induction fuel generalizing file info foundFmt with
  | zero => cases h
  | succ fuel ih =>
    obtain ⟨r, hr, hfound⟩ | ⟨file', info', b', ⟨hbytes, hpos⟩, -, hr⟩ :=
      readChunks_round file info foundFmt
    · rw [hr, Option.some.injEq] at h
      obtain ⟨hoff, hlen⟩ := hfound i b h
      have hval := UInt32.toNat_ofNat_of_lt' (Nat.lt_of_le_of_lt hlen hlt)
      exact hoff ▸ Nat.le_of_eq hval.symm
    · rw [hr] at h
      have := ih (hbytes ▸ hlt) h
      rw [ByteFile.advance_pos] at hpos
      omega

/-! ## Well-formed files -/

/-- A RIFF file with a supported format: `fmt` is the last format chunk before the first data
chunk, and no format chunk before it is shorter than its fields. -/
structure WavFile where
  riffSize : List UInt8
  before : List Chunk
  fmt : Chunk
  between : List Chunk
  data : Chunk
  after : List Chunk
  riffSize_length : riffSize.length = 4
  before_ids : ∀ c ∈ before, c.id ≠ dataId ∧ (c.id = fmtId → 16 ≤ c.payload.length)
  fmt_id : fmt.id = fmtId
  fmt_size : 16 ≤ fmt.payload.length
  between_ids : ∀ c ∈ between, c.id ≠ dataId ∧ c.id ≠ fmtId
  data_id : data.id = dataId

namespace WavFile

variable (w : WavFile)

def header : List UInt8 := riffId ++ w.riffSize ++ waveId

def preamble : List Chunk := w.before ++ w.fmt :: w.between

def encode : List UInt8 :=
  w.header ++ (encodeAll w.preamble ++ (w.data.encode ++ encodeAll w.after))

def format : WavInfo := ({} : WavInfo).setFormat (w.fmt.payload.take 16)

def info : WavInfo :=
  { w.format with
    dataOffset := .ofNat (12 + (encodeAll w.preamble).length + 8)
    dataSize := .ofNat w.data.payload.length }

structure Supported : Prop where
  pcm : w.format.audioFormat = 1
  channels : w.format.channels = 1 ∨ w.format.channels = 2
  rate : w.format.sampleRate ≠ 0
  bits : w.format.bitsPerSample = 8 ∨ w.format.bitsPerSample = 16
  align : w.format.blockAlign.toNat = w.format.channels.toNat * w.format.bitsPerSample.toNat / 8
  length_lt : w.encode.length < 2 ^ 32

def Decoded : Prop := wavReadHeader w.encode = some (w.info, (DeviceResult.ok : Int))

theorem header_length : w.header.length = 12 := by
  simp [header, w.riffSize_length, riffId, waveId]

theorem wavReadHeader_eq : wavReadHeader w.encode =
    (readChunks (w.encode.length + 1) ⟨w.encode, 12⟩ {} false).map finishHeader := by
  have h0 : (ByteFile.mk w.encode 0).rest = riffId ++ (w.riffSize ++ (waveId ++
      (encodeAll w.preamble ++ (w.data.encode ++ encodeAll w.after)))) := by
    simp [ByteFile.rest, encode, header]
  have h1 := ByteFile.advance_rest_append h0
  have h2 := ByteFile.advance_rest_append h1
  have hriff := ByteFile.fread_append h0
  have hsize := ByteFile.fread_append h1
  have hwave := ByteFile.fread_append h2
  simp only [show riffId.length = 4 from rfl, show waveId.length = 4 from rfl, w.riffSize_length]
    at hriff hsize hwave
  simp only [wavReadHeader, hriff, hsize, hwave, w.riffSize_length, show riffId.length = 4 from rfl,
    show waveId.length = 4 from rfl]
  rfl

theorem rest_twelve : (ByteFile.mk w.encode 12).rest =
    encodeAll w.preamble ++ (w.data.encode ++ encodeAll w.after) := by
  have h : ((ByteFile.mk w.encode 0).advance w.header.length).rest = _ :=
    ByteFile.advance_rest_append rfl
  rwa [header_length] at h

def EvenFormats : Prop := ∀ c ∈ w.preamble, c.EvenFmt

theorem preamble_skippable (h : w.EvenFormats) : ∀ c ∈ w.preamble, c.Skippable := by
  intro c hc
  have heven := h c hc
  rcases List.mem_append.mp hc with hb | hb
  · exact ⟨(w.before_ids c hb).1, heven, (w.before_ids c hb).2⟩
  · rcases List.mem_cons.mp hb with rfl | hb
    · exact ⟨by rw [w.fmt_id]; decide, heven, fun _ => w.fmt_size⟩
    · exact ⟨(w.between_ids c hb).1, heven, fun e => ((w.between_ids c hb).2 e).elim⟩

theorem formatAfter_data (info : WavInfo) (cs : List Chunk) :
    (formatAfter info cs).dataOffset = info.dataOffset ∧ (formatAfter info cs).dataSize = info.dataSize := by
  induction cs generalizing info with
  | nil => exact ⟨rfl, rfl⟩
  | cons c cs ih =>
    obtain ⟨hoff, hsize⟩ := ih (formatAfter info [c])
    have hfirst : (formatAfter info [c]).dataOffset = info.dataOffset ∧
        (formatAfter info [c]).dataSize = info.dataSize := by
      simp only [formatAfter, List.foldl_cons, List.foldl_nil]
      split <;> exact ⟨rfl, rfl⟩
    exact ⟨hoff.trans hfirst.1, hsize.trans hfirst.2⟩

theorem formatAfter_preamble : formatAfter {} w.preamble = w.format := by
  have hbetween : ∀ info, formatAfter info w.between = info := by
    intro info
    have hids := w.between_ids
    generalize w.between = cs at hids
    induction cs with
    | nil => rfl
    | cons c cs ih =>
      simp only [formatAfter, List.foldl_cons, (hids c (List.mem_cons_self ..)).2, if_false]
      exact ih fun d hd => hids d (List.mem_cons_of_mem _ hd)
  rw [formatAfter, preamble, List.foldl_append, List.foldl_cons, if_pos w.fmt_id]
  apply (hbetween _).trans
  obtain ⟨hoff, hsize⟩ := formatAfter_data {} w.before
  show (formatAfter {} w.before).setFormat _ = _
  rw [format, WavInfo.setFormat, WavInfo.setFormat, hoff, hsize]

theorem Supported.info {w : WavFile} (h : w.Supported) : w.info.Supported := by
  obtain ⟨hpcm, hch, hrate, hbits, halign, -⟩ := h
  have hinfo : w.info.audioFormat = w.format.audioFormat ∧ w.info.channels = w.format.channels ∧
      w.info.sampleRate = w.format.sampleRate ∧ w.info.bitsPerSample = w.format.bitsPerSample ∧
      w.info.blockAlign = w.format.blockAlign := ⟨rfl, rfl, rfl, rfl, rfl⟩
  obtain ⟨h1, h2, h3, h4, h5⟩ := hinfo
  simp only [WavInfo.Supported, wavFrameSize, h1, h2, h3, h4, h5, halign]
  refine ⟨hpcm, ?_, ?_, hrate, hbits, ?_⟩ <;> rcases hch with hc | hc <;> rcases hbits with hb | hb <;>
    rw [hc] <;> try rw [hb]
  all_goals decide

theorem encode_length : w.encode.length =
    12 + (encodeAll w.preamble).length + w.data.encode.length + (encodeAll w.after).length := by
  simp only [encode, List.length_append, header_length]
  omega

theorem decoded_of_evenFormats (hs : w.Supported) (h : w.EvenFormats) : w.Decoded := by
  have hlen := w.encode_length
  have hlt := hs.length_lt
  have hloop := readChunks_chunks 1 {} false w.rest_twelve (w.preamble_skippable h)
    (by simp only; omega)
  have hany : w.preamble.any (fun c => c.id = fmtId) = true := by
    simp [preamble, w.fmt_id]
  rw [hany, formatAfter_preamble] at hloop
  have hdata := ByteFile.advance_rest_append w.rest_twelve
  rw [Bool.or_true, readChunks_data 0 w.format hdata w.data_id] at hloop
  have hcount : 1 + w.preamble.length ≤ w.encode.length + 1 := by
    have := encodeAll_length w.preamble
    omega
  have hrun := readChunks_mono hcount hloop
  rw [Decoded, wavReadHeader_eq, hrun, Option.map_some]
  exact congrArg some (if_pos hs.info)

theorem finishHeader_ok {r : LoopExit} {info : WavInfo}
    (h : finishHeader r = (info, (DeviceResult.ok : Int))) : r = .found info true true := by
  have hne : (DeviceResult.invalidValue : Int) ≠ DeviceResult.ok := by decide
  cases r with
  | invalid i => exact (hne (Prod.mk.inj h).2).elim
  | found i b d =>
    simp only [finishHeader] at h
    split at h
    · exact (hne (Prod.mk.inj h).2).elim
    · next hbd =>
      split at h
      · cases h; simp_all
      · exact (hne (Prod.mk.inj h).2).elim

/-- Two bytes are skipped behind an odd format chunk, so the header of the data is missed. -/
theorem not_decoded_of_odd (hlt : w.encode.length < 2 ^ 32) (hbefore : ∀ c ∈ w.before, c.EvenFmt)
    (hbetween : w.between = []) (hodd : ¬ w.fmt.EvenFmt) : ¬ w.Decoded := by
  intro hd
  rw [Decoded, wavReadHeader_eq, Option.map_eq_some_iff] at hd
  obtain ⟨r, hr, hfin⟩ := hd
  rw [finishHeader_ok hfin] at hr
  have hpre : w.preamble = w.before ++ [w.fmt] := by rw [preamble, hbetween]
  have hall : encodeAll w.preamble = encodeAll w.before ++ w.fmt.encode := by
    simp [hpre, encodeAll]
  have hlen := w.encode_length
  have hfmt := w.fmt.encode_length
  have hbody := w.fmt.body_length
  have hcount := encodeAll_length w.before
  rw [hall, List.length_append] at hlen
  have hodd' : w.fmt.payload.length % 2 = 1 := by
    simp only [Chunk.EvenFmt, w.fmt_id, true_implies] at hodd
    omega
  have hrest : (ByteFile.mk w.encode 12).rest =
      encodeAll w.before ++ (w.fmt.encode ++ (w.data.encode ++ encodeAll w.after)) := by
    rw [w.rest_twelve, hall, List.append_assoc]
  obtain ⟨fuel, hfuel⟩ : ∃ fuel, w.encode.length + 1 = fuel + 1 + w.before.length :=
    ⟨w.encode.length - w.before.length, by omega⟩
  have hskip : ∀ c ∈ w.before, c.Skippable := fun c hc =>
    ⟨(w.before_ids c hc).1, hbefore c hc, (w.before_ids c hc).2⟩
  rw [hfuel, readChunks_chunks _ {} false hrest hskip (by simp only; omega)] at hr
  -- the round on the odd format chunk
  have hhead := ByteFile.advance_rest_append hrest
  have hpayload := advance_header hhead
  rw [Chunk.body, List.append_assoc] at hpayload
  simp only [readChunks, readChunkHeader_encode hhead, w.fmt_id, if_true] at hr
  rw [readFmt_encode _ hpayload w.fmt_size (by simp only [ByteFile.advance_pos]; omega)] at hr
  have hge := dataOffset_ge (by exact hlt) hr
  simp only [ByteFile.advance_pos] at hge
  have hoff : w.info.dataOffset.toNat = 12 + (encodeAll w.preamble).length + 8 :=
    UInt32.toNat_ofNat_of_lt' (by
      have hdata := w.data.encode_length
      show _ < 2 ^ 32
      rw [hall, List.length_append]
      omega)
  rw [hoff, hall, List.length_append] at hge
  omega

/-- A supported file is decoded when its format chunks before the data have even sizes. Where the
last of them stands right before the data and the earlier ones are even, it is decoded only then. -/
theorem wavReadHeader_decodes {w : WavFile} (hs : w.Supported) :
    (w.EvenFormats → w.Decoded) ∧
    (w.between = [] → (∀ c ∈ w.before, c.EvenFmt) → (w.Decoded ↔ w.EvenFormats)) := by
  refine ⟨w.decoded_of_evenFormats hs, fun hbetween hbefore => ⟨fun hd => ?_, w.decoded_of_evenFormats hs⟩⟩
  have heven : w.fmt.EvenFmt := not_not.mp fun hodd =>
    w.not_decoded_of_odd hs.length_lt hbefore hbetween hodd hd
  intro c hc
  rw [preamble, hbetween] at hc
  rcases List.mem_append.mp hc with hc | hc
  · exact hbefore c hc
  · exact List.mem_singleton.mp hc ▸ heven

def sample (extra : List UInt8) (h : extra.length < 100) : WavFile where
  riffSize := [0, 0, 0, 0]
  before := []
  fmt :=
    { id := fmtId
      payload := [1, 0, 1, 0, 0x40, 0x1F, 0, 0, 0x40, 0x1F, 0, 0, 1, 0, 8, 0] ++ extra
      pad := 0
      id_length := rfl
      payload_lt := by simp only [List.length_append, List.length_cons, List.length_nil]; omega }
  between := []
  data := { id := dataId, payload := [128, 128], pad := 0, id_length := rfl, payload_lt := by decide }
  after := []
  riffSize_length := rfl
  before_ids := nofun
  fmt_id := rfl
  fmt_size := by simp
  between_ids := nofun
  data_id := rfl

/-- The same file with a padded list chunk before the fields, a fact chunk behind them and a list at the
end. -/
def tagged : WavFile :=
  { sample [] (by decide) with
    before := [⟨[0x4C, 0x49, 0x53, 0x54], [1, 2, 3], 0, rfl, by decide⟩]
    between := [⟨[0x66, 0x61, 0x63, 0x74], [2, 0, 0, 0], 0, rfl, by decide⟩]
    after := [⟨[0x4C, 0x49, 0x53, 0x54], [4], 0, rfl, by decide⟩]
    before_ids := by decide
    between_ids := by decide }

theorem wavReadHeader_decodes_sample :
    tagged.Decoded ∧ ¬ (sample [0] (by decide)).Decoded := by
  have hs : tagged.Supported := by
    constructor <;> decide
  have hodd : (sample [0] (by decide)).Supported := by
    constructor <;> decide
  refine ⟨(wavReadHeader_decodes hs).1 ?_, fun hdecoded => ?_⟩
  · show ∀ c ∈ tagged.preamble, c.id = fmtId → c.payload.length % 2 = 0
    decide
  · have heven := ((wavReadHeader_decodes hodd).2 rfl fun c hc => absurd hc List.not_mem_nil).mp hdecoded
    exact absurd (heven _ List.mem_cons_self rfl) (by decide)

/-- One byte behind the fields, and the file is rejected. -/
theorem oddFormat_rejected : (sample [0] (by decide)).Supported ∧
    ¬ (sample [0] (by decide)).Decoded ∧
    (wavReadHeader (sample [0] (by decide)).encode).map Prod.snd = some DeviceResult.invalidValue.code := by
  refine ⟨by constructor <;> decide, ?_, by decide⟩
  rw [Decoded]
  decide

theorem silence_length_lt {n : Nat} (h : n < 2 ^ 31) : (List.replicate n (128 : UInt8)).length < 2 ^ 32 := by
  rw [List.length_replicate]
  omega

/-- So many frames of silence, in 8 bits and one channel. -/
def silence (sampleRate n : Nat) (h : n < 2 ^ 31) : WavFile where
  riffSize := [0, 0, 0, 0]
  before := []
  fmt :=
    { id := fmtId
      payload :=
        [1, 0, 1, 0, .ofNat sampleRate, .ofNat (sampleRate / 256), .ofNat (sampleRate / 256 / 256),
          .ofNat (sampleRate / 256 / 256 / 256), 0, 0, 0, 0, 1, 0, 8, 0]
      pad := 0
      id_length := rfl
      payload_lt := show 16 < 2 ^ 32 by decide }
  between := []
  data :=
    { id := dataId
      payload := List.replicate n 128
      pad := 0
      id_length := rfl
      payload_lt := silence_length_lt h }
  after := []
  riffSize_length := rfl
  before_ids := nofun
  fmt_id := rfl
  fmt_size := by simp
  between_ids := nofun
  data_id := rfl

end WavFile

/-! ## Any file -/

theorem wavReadHeader_total (bytes : List UInt8) : ∃ r, wavReadHeader bytes = some r := by
  unfold wavReadHeader
  simp only
  split
  · exact ⟨_, rfl⟩
  · split
    · exact ⟨_, rfl⟩
    · obtain ⟨r, hr⟩ : ∃ r, readChunks (bytes.length + 1)
          ((((ByteFile.mk bytes 0).fread 4).2.fread 4).2.fread 4).2 {} false = some r :=
        readChunks_total (Nat.lt_succ_of_le (Nat.sub_le ..))
      exact ⟨finishHeader r, congrArg (Option.map finishHeader) hr⟩

theorem wavReadHeader_supported {bytes : List UInt8} {info : WavInfo}
    (h : wavReadHeader bytes = some (info, (DeviceResult.ok : Int))) : info.Supported := by
  have hne : (DeviceResult.invalidValue : Int) ≠ DeviceResult.ok := by decide
  unfold wavReadHeader at h
  simp only at h
  split at h
  · exact (hne (Prod.mk.inj (Option.some.inj h)).2).elim
  · split at h
    · exact (hne (Prod.mk.inj (Option.some.inj h)).2).elim
    · obtain ⟨r, -, hr⟩ := Option.map_eq_some_iff.mp h
      obtain rfl := WavFile.finishHeader_ok hr
      by_contra hinfo
      rw [finishHeader] at hr
      simp only [Bool.not_true, Bool.or_self, Bool.false_eq_true, if_false, if_neg hinfo] at hr
      exact hne (Prod.mk.inj hr).2

end RemoteDevice.Wav
