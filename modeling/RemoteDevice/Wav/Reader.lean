import RemoteDevice.DeviceResult
import RemoteDevice.Lib.ByteFile

/-! `wav_read_header`: the chunk loop over a RIFF file and the checks on the format. -/

namespace RemoteDevice.Wav

structure WavInfo where
  audioFormat : UInt16 := 0
  channels : UInt16 := 0
  sampleRate : UInt32 := 0
  blockAlign : UInt16 := 0
  bitsPerSample : UInt16 := 0
  dataOffset : UInt32 := 0
  dataSize : UInt32 := 0
  deriving DecidableEq

def readLeU16 (bytes : List UInt8) : UInt16 :=
  (bytes.getD 0 0).toUInt16 ||| ((bytes.getD 1 0).toUInt16 <<< 8)

def readLeU32 (bytes : List UInt8) : UInt32 :=
  (bytes.getD 0 0).toUInt32 ||| ((bytes.getD 1 0).toUInt32 <<< 8) |||
    ((bytes.getD 2 0).toUInt32 <<< 16) ||| ((bytes.getD 3 0).toUInt32 <<< 24)

def riffId : List UInt8 := [0x52, 0x49, 0x46, 0x46]
def waveId : List UInt8 := [0x57, 0x41, 0x56, 0x45]
def fmtId : List UInt8 := [0x66, 0x6D, 0x74, 0x20]
def dataId : List UInt8 := [0x64, 0x61, 0x74, 0x61]

def readChunkHeader (file : ByteFile) : Option (List UInt8 × UInt32 × ByteFile) :=
  let (id, file) := file.fread 4
  if id.length ≠ 4 then none
  else
    let (sizeBytes, file) := file.fread 4
    if sizeBytes.length ≠ 4 then none else some (id, readLeU32 sizeBytes, file)

def skipBytes (file : ByteFile) (size : UInt32) : Option ByteFile :=
  match file.fseekCur size.toNat with
  | none => none
  | some file => if size &&& 1 ≠ 0 then file.fseekCur 1 else some file

def wavFrameSize (info : WavInfo) : Nat :=
  if info.channels = 0 ∨ info.bitsPerSample % 8 ≠ 0 then 0
  else info.channels.toNat * (info.bitsPerSample / 8).toNat

def WavInfo.setFormat (info : WavInfo) (fmtHeader : List UInt8) : WavInfo :=
  { info with
    audioFormat := readLeU16 fmtHeader
    channels := readLeU16 (fmtHeader.drop 2)
    sampleRate := readLeU32 (fmtHeader.drop 4)
    blockAlign := readLeU16 (fmtHeader.drop 12)
    bitsPerSample := readLeU16 (fmtHeader.drop 14) }

/-- The body of the `"fmt "` branch; `none` is the early return. -/
def readFmt (file : ByteFile) (info : WavInfo) (subchunkSize : UInt32) :
    WavInfo × Option ByteFile :=
  if subchunkSize < 16 then (info, none)
  else
    let (fmtHeader, file) := file.fread 16
    if fmtHeader.length ≠ 16 then (info, none)
    else
      let info := info.setFormat fmtHeader
      match if subchunkSize > 16 then skipBytes file (subchunkSize - 16) else some file with
      | none => (info, none)
      -- `skip_bytes` has skipped the padding already when the rest of the chunk is odd
      | some file =>
        if subchunkSize &&& 1 ≠ 0 then (info, file.fseekCur 1) else (info, some file)

inductive LoopExit
  | invalid (info : WavInfo)
  | found (info : WavInfo) (foundFmt foundData : Bool)
  deriving DecidableEq

/-- The loop; a round reads eight bytes at least, and `none` means that `fuel` is used up. -/
def readChunks : Nat → ByteFile → WavInfo → Bool → Option LoopExit
  | 0, _, _, _ => none
  | fuel + 1, file, info, foundFmt =>
    match readChunkHeader file with
    | none => some (.found info foundFmt false)
    | some (id, size, file) =>
      if id = fmtId then
        match readFmt file info size with
        | (info, none) => some (.invalid info)
        | (info, some file) => readChunks fuel file info true
      else if id = dataId then
        if !foundFmt then some (.invalid info)
        else some (.found { info with dataOffset := .ofNat file.pos, dataSize := size } foundFmt true)
      else
        match skipBytes file size with
        | none => some (.invalid info)
        | some file => readChunks fuel file info foundFmt

def WavInfo.Supported (info : WavInfo) : Prop :=
  info.audioFormat = 1 ∧ info.channels ≠ 0 ∧ info.channels ≤ 2 ∧ info.sampleRate ≠ 0 ∧
    (info.bitsPerSample = 8 ∨ info.bitsPerSample = 16) ∧ wavFrameSize info ≠ 0 ∧
    info.blockAlign.toNat = wavFrameSize info

instance (info : WavInfo) : Decidable info.Supported := by
  unfold WavInfo.Supported; infer_instance

def finishHeader : LoopExit → WavInfo × Int
  | .invalid info => (info, DeviceResult.invalidValue)
  | .found info foundFmt foundData =>
    if !foundFmt || !foundData then (info, DeviceResult.invalidValue)
    else if info.Supported then (info, DeviceResult.ok)
    else (info, DeviceResult.invalidValue)

/-- The contents of `info` and the returned code, for a file of the given bytes. -/
def wavReadHeader (bytes : List UInt8) : Option (WavInfo × Int) :=
  let (chunkId, file) := (ByteFile.mk bytes 0).fread 4
  let (riffSize, file) := file.fread 4
  let (formatId, file) := file.fread 4
  if chunkId.length ≠ 4 ∨ riffSize.length ≠ 4 ∨ formatId.length ≠ 4 then
    some ({}, DeviceResult.invalidValue)
  else if chunkId ≠ riffId ∨ formatId ≠ waveId then some ({}, DeviceResult.invalidValue)
  else
    (readChunks (bytes.length + 1) file {} false).map finishHeader

end RemoteDevice.Wav
