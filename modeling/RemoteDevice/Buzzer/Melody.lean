import RemoteDevice.DeviceResult

/-! The melody buffer: the notes of a recording, runs of equal pitch merged. -/

namespace RemoteDevice.Buzzer

def melodyInitialCapacity : Nat := 64

structure BuzzerNote where
  frequencyHz : Int
  durationMs : UInt32
  deriving DecidableEq

/-- `count` is the length of `notes`. -/
structure MelodyBuffer where
  notes : List BuzzerNote := []
  capacity : Nat := 0
  deriving DecidableEq

/-- `reallocOk` is what `realloc` answers where it is called. -/
def melodyBufferReserveNext (melody : MelodyBuffer) (reallocOk : Bool) : Option MelodyBuffer :=
  if melody.notes.length < melody.capacity then some melody
  else if reallocOk then
    some { melody with
      capacity := if melody.capacity = 0 then melodyInitialCapacity else melody.capacity * 2 }
  else none

def pushNote (melody : MelodyBuffer) (note : BuzzerNote) (reallocOk : Bool) : Option MelodyBuffer :=
  (melodyBufferReserveNext melody reallocOk).map fun m => { m with notes := m.notes ++ [note] }

def melodyBufferAppend (melody : MelodyBuffer) (frequencyHz : Int) (durationMs : UInt32)
    (reallocOk : Bool) : Option MelodyBuffer :=
  if durationMs = 0 then some melody
  else
    let frequencyHz := if frequencyHz < 0 then 0 else frequencyHz
    match melody.notes.getLast? with
    | some last =>
      if last.frequencyHz = frequencyHz then
        some { melody with
          notes := melody.notes.dropLast ++
            [{ last with durationMs := last.durationMs + durationMs }] }
      else pushNote melody ⟨frequencyHz, durationMs⟩ reallocOk
    | none => pushNote melody ⟨frequencyHz, durationMs⟩ reallocOk

end RemoteDevice.Buzzer
