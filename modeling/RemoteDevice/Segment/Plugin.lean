import RemoteDevice.DeviceResult

/-! The seven-segment plugin, one call at a time: the pins it drives and the state it caches. -/

namespace RemoteDevice.Segment

def segmentCount : Nat := 8

inductive Level
  | low
  | high
  deriving DecidableEq

def segmentOnLevel : Level := .high
def segmentOffLevel : Level := .low

def digitPatterns : List (BitVec 8) :=
  [0b01111110, 0b00110000, 0b01101101, 0b01111001, 0b00110011, 0b01011011, 0b01011111, 0b01110000,
    0b01111111, 0b01111011]

/-- The pins in the order of `segment_pins` (G, F, E, D, C, B, A, DP) and the cached state. -/
structure Plugin where
  pins : Fin segmentCount → Level
  segmentEnabled : Bool
  segmentValue : Int

def segmentAllOff : Fin segmentCount → Level := fun _ => segmentOffLevel

def segmentWritePattern (pattern : BitVec 8) : Fin segmentCount → Level :=
  fun i => if pattern.getLsbD i then segmentOffLevel else segmentOnLevel

/-- What `segment_init` leaves on success, and `segment_cleanup` and `segment_clear` always. -/
def segmentClear : Plugin := ⟨segmentAllOff, false, 0⟩

def segmentDisplay (p : Plugin) (value : Int) : Plugin × Int :=
  if value < 0 ∨ value > 9 then (p, DeviceResult.invalidValue)
  else (⟨segmentWritePattern (digitPatterns.getD value.toNat 0), true, value⟩, DeviceResult.ok)

end RemoteDevice.Segment
