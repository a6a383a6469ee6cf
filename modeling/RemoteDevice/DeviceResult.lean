import Mathlib.Logic.Function.Defs
import RemoteDevice.Lib.CText

/-! Result codes shared by the device manager, the workers and the plugins. -/

namespace RemoteDevice

inductive DeviceResult
  | ok
  | notInitialized
  | gpioSetupFailed
  | threadFailed
  | invalidValue
  | pluginLoadFailed
  | symbolLoadFailed
  | deviceFailed
  | cancelled
  deriving DecidableEq, Repr

/-- The enumerator's value; C functions return it as a plain `int`. -/
def DeviceResult.code : DeviceResult → Int
  | ok => 0
  | notInitialized => -1
  | gpioSetupFailed => -2
  | threadFailed => -3
  | invalidValue => -4
  | pluginLoadFailed => -5
  | symbolLoadFailed => -6
  | deviceFailed => -7
  | cancelled => -8

instance : Coe DeviceResult Int := ⟨DeviceResult.code⟩

def deviceResultMessage (result : Int) : CText :=
  if result = DeviceResult.ok then CText.ascii "OK"
  else if result = DeviceResult.notInitialized then CText.ascii "NOT_INITIALIZED"
  else if result = DeviceResult.gpioSetupFailed then CText.ascii "GPIO_SETUP_FAILED"
  else if result = DeviceResult.threadFailed then CText.ascii "THREAD_FAILED"
  else if result = DeviceResult.invalidValue then CText.ascii "INVALID_VALUE"
  else if result = DeviceResult.pluginLoadFailed then CText.ascii "PLUGIN_LOAD_FAILED"
  else if result = DeviceResult.symbolLoadFailed then CText.ascii "SYMBOL_LOAD_FAILED"
  else if result = DeviceResult.deviceFailed then CText.ascii "DEVICE_FAILED"
  else if result = DeviceResult.cancelled then CText.ascii "CANCELLED"
  else CText.ascii "UNKNOWN"

end RemoteDevice
