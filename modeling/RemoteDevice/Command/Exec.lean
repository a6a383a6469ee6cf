import RemoteDevice.Command.Parse
import RemoteDevice.DeviceResult

/-! `exec_command`: a command line is executed on the devices and replaced by its reply. -/

namespace RemoteDevice
open CText

def bufferSize : Nat := 1024

structure DeviceStatus where
  initialized : Bool
  ledOn : Bool
  buzzerOn : Bool
  lightValue : Int
  segmentEnabled : Bool
  segmentValue : Int
  deriving DecidableEq

structure PluginStatus where
  ledLoaded : Bool
  buzzerLoaded : Bool
  lightLoaded : Bool
  segmentLoaded : Bool
  deriving DecidableEq

/-- The functions of the device manager that a command can call. `deviceLightRead` returns its
result code and what it leaves in `light_value`. -/
structure DeviceApi (σ : Type) where
  deviceGetStatus : StateM σ DeviceStatus
  pluginGetStatus : StateM σ PluginStatus
  deviceLedOn : StateM σ Int
  deviceLedOnBright : Int → StateM σ Int
  deviceLedOff : StateM σ Int
  deviceBuzzerMusic : CText → StateM σ Int
  deviceBuzzerOn : StateM σ Int
  deviceBuzzerOff : StateM σ Int
  deviceBuzzerBeep : Int → StateM σ Int
  deviceLightRead : StateM σ (Int × Int)
  deviceSegmentDisplay : Int → StateM σ Int
  deviceSegmentClear : StateM σ Int

def snprintf (text : CText) : CText := text.take (bufferSize - 1)

def writeDeviceError (result : Int) : CText :=
  snprintf (ascii "ERR DEVICE_ERROR " ++ deviceResultMessage result ++ ascii "\n")

def respond (result : Int) (text : CText) : CText :=
  if result = DeviceResult.ok then snprintf text else writeDeviceError result

def onOff (b : Bool) : CText := if b then ascii "ON" else ascii "OFF"

def loaded (b : Bool) : CText := if b then ascii "LOADED" else ascii "MISSING"

def statusText (status : DeviceStatus) : CText :=
  ascii "DATA STATUS INIT=" ++ onOff status.initialized ++ ascii " LED=" ++ onOff status.ledOn ++
  ascii " BUZZER=" ++ onOff status.buzzerOn ++ ascii " LIGHT=" ++ decimal status.lightValue ++
  ascii " SEG=" ++ onOff status.segmentEnabled ++ ascii " SEG_VALUE=" ++
  decimal status.segmentValue ++ ascii "\n"

def pluginsText (status : PluginStatus) : CText :=
  ascii "DATA PLUGINS LED=" ++ loaded status.ledLoaded ++ ascii " BUZZER=" ++
  loaded status.buzzerLoaded ++ ascii " LIGHT=" ++ loaded status.lightLoaded ++
  ascii " SEGMENT=" ++ loaded status.segmentLoaded ++ ascii "\n"

def helpText : CText := ascii
  "OK COMMANDS: HELP, STATUS, PLUGIN LIST, LED ON|BRIGHT <0-255>|OFF, BUZZER ON|OFF|BEEP <ms>|MUSIC <file>, LIGHT READ, SEG DISPLAY <0-9>|CLEAR, QUIT\n"

variable {σ : Type} (api : DeviceApi σ)

/-- `LIGHT READ` switches the lamp as well: on when the sensor reads 0, off when it reads 1. -/
def execLightRead : StateM σ CText := do
  let (result, lightValue) ← api.deviceLightRead
  if result = DeviceResult.ok then
    let result ←
      if lightValue = 0 then api.deviceLedOn
      else if lightValue = 1 then api.deviceLedOff
      else pure result
    return respond result (ascii "DATA LIGHT " ++ decimal lightValue ++ ascii " LED=" ++
      onOff (lightValue = 0) ++ ascii "\n")
  else return writeDeviceError result

def execParsed (command : ParsedCommand) : StateM σ CText :=
  match command.type with
  | .help => return snprintf helpText
  | .status => do return snprintf (statusText (← api.deviceGetStatus))
  | .pluginList => do return snprintf (pluginsText (← api.pluginGetStatus))
  | .quit => return snprintf (ascii "OK QUIT\n")
  | .ledOn => do return respond (← api.deviceLedOn) (ascii "OK LED ON\n")
  | .ledOnBright => do
    return respond (← api.deviceLedOnBright command.value)
      (ascii "OK LED BRIGHT " ++ decimal command.value ++ ascii "\n")
  | .ledOff => do return respond (← api.deviceLedOff) (ascii "OK LED OFF\n")
  | .buzzerMusic => do
    return respond (← api.deviceBuzzerMusic command.str) (ascii "OK BUZZER MUSIC\n")
  | .buzzerOn => do return respond (← api.deviceBuzzerOn) (ascii "OK BUZZER ON\n")
  | .buzzerOff => do return respond (← api.deviceBuzzerOff) (ascii "OK BUZZER OFF\n")
  | .buzzerBeep => do
    return respond (← api.deviceBuzzerBeep command.value)
      (ascii "OK BUZZER BEEP " ++ decimal command.value ++ ascii "\n")
  | .lightRead => execLightRead api
  | .segDisplay => do
    return respond (← api.deviceSegmentDisplay command.value)
      (ascii "OK SEG DISPLAY " ++ decimal command.value ++ ascii "\n")
  | .segClear => do return respond (← api.deviceSegmentClear) (ascii "OK SEG CLEAR\n")
  | .empty => return snprintf (ascii "ERR EMPTY_COMMAND\n")
  | .invalidValue => return snprintf (ascii "ERR INVALID_VALUE\n")
  | .invalid => return snprintf (ascii "ERR INVALID_COMMAND\n")

/-- The reply left in the buffer. `QUIT` raises `SIGTERM` (`raisesSigterm`). -/
def execCommand (str : CText) : StateM σ CText := execParsed api (commandParse str)

def raisesSigterm (str : CText) : Bool := (commandParse str).type = .quit

def execAll (commands : List ParsedCommand) : StateM σ (List CText) :=
  commands.mapM (execParsed api)

variable {api}

theorem execAll_concat {commands : List ParsedCommand} {replies : List CText} {d d' : σ}
    (command : ParsedCommand) (h : (execAll api commands).run d = (replies, d')) :
    (execAll api (commands ++ [command])).run d =
      (replies ++ [((execParsed api command).run d').1], ((execParsed api command).run d').2) := by
  rw [execAll, List.mapM_append, StateT.run_bind, ← execAll, h]
  rfl

end RemoteDevice
