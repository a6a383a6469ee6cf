import RemoteDevice.Command.Exec
import RemoteDevice.Manager.Model

/-! `exec_command` as a caller of the device manager: which `device_*` function it calls next, given
what the calls before have returned. -/

namespace RemoteDevice

inductive DeviceCall
  | ledOn
  | ledOnBright (brightness : Int)
  | ledOff
  | buzzerMusic (filePath : CText)
  | buzzerOn
  | buzzerOff
  | buzzerBeep (durationMs : Int)
  | segmentDisplay (value : Int)
  | segmentClear
  deriving DecidableEq

def DeviceCall.request : DeviceCall → Manager.Request
  | ledOn => .submit .ledOn
  | ledOnBright brightness => .submit (.ledOnBright brightness)
  | ledOff => .submit .ledOff
  | buzzerMusic filePath => .submit (.buzzerMusic filePath)
  | buzzerOn => .submit .buzzerOn
  | buzzerOff => .buzzerOff
  | buzzerBeep durationMs => .submit (.buzzerBeep durationMs)
  | segmentDisplay value => .segmentDisplay value
  | segmentClear => .segmentClear

def DeviceCall.perform {σ : Type} (api : DeviceApi σ) : DeviceCall → StateM σ Int
  | ledOn => api.deviceLedOn
  | ledOnBright brightness => api.deviceLedOnBright brightness
  | ledOff => api.deviceLedOff
  | buzzerMusic filePath => api.deviceBuzzerMusic filePath
  | buzzerOn => api.deviceBuzzerOn
  | buzzerOff => api.deviceBuzzerOff
  | buzzerBeep durationMs => api.deviceBuzzerBeep durationMs
  | segmentDisplay value => api.deviceSegmentDisplay value
  | segmentClear => api.deviceSegmentClear

/-- What is left to do of an `exec_command`. -/
inductive ExecProgram
  | reply (text : CText)
  | call (c : DeviceCall) (next : Int → ExecProgram)
  | lightRead (next : Int → Int → ExecProgram)
  | getStatus (next : DeviceStatus → ExecProgram)
  | pluginStatus (next : PluginStatus → ExecProgram)

namespace ExecProgram

def run {σ : Type} (api : DeviceApi σ) : ExecProgram → StateM σ CText
  | reply text => return text
  | call c next => do (next (← c.perform api)).run api
  | lightRead next => do
    let (result, lightValue) ← api.deviceLightRead
    (next result lightValue).run api
  | getStatus next => do (next (← api.deviceGetStatus)).run api
  | pluginStatus next => do (next (← api.pluginGetStatus)).run api

def request : ExecProgram → Option Manager.Request
  | call c _ => some c.request
  | lightRead _ => some (.submit .lightRead)
  | getStatus _ => some .getStatus
  | reply _ | pluginStatus _ => none

def respondTo (c : DeviceCall) (text : CText) : ExecProgram :=
  call c fun result => reply (respond result text)

def lightText (lightValue : Int) : CText :=
  CText.ascii "DATA LIGHT " ++ CText.decimal lightValue ++ CText.ascii " LED=" ++
    onOff (lightValue = 0) ++ CText.ascii "\n"

def switchLamp (result lightValue : Int) : ExecProgram :=
  if result = DeviceResult.ok then
    if lightValue = 0 then respondTo .ledOn (lightText lightValue)
    else if lightValue = 1 then respondTo .ledOff (lightText lightValue)
    else reply (respond result (lightText lightValue))
  else reply (writeDeviceError result)

end ExecProgram

open CText ExecProgram

def execProgram (command : ParsedCommand) : ExecProgram :=
  match command.type with
  | .help => reply (snprintf helpText)
  | .status => getStatus fun status => reply (snprintf (statusText status))
  | .pluginList => pluginStatus fun status => reply (snprintf (pluginsText status))
  | .quit => reply (snprintf (ascii "OK QUIT\n"))
  | .ledOn => respondTo .ledOn (ascii "OK LED ON\n")
  | .ledOnBright =>
    respondTo (.ledOnBright command.value) (ascii "OK LED BRIGHT " ++ decimal command.value ++ ascii "\n")
  | .ledOff => respondTo .ledOff (ascii "OK LED OFF\n")
  | .buzzerMusic => respondTo (.buzzerMusic command.str) (ascii "OK BUZZER MUSIC\n")
  | .buzzerOn => respondTo .buzzerOn (ascii "OK BUZZER ON\n")
  | .buzzerOff => respondTo .buzzerOff (ascii "OK BUZZER OFF\n")
  | .buzzerBeep =>
    respondTo (.buzzerBeep command.value) (ascii "OK BUZZER BEEP " ++ decimal command.value ++ ascii "\n")
  | .lightRead => lightRead switchLamp
  | .segDisplay =>
    respondTo (.segmentDisplay command.value)
      (ascii "OK SEG DISPLAY " ++ decimal command.value ++ ascii "\n")
  | .segClear => respondTo .segmentClear (ascii "OK SEG CLEAR\n")
  | .empty => reply (snprintf (ascii "ERR EMPTY_COMMAND\n"))
  | .invalidValue => reply (snprintf (ascii "ERR INVALID_VALUE\n"))
  | .invalid => reply (snprintf (ascii "ERR INVALID_COMMAND\n"))

section
variable {σ : Type} (api : DeviceApi σ)

theorem run_switchLamp (result lightValue : Int) (d : σ) :
    ((switchLamp result lightValue).run api).run d = (if result = DeviceResult.ok then do
      let result ←
        if lightValue = 0 then api.deviceLedOn
        else if lightValue = 1 then api.deviceLedOff
        else pure result
      return respond result (lightText lightValue)
    else return writeDeviceError result : StateM σ CText).run d := by
  unfold switchLamp
  split
  · split
    · rfl
    split
    · rfl
    · rfl
  · rfl

theorem execProgram_run (command : ParsedCommand) :
    (execProgram command).run api = execParsed api command := by
  unfold execProgram execParsed
  cases command.type with
  | lightRead =>
    funext d
    exact run_switchLamp api _ _ _
  | _ => rfl

end

end RemoteDevice
