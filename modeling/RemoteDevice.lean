import RemoteDevice.Worker.Ownership
import RemoteDevice.Worker.Fifo
import RemoteDevice.Segment.Countdown
import RemoteDevice.Segment.Blank
import RemoteDevice.Wav.Header
import RemoteDevice.Server.Requests
import RemoteDevice.Manager.BuzzerOff
import RemoteDevice.Manager.EventLoop
import RemoteDevice.Manager.StopBuzzer
import RemoteDevice.Lifecycle.AllOrNothing
import RemoteDevice.Server.Clients
import RemoteDevice.Server.Main
import RemoteDevice.Command.Language
import RemoteDevice.Buzzer.Pitch
import RemoteDevice.Buzzer.Build
import RemoteDevice.Buzzer.Machine
import RemoteDevice.Segment.Beeps
import RemoteDevice.System.Lamp
import RemoteDevice.System.Ranges
import RemoteDevice.Buzzer.Playback
import RemoteDevice.Buzzer.Durations
import RemoteDevice.Buzzer.Hold
import RemoteDevice.Command.Outcome
import RemoteDevice.Config.Ini
import RemoteDevice.Server.Log
import RemoteDevice.Segment.Writes
import RemoteDevice.Server.LogFile
import RemoteDevice.Network.Conversation
import RemoteDevice.Buzzer.Exact
import RemoteDevice.System.Progress
import RemoteDevice.System.Failures
import RemoteDevice.System.Timer
