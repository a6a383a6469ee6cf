import RemoteDevice.Lib.Runs
import RemoteDevice.Segment.Plugin

/-! The countdown of the device manager: the event-loop thread in `device_segment_display`,
`device_segment_clear` and `stop_segment_thread` beside `segment_refresh_loop`, at the
granularity of the `segment_lock` sections, the plugin calls and the sleeps. -/

namespace RemoteDevice.Segment

def segmentRefreshDelayMs : Nat := 1000
def segmentIdleDelayMs : Nat := 20

/-- Where the refresh thread stands. `showing v` holds the snapshot of an enabled countdown. -/
inductive RefreshPc
  | snapshot
  | blank
  | doze
  | showing (value : Int)
  | hold
  | tick
  | expire
  | alarm
  | leave
  | exited
  deriving DecidableEq

inductive CallerPc
  | idle
  | clearing
  | joining
  | stopped
  deriving DecidableEq

/-- What the two threads do outside the locked sections, and the requests that take effect.
`cleared` is the plugin call with which `device_segment_clear` returns. -/
inductive Event
  | display (value : Int)
  | clear
  | sleep (milliseconds : Nat)
  | beep (durationMs : Int)
  | accept (value : Int)
  | cleared
  deriving DecidableEq

structure State where
  /-- `segment_thread_running`, `segment_thread_started`, `segment_countdown_enabled` and
  `segment_countdown_value`. -/
  running : Bool
  started : Bool
  enabled : Bool
  value : Int
  plugin : Plugin
  refresh : RefreshPc
  caller : CallerPc
  /-- Newest event first. -/
  log : List Event

def startSegmentThread : State where
  running := true
  started := true
  enabled := false
  value := 0
  plugin := segmentClear
  refresh := .snapshot
  caller := .idle
  log := []

def State.emit (s : State) (e : Event) (pc : RefreshPc) : State :=
  { s with refresh := pc, log := e :: s.log }

def State.pluginClear (s : State) (pc : RefreshPc) : State :=
  { s.emit .clear pc with plugin := segmentClear }

def segmentRefreshLoop (s : State) : Option State :=
  match s.refresh with
  | .snapshot =>
    some { s with
      refresh := if !s.running then .leave else if !s.enabled then .blank else .showing s.value }
  | .blank => some (s.pluginClear .doze)
  | .doze => some (s.emit (.sleep segmentIdleDelayMs) .snapshot)
  | .showing v => some { s.emit (.display v) .hold with plugin := (segmentDisplay s.plugin v).1 }
  | .hold => some (s.emit (.sleep segmentRefreshDelayMs) .tick)
  | .tick =>
    if s.running && s.enabled then
      if s.value = 0 then some { s with enabled := false, refresh := .expire }
      else some { s with value := s.value - 1, refresh := .snapshot }
    else some { s with refresh := .snapshot }
  | .expire => some (s.pluginClear .alarm)
  | .alarm => some (s.emit (.beep 200) .snapshot)
  | .leave => some (s.pluginClear .exited)
  | .exited => none

def deviceSegmentDisplay (s : State) (value : Int) : State × Int :=
  if value < 0 ∨ value > 9 then (s, DeviceResult.invalidValue)
  else ({ s with value := value, enabled := true, log := .accept value :: s.log }, DeviceResult.ok)

inductive Action
  | refresh
  | displayCall (value : Int)
  | clearCall
  | clearPlugin
  | stopCall
  | join
  deriving DecidableEq

def step (s : State) : Action → Option State
  | .refresh => segmentRefreshLoop s
  | .displayCall v => if s.caller = .idle then some (deviceSegmentDisplay s v).1 else none
  | .clearCall =>
    if s.caller = .idle then some { s with enabled := false, value := 0, caller := .clearing }
    else none
  | .clearPlugin =>
    if s.caller = .clearing then
      some { s with plugin := segmentClear, caller := .idle, log := .cleared :: s.log }
    else none
  | .stopCall =>
    if s.caller = .idle then
      some { s with
        running := false
        enabled := false
        started := false
        caller := if s.started then .joining else .stopped }
    else none
  | .join => if s.caller = .joining ∧ s.refresh = .exited then some { s with caller := .stopped } else none

abbrev Reachable : State → Prop := Runs.Reachable (· = startSegmentThread) step

/-! ## What a step of the refresh thread does -/

inductive RefreshBranch (s : State) : State → Prop
  | stops (hpc : s.refresh = .snapshot) (hrunning : s.running = false) :
      RefreshBranch s { s with refresh := .leave }
  | idles (hpc : s.refresh = .snapshot) (hrunning : s.running = true) (henabled : s.enabled = false) :
      RefreshBranch s { s with refresh := .blank }
  | takes (hpc : s.refresh = .snapshot) (hrunning : s.running = true) (henabled : s.enabled = true) :
      RefreshBranch s { s with refresh := .showing s.value }
  | blanks (hpc : s.refresh = .blank) : RefreshBranch s (s.pluginClear .doze)
  | dozes (hpc : s.refresh = .doze) : RefreshBranch s (s.emit (.sleep segmentIdleDelayMs) .snapshot)
  | displays (v : Int) (hpc : s.refresh = .showing v) :
      RefreshBranch s { s.emit (.display v) .hold with plugin := (segmentDisplay s.plugin v).1 }
  | holds (hpc : s.refresh = .hold) : RefreshBranch s (s.emit (.sleep segmentRefreshDelayMs) .tick)
  | expires (hpc : s.refresh = .tick) (hrunning : s.running = true) (henabled : s.enabled = true)
      (hvalue : s.value = 0) : RefreshBranch s { s with enabled := false, refresh := .expire }
  | counts (hpc : s.refresh = .tick) (hrunning : s.running = true) (henabled : s.enabled = true)
      (hvalue : s.value ≠ 0) : RefreshBranch s { s with value := s.value - 1, refresh := .snapshot }
  | passes (hpc : s.refresh = .tick) (hoff : s.running = true → s.enabled = false) :
      RefreshBranch s { s with refresh := .snapshot }
  | clears (hpc : s.refresh = .expire) : RefreshBranch s (s.pluginClear .alarm)
  | beeps (hpc : s.refresh = .alarm) : RefreshBranch s (s.emit (.beep 200) .snapshot)
  | leaves (hpc : s.refresh = .leave) : RefreshBranch s (s.pluginClear .exited)

theorem refresh_branch {s t : State} (h : segmentRefreshLoop s = some t) : RefreshBranch s t := by
  unfold segmentRefreshLoop at h
  cases hpc : s.refresh <;> rw [hpc] at h
  case snapshot =>
    cases h
    split
    · next hstopped => exact .stops hpc (by simpa using hstopped)
    next hrunning =>
    split
    · next hoff => exact .idles hpc (by simpa using hrunning) (by simpa using hoff)
    · next hon => exact .takes hpc (by simpa using hrunning) (by simpa using hon)
  case tick =>
    simp only at h
    split at h
    · next hon =>
      obtain ⟨hrunning, henabled⟩ := Bool.and_eq_true_iff.mp hon
      split at h <;> cases h
      · exact .expires hpc hrunning henabled ‹_›
      · exact .counts hpc hrunning henabled ‹_›
    · next hoff =>
      cases h
      exact .passes hpc fun hrunning => by simpa [hrunning] using hoff
  case blank => cases h; exact .blanks hpc
  case doze => cases h; exact .dozes hpc
  case showing v => cases h; exact .displays v hpc
  case hold => cases h; exact .holds hpc
  case expire => cases h; exact .clears hpc
  case alarm => cases h; exact .beeps hpc
  case leave => cases h; exact .leaves hpc
  case exited => cases h

end RemoteDevice.Segment
