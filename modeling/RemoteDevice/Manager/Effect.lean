import RemoteDevice.Manager.Model

/-! What a step of the system does: which thread moves, from where, and the state it leaves. -/

namespace RemoteDevice.Manager
open Worker (TaskId CancelId)
open Buzzer (Output RunPc RunEvent Reading)

inductive Effect (s : State) : Action → State → Prop
  | request (r : Request) (hpc : s.main = .idle) :
      Effect s (.request r) ((s.note (.called r)).goto (.called r))
  | uninitialized {m : Bool} (r : Request) (hpc : s.main = .called r) (hi : s.initialized = false) :
      Effect s (.main m) (s.answer r DeviceResult.notInitialized)
  | rejected {m : Bool} (j : Job) (result : Int) (hpc : s.main = .called (.submit j))
      (hi : s.initialized = true) : Effect s (.main m) (s.answer (.submit j) result)
  | submit {m : Bool} (j : Job) (x : WorkerState) (hpc : s.main = .called (.submit j))
      (hi : s.initialized = true)
      (hx : Worker.step (s.worker j.worker) (.submitCall s.calls j.args) = some x) :
      Effect s (.main m) ((s.setWorker j.worker (.submitCall s.calls j.args) x).count.goto
        (.submitting j s.calls))
  | submitted {m : Bool} (j : Job) (c : TaskId) (result : Int) (hpc : s.main = .submitting j c)
      (hc : (s.worker j.worker).submits c = .returned result) :
      Effect s (.main m) (s.answer (.submit j) result)
  | cancel {m : Bool} (x : WorkerState) (hpc : s.main = .called .buzzerOff)
      (hi : s.initialized = true)
      (hx : Worker.step (s.worker .buzzer) (.cancelCall s.calls DeviceResult.cancelled) = some x) :
      Effect s (.main m)
        ((s.setWorker .buzzer (.cancelCall s.calls DeviceResult.cancelled) x).count.goto (.cancelling s.calls))
  | cancelled {m : Bool} (k : CancelId) (hpc : s.main = .cancelling k)
      (hk : (s.worker .buzzer).cancels k = .returned) : Effect s (.main m) (s.goto .off)
  | off {m : Bool} (hpc : s.main = .off) :
      Effect s (.main m) (s.buzzerOff.answer .buzzerOff DeviceResult.ok)
  | display {m : Bool} (v : Int) (x : Segment.State) (hpc : s.main = .called (.segmentDisplay v))
      (hi : s.initialized = true) (hx : Segment.step s.seg (.displayCall v) = some x) :
      Effect s (.main m) ((s.setSegment x).answer (.segmentDisplay v)
        (Segment.deviceSegmentDisplay s.seg v).2)
  | clear {m : Bool} (x : Segment.State) (hpc : s.main = .called .segmentClear)
      (hi : s.initialized = true)
      (hx : Segment.step s.seg .clearCall = some x) :
      Effect s (.main m) ((s.setSegment x).goto .segmentClearing)
  | cleared {m : Bool} (x : Segment.State) (hpc : s.main = .segmentClearing)
      (hx : Segment.step s.seg .clearPlugin = some x) :
      Effect s (.main m) ((s.setSegment x).answer .segmentClear DeviceResult.ok)
  | getStatus {m : Bool} (hpc : s.main = .called .getStatus) (hi : s.initialized = true) :
      Effect s (.main m)
        (s.goto (.reading [(.led, .isOn), (.buzzer, .isOn), (.light, .getLastValue)]))
  | read {m : Bool} (p : PluginId) (f : PluginFn) (rest : List (PluginId × PluginFn))
      (hpc : s.main = .reading ((p, f) :: rest)) :
      Effect s (.main m) ((s.note (.plugin p f)).goto (.reading rest))
  | gotStatus {m : Bool} (hpc : s.main = .reading []) :
      Effect s (.main m) (s.answer .getStatus DeviceResult.ok)
  | cleanup {m : Bool} (hpc : s.main = .called .cleanup) (hi : s.initialized = true) :
      Effect s (.main m) ({ s with initialized := false }.goto (.cleanup .stopSegment))
  | stopSegment {m : Bool} (x : Segment.State) (hpc : s.main = .cleanup .stopSegment)
      (hx : Segment.step s.seg .stopCall = some x) :
      Effect s (.main m) ((s.setSegment x).goto (.cleanup .joinSegment))
  | join {m : Bool} (x : Segment.State) (hpc : s.main = .cleanup .joinSegment)
      (hx : Segment.step s.seg .join = some x) : Effect s (.main m) (s.setSegment x)
  | joined {m : Bool} (hpc : s.main = .cleanup .joinSegment) (hs : s.seg.caller = .stopped) :
      Effect s (.main m) (s.goto (.cleanup (.stop .light)))
  | stop {m : Bool} (w : WorkerId) (x : WorkerState) (hpc : s.main = .cleanup (.stop w))
      (hx : Worker.step (s.worker w) .stopCall = some x) :
      Effect s (.main m) ((s.setWorker w .stopCall x).goto (.cleanup (.stopping w)))
  | stopped {m : Bool} (w : WorkerId) (hpc : s.main = .cleanup (.stopping w))
      (hs : (s.worker w).stop = .returned) : Effect s (.main m) (s.goto (.cleanup w.afterStop))
  | cleanupOff {m : Bool} (hpc : s.main = .cleanup .offBuzzer) :
      Effect s (.main m) (s.buzzerOff.goto (.cleanup .cancelBuzzer))
  | cleanupCancel {m : Bool} (x : WorkerState) (hpc : s.main = .cleanup .cancelBuzzer)
      (hx : Worker.step (s.worker .buzzer) (.cancelCall s.calls DeviceResult.cancelled) = some x) :
      Effect s (.main m)
        ((s.setWorker .buzzer (.cancelCall s.calls DeviceResult.cancelled) x).count.goto (.cleanup (.cancelling s.calls)))
  | cleanupCancelled {m : Bool} (k : CancelId) (hpc : s.main = .cleanup (.cancelling k))
      (hk : (s.worker .buzzer).cancels k = .returned) :
      Effect s (.main m) (s.goto (.cleanup (.stop .buzzer)))
  | pluginCleanup {m : Bool} (p : PluginId) (hpc : s.main = .cleanup (.cleanup p)) :
      Effect s (.main m) ((s.pluginCleanup p).goto (.cleanup p.afterCleanup))
  | close {m : Bool} (hpc : s.main = .cleanup .close) :
      Effect s (.main m) ((s.note .close).answer .cleanup DeviceResult.ok)
  | beeperChecked {m : Bool} (hr : s.seg.refresh = .alarm) (hb : s.beeper = .idle)
      (hi : s.initialized = true) : Effect s (.beeper m) (s.setBeeper .checked)
  | beeperSubmit {m : Bool} (x : WorkerState) (hr : s.seg.refresh = .alarm)
      (hb : s.beeper = .checked)
      (hx : Worker.step (s.worker .buzzer) (.submitCall s.calls (Job.buzzerBeep 200).args) =
        some x) :
      Effect s (.beeper m) ((s.setWorker .buzzer (.submitCall s.calls (Job.buzzerBeep 200).args)
        x).count.setBeeper (.submitting s.calls))
  | beeperReturn {m : Bool} (x : Segment.State) (hr : s.seg.refresh = .alarm)
      (hb : ∀ c, s.beeper = .submitting c →
        ∃ result, (s.worker .buzzer).submits c = .returned result)
      (hx : Segment.step s.seg .refresh = some x) :
      Effect s (.beeper m) ((s.setSegment x).setBeeper .idle)
  | refresh (x : Segment.State) (hr : s.seg.refresh ≠ .alarm)
      (hx : Segment.step s.seg .refresh = some x) : Effect s .refresh (s.setSegment x)
  | worker (w : WorkerId) (a : WorkerAction) (x : WorkerState) (ha : ofThread s w a = true)
      (hx : Worker.step (s.worker w) a = some x) : Effect s (.worker w a) (s.setWorker w a x)
  | tune (c : TaskId) (pc : RunPc) (y : Reading) (r : Output × RunPc × List RunEvent)
      (ht : s.tune = some pc) (hl : (s.worker .buzzer).loop = .running c)
      (hr : Buzzer.runStep s.output pc y = some r) : Effect s (.tune y) (s.setTune c r)

variable {s t : State}

theorem enterRequest_effect {r : Request} {mallocOk : Bool} (hpc : s.main = .called r)
    (h : enterRequest s r mallocOk = some t) : Effect s (.main mallocOk) t := by
  unfold enterRequest at h
  split at h
  · next hi =>
    cases h
    exact .uninitialized r hpc (by simpa using hi)
  · next hi =>
    have hi : s.initialized = true := by simpa using hi
    split at h
    · next j =>
      split at h
      · cases h
        exact .rejected j _ hpc hi
      split at h
      · cases h
        exact .rejected j _ hpc hi
      · simp only [submitCall, workerStep, Option.map_map, Option.map_eq_some_iff] at h
        obtain ⟨x, hx, rfl⟩ := h
        exact .submit j x hpc hi hx
    · simp only [cancelCall, workerStep, Option.map_map, Option.map_eq_some_iff] at h
      obtain ⟨x, hx, rfl⟩ := h
      exact .cancel x hpc hi hx
    · next v =>
      simp only [segmentStep, Option.map_map, Option.map_eq_some_iff] at h
      obtain ⟨x, hx, rfl⟩ := h
      exact .display v x hpc hi hx
    · simp only [segmentStep, Option.map_map, Option.map_eq_some_iff] at h
      obtain ⟨x, hx, rfl⟩ := h
      exact .clear x hpc hi hx
    · cases h
      exact .getStatus hpc hi
    · cases h
      exact .cleanup hpc hi

theorem cleanupStep_effect {stage : Stage} {mallocOk : Bool} (hpc : s.main = .cleanup stage)
    (h : cleanupStep s stage = some t) : Effect s (.main mallocOk) t := by
  cases stage with
  | stopSegment =>
    simp only [cleanupStep, segmentStep, Option.map_map, Option.map_eq_some_iff] at h
    obtain ⟨x, hx, rfl⟩ := h
    exact .stopSegment x hpc hx
  | joinSegment =>
    simp only [cleanupStep] at h
    split at h
    · next hs =>
      cases h
      exact .joined hpc hs
    · obtain ⟨x, hx, rfl⟩ := Option.map_eq_some_iff.mp h
      exact .join x hpc hx
  | stop w =>
    simp only [cleanupStep, workerStep, Option.map_map, Option.map_eq_some_iff] at h
    obtain ⟨x, hx, rfl⟩ := h
    exact .stop w x hpc hx
  | stopping w =>
    simp only [cleanupStep, Option.ite_none_right_eq_some] at h
    cases h.2
    exact .stopped w hpc h.1
  | offBuzzer =>
    cases h
    exact .cleanupOff hpc
  | cancelBuzzer =>
    simp only [cleanupStep, cancelCall, workerStep, Option.map_map, Option.map_eq_some_iff] at h
    obtain ⟨x, hx, rfl⟩ := h
    exact .cleanupCancel x hpc hx
  | cancelling k =>
    simp only [cleanupStep, Option.ite_none_right_eq_some] at h
    cases h.2
    exact .cleanupCancelled k hpc h.1
  | cleanup p =>
    cases h
    exact .pluginCleanup p hpc
  | close =>
    cases h
    exact .close hpc

theorem mainStep_effect {mallocOk : Bool} (h : mainStep s mallocOk = some t) :
    Effect s (.main mallocOk) t := by
  unfold mainStep at h
  split at h
  · cases h
  · next hpc => exact enterRequest_effect hpc h
  · next j c hpc =>
    split at h <;> cases h
    exact .submitted j c _ hpc ‹_›
  · next k hpc =>
    simp only [Option.ite_none_right_eq_some] at h
    cases h.2
    exact .cancelled k hpc h.1
  · next hpc =>
    cases h
    exact .off hpc
  · next hpc =>
    simp only [segmentStep, Option.map_map, Option.map_eq_some_iff] at h
    obtain ⟨x, hx, rfl⟩ := h
    exact .cleared x hpc hx
  · next hpc =>
    cases h
    exact .gotStatus hpc
  · next p f rest hpc =>
    cases h
    exact .read p f rest hpc
  · next hpc => exact cleanupStep_effect hpc h

theorem beeperStep_effect {mallocOk : Bool} (h : beeperStep s mallocOk = some t) :
    Effect s (.beeper mallocOk) t := by
  unfold beeperStep at h
  split at h
  · cases h
  next hr =>
  have hr : s.seg.refresh = .alarm := not_not.mp hr
  split at h
  · next hb =>
    split at h
    · next hi =>
      cases h
      exact .beeperChecked hr hb hi
    · obtain ⟨x, hx, rfl⟩ := Option.map_eq_some_iff.mp h
      have hidle : s.setSegment x = (s.setSegment x).setBeeper .idle := by
        rw [State.setBeeper, ← hb]
        rfl
      rw [hidle]
      exact .beeperReturn x hr (by simp [hb]) hx
  · next hb =>
    split at h
    · simp only [submitCall, workerStep, Option.map_map, Option.map_eq_some_iff] at h
      obtain ⟨x, hx, rfl⟩ := h
      exact .beeperSubmit x hr hb hx
    · simp only [segmentStep, Option.map_map, Option.map_eq_some_iff] at h
      obtain ⟨x, hx, rfl⟩ := h
      exact .beeperReturn x hr (by simp [hb]) hx
  · next c hb =>
    split at h
    · next result hc =>
      simp only [segmentStep, Option.map_map, Option.map_eq_some_iff] at h
      obtain ⟨x, hx, rfl⟩ := h
      refine .beeperReturn x hr (fun c' hc' => ?_) hx
      rw [hb] at hc'
      cases hc'
      exact ⟨result, hc⟩
    · cases h

theorem step_effect {a : Action} (h : step s a = some t) : Effect s a t := by
  cases a with
  | request r =>
    simp only [step, Option.ite_none_right_eq_some] at h
    cases h.2
    exact .request r h.1
  | main mallocOk => exact mainStep_effect h
  | beeper mallocOk => exact beeperStep_effect h
  | refresh =>
    simp only [step] at h
    split at h
    · cases h
    next hr =>
    obtain ⟨x, hx, rfl⟩ := Option.map_eq_some_iff.mp h
    exact .refresh x hr hx
  | worker w a =>
    simp only [step, Option.ite_none_right_eq_some] at h
    obtain ⟨x, hx, rfl⟩ := Option.map_eq_some_iff.mp h.2
    exact .worker w a x h.1 hx
  | tune y =>
    simp only [step, tuneStep] at h
    split at h
    · next pc c ht hl =>
      obtain ⟨r, hr, rfl⟩ := Option.map_eq_some_iff.mp h
      exact .tune c pc y r ht hl hr
    · cases h

end RemoteDevice.Manager
