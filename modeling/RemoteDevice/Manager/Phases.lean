import RemoteDevice.Manager.Components

/-! The order of `device_cleanup` as an invariant: which calls of the workers are in progress in
which phase, and what has been stopped. -/

namespace RemoteDevice.Manager
open Worker (TaskId CancelId)

variable {s t : State} {act : Action}

/-! ## Calls in progress -/

def State.Submitter (s : State) (w : WorkerId) (c : TaskId) : Prop :=
  (∃ j, s.main = .submitting j c ∧ j.worker = w) ∨ (w = .buzzer ∧ s.beeper = .submitting c)

def State.Canceller (s : State) (w : WorkerId) (k : CancelId) : Prop :=
  w = .buzzer ∧ (s.main = .cancelling k ∨ s.main = .cleanup (.cancelling k))

def State.submitActive (s : State) (w : WorkerId) (c : TaskId) : Prop :=
  ((s.worker w).submits c).active = true

def State.cancelActive (s : State) (w : WorkerId) (k : CancelId) : Prop :=
  ((s.worker w).cancels k).active = true

theorem submitCall_active {x y : WorkerState} {c d : TaskId} {g : Args}
    (h : Worker.step x (.submitCall c g) = some y) (hd : (y.submits d).active = true) :
    (x.submits d).active = true ∨ d = c := by
  cases Worker.submitCall_eq h
  by_cases hdc : d = c
  · exact .inr hdc
  · left
    simpa [Worker.State.setSubmit, Worker.State.emit, Function.update_of_ne hdc] using hd

theorem submitCall_cancels {x y : WorkerState} {c : TaskId} {g : Args}
    (h : Worker.step x (.submitCall c g) = some y) : y.cancels = x.cancels := by
  cases Worker.submitCall_eq h
  rfl

theorem cancelCall_active {x y : WorkerState} {k d : CancelId} {code : Int}
    (h : Worker.step x (.cancelCall k code) = some y) (hd : (y.cancels d).active = true) :
    (x.cancels d).active = true ∨ d = k := by
  cases Worker.cancelCall_eq h
  by_cases hdk : d = k
  · exact .inr hdk
  · left
    simpa [Worker.State.setCancel, Function.update_of_ne hdk] using hd

theorem cancelCall_submits {x y : WorkerState} {k : CancelId} {code : Int}
    (h : Worker.step x (.cancelCall k code) = some y) : y.submits = x.submits := by
  cases Worker.cancelCall_eq h
  rfl

theorem Effect.submitActive (h : Effect s act t) {w : WorkerId} {c : TaskId}
    (hc : t.submitActive w c) :
    s.submitActive w c ∨ t.Submitter w c := by
  unfold State.submitActive at *
  have hset : ∀ {v : WorkerId} {x : WorkerState},
      (∀ d, (x.submits d).active = true → ((s.worker v).submits d).active = true) →
      ((if w = v then x else s.worker w).submits c).active = true →
      ((s.worker w).submits c).active = true := by
    intro v x hx hc
    split at hc
    · next hw => exact hw ▸ hx c hc
    · exact hc
  cases h with
  | submit j x hpc _ hx =>
    simp only [State.goto, State.count, setWorker_worker] at hc
    split at hc
    · next hw =>
      rcases submitCall_active hx hc with hd | rfl
      · exact .inl (hw ▸ hd)
      · exact .inr (.inl ⟨j, rfl, hw.symm⟩)
    · exact .inl hc
  | beeperSubmit x _ _ hx =>
    simp only [State.setBeeper, State.count, setWorker_worker] at hc
    split at hc
    · next hw =>
      rcases submitCall_active hx hc with hd | rfl
      · exact .inl (hw ▸ hd)
      · exact .inr (.inr ⟨hw, rfl⟩)
    · exact .inl hc
  | cancel x _ _ hx | cleanupCancel x _ hx =>
    simp only [State.goto, State.count, setWorker_worker] at hc
    exact .inl (hset (fun d => by rw [cancelCall_submits hx]; exact id) hc)
  | stop v x _ hx =>
    simp only [State.goto, setWorker_worker] at hc
    exact .inl (hset (Worker.step_continues hx rfl).submits hc)
  | worker v a x ha hx =>
    rw [setWorker_worker] at hc
    exact .inl (hset (Worker.step_continues hx (ofThread_calls ha).1).submits hc)
  | _ => exact .inl hc

theorem Effect.cancelActive (h : Effect s act t) {w : WorkerId} {k : CancelId}
    (hk : t.cancelActive w k) :
    s.cancelActive w k ∨ t.Canceller w k := by
  unfold State.cancelActive at *
  have hset : ∀ {v : WorkerId} {x : WorkerState},
      (∀ d, (x.cancels d).active = true → ((s.worker v).cancels d).active = true) →
      ((if w = v then x else s.worker w).cancels k).active = true →
      ((s.worker w).cancels k).active = true := by
    intro v x hx hk
    split at hk
    · next hw => exact hw ▸ hx k hk
    · exact hk
  cases h with
  | cancel x _ _ hx =>
    simp only [State.goto, State.count, setWorker_worker] at hk
    split at hk
    · next hw =>
      rcases cancelCall_active hx hk with hd | rfl
      · exact .inl (hw ▸ hd)
      · exact .inr ⟨hw, .inl rfl⟩
    · exact .inl hk
  | cleanupCancel x _ hx =>
    simp only [State.goto, State.count, setWorker_worker] at hk
    split at hk
    · next hw =>
      rcases cancelCall_active hx hk with hd | rfl
      · exact .inl (hw ▸ hd)
      · exact .inr ⟨hw, .inr rfl⟩
    · exact .inl hk
  | submit j x _ _ hx | beeperSubmit x _ _ hx =>
    simp only [State.goto, State.setBeeper, State.count, setWorker_worker] at hk
    exact .inl (hset (fun d => by rw [submitCall_cancels hx]; exact id) hk)
  | stop v x _ hx =>
    simp only [State.goto, setWorker_worker] at hk
    exact .inl (hset (Worker.step_continues hx rfl).cancels hk)
  | worker v a x ha hx =>
    rw [setWorker_worker] at hk
    exact .inl (hset (Worker.step_continues hx (ofThread_calls ha).1).cancels hk)
  | _ => exact .inl hk

theorem inactive_of_returned {x : WorkerState} {c : TaskId} {r : Int}
    (h : x.submits c = .returned r) : ¬ (x.submits c).active = true := by
  rw [h]
  exact Bool.false_ne_true

theorem Effect.submitter (h : Effect s act t) {w : WorkerId} {c : TaskId} (ha : s.submitActive w c)
    (hs : s.Submitter w c) : t.Submitter w c := by
  rcases hs with ⟨j, hm, rfl⟩ | ⟨rfl, hb⟩
  · cases h with
    | submitted j' c' r hpc hc =>
      cases hpc.symm.trans hm
      exact (inactive_of_returned hc ha).elim
    | beeperChecked | beeperSubmit | beeperReturn | refresh | worker | tune =>
      exact .inl ⟨j, hm, rfl⟩
    | _ => cases hm.symm.trans ‹s.main = _›
  · cases h with
    | beeperChecked _ hb' | beeperSubmit _ _ hb' => cases hb'.symm.trans hb
    | beeperReturn x _ hb' =>
      obtain ⟨r, hc⟩ := hb' c hb
      exact (inactive_of_returned hc ha).elim
    | _ => exact .inr ⟨rfl, hb⟩

theorem Effect.canceller (h : Effect s act t) {w : WorkerId} {k : CancelId}
    (ha : s.cancelActive w k) (hs : s.Canceller w k) : t.Canceller w k := by
  have hne : ∀ {d}, (s.worker .buzzer).cancels d = .returned → ¬ s.cancelActive .buzzer d := by
    intro d hd
    rw [State.cancelActive, hd]
    exact Bool.false_ne_true
  obtain ⟨rfl, hm⟩ := hs
  cases h with
  | cancelled d hpc hd | cleanupCancelled d hpc hd =>
    rcases hm with hm | hm <;> cases hm.symm.trans hpc
    exact (hne hd ha).elim
  | beeperChecked | beeperSubmit | beeperReturn | refresh | worker | tune => exact ⟨rfl, hm⟩
  | _ =>
    have hpc := ‹s.main = _›
    rcases hm with hm | hm <;> cases hm.symm.trans hpc

/-! ## Phases -/

def Stage.rank : Stage → Nat
  | stopSegment => 1
  | joinSegment => 2
  | stop .light => 3
  | stopping .light => 4
  | offBuzzer => 5
  | cancelBuzzer => 6
  | cancelling _ => 7
  | stop .buzzer => 8
  | stopping .buzzer => 9
  | stop .led => 10
  | stopping .led => 11
  | cleanup .segment => 12
  | cleanup .light => 13
  | cleanup .buzzer => 14
  | cleanup .led => 15
  | close => 16

def State.phase (s : State) : Nat :=
  match s.main with
  | .cleanup stage => stage.rank
  | _ => if s.initialized then 0 else 17

def WorkerId.stopRank (w : WorkerId) : Nat := (Stage.stop w).rank

def PluginId.cleanupRank (p : PluginId) : Nat := (Stage.cleanup p).rank

theorem rank_stopping (w : WorkerId) : (Stage.stopping w).rank = w.stopRank + 1 := by
  cases w <;> rfl

theorem rank_afterStop (w : WorkerId) : w.afterStop.rank = w.stopRank + 2 := by cases w <;> rfl

theorem rank_afterCleanup (p : PluginId) : p.afterCleanup.rank = p.cleanupRank + 1 := by
  cases p <;> rfl

def MainPc.usesDevices : MainPc → Bool
  | .submitting _ _ | .cancelling _ | .off | .segmentClearing | .reading _ => true
  | _ => false

structure Api (s : State) : Prop where
  uses : s.main.usesDevices = true → s.initialized = true
  cleanup : ∀ stage, s.main = .cleanup stage → s.initialized = false

theorem Api.effect (ha : Api s) (h : Effect s act t) : Api t := by
  obtain ⟨h1, h2⟩ := ha
  cases h with
  | beeperChecked | beeperSubmit | beeperReturn | refresh | worker | tune | join => exact ⟨h1, h2⟩
  | uninitialized | rejected | submitted | off | display | cleared | gotStatus | request | close =>
    exact ⟨nofun, nofun⟩
  | submit _ _ _ hi | cancel _ _ hi | clear _ _ hi | getStatus _ hi => exact ⟨fun _ => hi, nofun⟩
  | cancelled | read => exact ⟨fun _ => h1 (by simp [*, MainPc.usesDevices]), nofun⟩
  | cleanup => exact ⟨nofun, fun _ _ => rfl⟩
  | _ => exact ⟨nofun, fun _ _ => h2 _ ‹s.main = _›⟩

theorem phase_of_ne (h : ∀ stage, s.main ≠ .cleanup stage) :
    s.phase = if s.initialized then 0 else 17 := by
  unfold State.phase
  split
  · exact absurd ‹_› (h _)
  · rfl

def Stage.Done (t : State) : Stage → Prop
  | .joinSegment => t.seg.caller = .stopped
  | .stopping w => (t.worker w).stop = .returned
  | _ => True

inductive Advance (s t : State) : Prop
  | same (h : t.phase = s.phase)
  | begin (h : s.phase = 0) (h' : t.phase = 1)
  | stage (stage : Stage) (hpc : s.main = .cleanup stage) (h : t.phase = stage.rank + 1)
      (hdone : stage.Done t)

theorem Effect.advance (ha : Api s) (h : Effect s act t) : Advance s t := by
  cases h with
  | beeperChecked | beeperSubmit | beeperReturn | refresh | worker | tune | join =>
    exact .same rfl
  | cleanup hpc hi => exact .begin (by simp [State.phase, hpc, hi]) rfl
  | stopSegment _ hpc | cleanupOff hpc | cleanupCancel _ hpc | cleanupCancelled _ hpc =>
    exact .stage _ hpc rfl trivial
  | joined hpc hs => exact .stage _ hpc rfl hs
  | stop w _ hpc => exact .stage _ hpc (rank_stopping w) trivial
  | stopped w hpc hs =>
    exact .stage _ hpc ((rank_afterStop w).trans (by rw [rank_stopping])) hs
  | pluginCleanup p hpc => exact .stage _ hpc (rank_afterCleanup p) trivial
  | close hpc =>
    refine .stage _ hpc ?_ trivial
    show (if s.initialized then 0 else 17) = _
    rw [ha.cleanup _ hpc]
    rfl
  | _ =>
    have hpc := ‹s.main = _›
    refine .same (Eq.trans ?_ (phase_of_ne (by rw [hpc]; exact nofun)).symm)
    exact phase_of_ne nofun

theorem phase_eq_rank {stage : Stage} (hpc : s.main = .cleanup stage) : s.phase = stage.rank := by
  rw [State.phase, hpc]

theorem Advance.le (h : Advance s t) : s.phase ≤ t.phase := by
  cases h with
  | same h => exact Nat.le_of_eq h.symm
  | begin h h' => rw [h]; exact Nat.zero_le _
  | stage stage hpc h =>
    rw [h, phase_eq_rank hpc]
    exact Nat.le_succ _

/-! ## The invariant -/

structure Orderly (s : State) : Prop where
  api : Api s
  submits : ∀ w c, s.submitActive w c → s.Submitter w c
  cancels : ∀ w k, s.cancelActive w k → s.Canceller w k
  beeper : s.beeper ≠ .idle → s.seg.refresh = .alarm
  stopIdle : ∀ w, s.phase ≤ w.stopRank → (s.worker w).stop = .idle
  stopped : ∀ w, w.stopRank + 1 < s.phase → (s.worker w).stop = .returned
  caller : 3 ≤ s.phase → s.seg.caller = .stopped

theorem orderly_deviceInit : Orderly deviceInit where
  api := ⟨nofun, nofun⟩
  submits := fun _ _ h => (Bool.false_ne_true h).elim
  cancels := fun _ _ h => (Bool.false_ne_true h).elim
  beeper := fun h => (h rfl).elim
  stopIdle := fun _ _ => rfl
  stopped := fun _ h => (Nat.not_lt_zero _ h).elim
  caller := fun h => absurd h (by decide)

theorem Effect.beeper (h : Effect s act t) (hb : s.beeper ≠ .idle → s.seg.refresh = .alarm) :
    t.beeper ≠ .idle → t.seg.refresh = .alarm := by
  cases h with
  | beeperChecked hr | beeperSubmit _ hr => exact fun _ => hr
  | beeperReturn => exact fun h => (h rfl).elim
  | refresh _ hr => exact fun h => (hr (hb h)).elim
  | display _ _ _ _ hx | clear _ _ _ hx | cleared _ _ hx | stopSegment _ _ hx | join _ _ hx =>
    exact fun h => (Segment.step_refresh hx nofun).trans (hb h)
  | _ => exact hb

theorem Effect.keeps_stop (h : Effect s act t) {w : WorkerId}
    (hw : (s.worker w).stop = .idle ∨ (s.worker w).stop = .returned) :
    (t.worker w).stop = (s.worker w).stop ∨
      s.main = .cleanup (.stop w) ∧ t.phase = w.stopRank + 1 := by
  have hset : ∀ {v : WorkerId} {a : WorkerAction} {x : WorkerState},
      Worker.step (s.worker v) a = some x → a ≠ .stopCall →
      (if w = v then x else s.worker w).stop = (s.worker w).stop := by
    intro v a x hx ha
    by_cases hv : w = v
    · subst hv
      rw [if_pos rfl]
      exact Worker.step_stop hx ha hw
    · rw [if_neg hv]
  cases h with
  | submit _ _ _ _ hx | cancel _ _ _ hx | cleanupCancel _ _ hx | beeperSubmit _ _ _ hx =>
    simp only [State.goto, State.setBeeper, State.count, setWorker_worker]
    exact .inl (hset hx (by rintro ⟨⟩))
  | worker v a x ha hx =>
    rw [setWorker_worker]
    exact .inl (hset hx (ofThread_calls ha).2)
  | stop v x hpc hx =>
    simp only [State.goto, setWorker_worker]
    by_cases hv : w = v
    · subst hv
      exact .inr ⟨hpc, rank_stopping w⟩
    · exact .inl (by rw [if_neg hv])
  | _ => exact .inl rfl

theorem rank_eq_stopping {stage : Stage} {w : WorkerId} (h : stage.rank = w.stopRank + 1) :
    stage = .stopping w := by
  cases w <;> (unfold Stage.rank at h; split at h) <;> first | rfl | exact absurd h (by decide)

theorem rank_eq_joinSegment {stage : Stage} (h : stage.rank = 2) : stage = .joinSegment := by
  unfold Stage.rank at h
  split at h <;> first | rfl | exact absurd h (by decide)

theorem Effect.stopped_phase (h : Effect s act t) (ho : Orderly s) {w : WorkerId}
    (hw : w.stopRank + 1 < t.phase) : (t.worker w).stop = .returned := by
  by_cases hs : w.stopRank + 1 < s.phase
  · have hret := ho.stopped w hs
    rcases h.keeps_stop (.inr hret) with he | ⟨hpc, -⟩
    · exact he.trans hret
    · have hrank : s.phase = w.stopRank := phase_eq_rank hpc
      omega
  · cases h.advance ho.api with
    | same hp => omega
    | begin hp hp' => omega
    | stage stage hpc hp hdone =>
      have hrank := phase_eq_rank hpc
      obtain rfl : stage = .stopping w := rank_eq_stopping (by omega)
      exact hdone

theorem Effect.caller_phase (h : Effect s act t) (ho : Orderly s) (hw : 3 ≤ t.phase) :
    t.seg.caller = .stopped := by
  by_cases hs : 3 ≤ s.phase
  · have hc := ho.caller hs
    rcases h.segment_step with he | ⟨a, ha⟩
    · rw [he, hc]
    · exact Segment.step_stopped ha hc
  · cases h.advance ho.api with
    | same hp => omega
    | begin hp hp' => omega
    | stage stage hpc hp hdone =>
      have hrank := phase_eq_rank hpc
      obtain rfl : stage = .joinSegment := rank_eq_joinSegment (by omega)
      exact hdone

theorem Orderly.effect (ho : Orderly s) (h : Effect s act t) : Orderly t where
  api := ho.api.effect h
  submits := fun w c hc =>
    (h.submitActive hc).elim (fun ha => h.submitter ha (ho.submits w c ha)) id
  cancels := fun w k hk =>
    (h.cancelActive hk).elim (fun ha => h.canceller ha (ho.cancels w k ha)) id
  beeper := h.beeper ho.beeper
  stopIdle := by
    intro w hw
    have hidle := ho.stopIdle w (Nat.le_trans (h.advance ho.api).le hw)
    rcases h.keeps_stop (.inl hidle) with he | ⟨-, hp⟩
    · exact he.trans hidle
    · omega
  stopped := fun _ hw => h.stopped_phase ho hw
  caller := h.caller_phase ho

theorem Reachable.orderly (h : Reachable s) : Orderly s :=
  h.invariant (by rintro _ rfl; exact orderly_deviceInit) fun _ _ _ ho hs =>
    ho.effect (step_effect hs)

end RemoteDevice.Manager
