import RemoteDevice.Manager.Effect
import RemoteDevice.Segment.Stop
import RemoteDevice.Worker.Calls

/-! The workers and the countdown inside the device manager run as they do on their own, and the
log of the system holds their histories. -/

namespace RemoteDevice.Manager
open Function (update)

variable {s t : State} {act : Action}

@[simp] theorem setWorker_worker (s : State) (w v : WorkerId) (a : WorkerAction) (x : WorkerState) :
    (s.setWorker w a x).worker v = if v = w then x else s.worker v := Function.update_apply ..

theorem ofThread_calls {w : WorkerId} {a : WorkerAction} (h : ofThread s w a = true) :
    a.calls = false ∧ a ≠ .stopCall := by
  cases a <;> simp_all [ofThread, Worker.Action.calls]

inductive WorkerMove (s t : State) (w : WorkerId) : Prop
  | rest (h : t.worker w = s.worker w)
  | thread (a : WorkerAction) (ha : a.calls = false)
      (hx : Worker.step (s.worker w) a = some (t.worker w))
  | submit (j : Job) (hj : j.worker = w) (hcalls : t.calls = s.calls + 1)
      (hx : Worker.step (s.worker w) (.submitCall s.calls j.args) = some (t.worker w))
  | cancel (hcalls : t.calls = s.calls + 1)
      (hx : Worker.step (s.worker w) (.cancelCall s.calls DeviceResult.cancelled) =
        some (t.worker w))

theorem Effect.worker_move (h : Effect s act t) (w : WorkerId) : WorkerMove s t w := by
  cases h with
  | submit j x _ _ hx =>
    by_cases hw : w = j.worker
    · exact .submit j hw.symm rfl (by simpa [State.goto, State.count, hw] using hx)
    · exact .rest (by simp [State.goto, State.count, hw])
  | beeperSubmit x _ _ hx =>
    by_cases hw : w = .buzzer
    · exact .submit (.buzzerBeep 200) hw.symm rfl
        (by simpa [State.setBeeper, State.count, hw] using hx)
    · exact .rest (by simp [State.setBeeper, State.count, hw])
  | cancel x _ _ hx | cleanupCancel x _ hx =>
    by_cases hw : w = .buzzer
    · exact .cancel rfl (by simpa [State.goto, State.count, hw] using hx)
    · exact .rest (by simp [State.goto, State.count, hw])
  | stop v x _ hx =>
    by_cases hw : w = v
    · exact .thread .stopCall rfl (by simpa [State.goto, hw] using hx)
    · exact .rest (by simp [State.goto, hw])
  | worker v a x ha hx =>
    by_cases hw : w = v
    · exact .thread a (ofThread_calls ha).1 (by simpa [hw] using hx)
    · exact .rest (by simp [hw])
  | _ => exact .rest rfl

theorem Effect.worker_step (h : Effect s act t) (w : WorkerId) :
    t.worker w = s.worker w ∨ ∃ a, Worker.step (s.worker w) a = some (t.worker w) := by
  cases h.worker_move w with
  | rest heq => exact .inl heq
  | thread a _ hx => exact .inr ⟨a, hx⟩
  | submit j _ _ hx => exact .inr ⟨_, hx⟩
  | cancel _ hx => exact .inr ⟨_, hx⟩

theorem nextTune_eq {a : WorkerAction} (hloop : a ≠ .loop) (hrun : ∀ r, a ≠ .runReturn r)
    (tune : Option Buzzer.RunPc) (x : WorkerState) : nextTune tune x a = tune := by
  cases a <;> first | rfl | exact (hloop rfl).elim | exact (hrun _ rfl).elim

theorem Effect.segment_step (h : Effect s act t) :
    t.seg = s.seg ∨ ∃ a, Segment.step s.seg a = some t.seg := by
  cases h with
  | display v x _ _ hx | clear x _ _ hx | cleared x _ hx | stopSegment x _ hx | join x _ hx
  | beeperReturn x _ _ hx | refresh x _ hx => exact .inr ⟨_, hx⟩
  | _ => exact .inl rfl

theorem Reachable.worker (h : Reachable s) (w : WorkerId) : Worker.Reachable (s.worker w) :=
  h.map (·.worker w) (by rintro _ rfl; rfl) fun _ _ _ hs => (step_effect hs).worker_step w

theorem Reachable.segment (h : Reachable s) : Segment.Reachable s.seg :=
  h.map (·.seg) (by rintro _ rfl; rfl) fun _ _ _ hs => (step_effect hs).segment_step

/-! ## Histories -/

def Entry.worker? (w : WorkerId) : Entry → Option Worker.Event
  | .worker v e => if v = w then some e else none
  | _ => none

theorem newEvents_append {α : Type} (es old : List α) : newEvents old (es ++ old) = es := by
  simp [newEvents]

theorem filterMap_worker (w v : WorkerId) (es : List Worker.Event) :
    (es.map (Entry.worker w)).filterMap (·.worker? v) = if w = v then es else [] := by
  rw [List.filterMap_map]
  by_cases hw : w = v
  · rw [if_pos hw]
    exact (List.filterMap_congr fun e _ => if_pos hw).trans List.filterMap_some
  · rw [if_neg hw]
    exact List.filterMap_eq_nil_iff.mpr fun e _ => if_neg hw

def WorkerLogs (s : State) : Prop := ∀ w, s.log.filterMap (·.worker? w) = (s.worker w).log

theorem WorkerLogs.setWorker (h : WorkerLogs s) {w : WorkerId} {a : WorkerAction} {x : WorkerState}
    (hx : Worker.step (s.worker w) a = some x) : WorkerLogs (s.setWorker w a x) := by
  obtain ⟨es, hlog, -⟩ := Worker.step_adds hx
  intro v
  rw [setWorker_worker]
  show List.filterMap _ ((newEvents (s.worker w).log x.log).map (.worker w) ++ s.log) = _
  rw [List.filterMap_append, h v, hlog, newEvents_append, filterMap_worker]
  by_cases hv : w = v
  · subst hv
    rw [if_pos rfl, if_pos rfl, hlog]
  · rw [if_neg hv, if_neg (Ne.symm hv)]
    rfl

theorem WorkerLogs.append (h : WorkerLogs s) (es : List Entry) (hlog : t.log = es ++ s.log)
    (hes : ∀ e ∈ es, ∀ w, e.worker? w = none) (hw : t.worker = s.worker) : WorkerLogs t := by
  intro w
  rw [hlog, List.filterMap_append, List.filterMap_eq_nil_iff.mpr fun e he => hes e he w, hw]
  exact h w

theorem WorkerLogs.effect (h : WorkerLogs s) (he : Effect s act t) : WorkerLogs t := by
  cases he with
  | submit j x _ _ hx | cancel x _ _ hx | stop v x _ hx | cleanupCancel x _ hx
  | beeperSubmit x _ _ hx | worker v a x _ hx => exact h.setWorker hx
  | display v x | cleared x =>
    refine h.append (.returned _ _ :: (newEvents s.seg.log x.log).map .segment) rfl ?_ rfl
    simp [Entry.worker?]
  | clear x | stopSegment x | join x | beeperReturn x | refresh x =>
    refine h.append ((newEvents s.seg.log x.log).map .segment) rfl ?_ rfl
    simp [Entry.worker?]
  | tune c pc y r =>
    refine h.append ((r.2.2.map (.run c)).reverse) rfl ?_ rfl
    simp [Entry.worker?]
  | cancelled | getStatus | cleanup | joined | stopped | cleanupCancelled | beeperChecked =>
    exact h.append [] rfl nofun rfl
  | request | uninitialized | rejected | submitted | read | gotStatus | cleanupOff
  | pluginCleanup => exact h.append [_] rfl (by simp [Entry.worker?]) rfl
  | off | close => exact h.append [_, _] rfl (by simp [Entry.worker?]) rfl

theorem Reachable.workerLogs (h : Reachable s) : WorkerLogs s :=
  h.invariant (by rintro _ rfl w; rfl) fun _ _ _ hl hs => hl.effect (step_effect hs)

theorem Reachable.mem_worker_log (h : Reachable s) {w : WorkerId} {e : Worker.Event}
    (he : .worker w e ∈ s.log) : e ∈ (s.worker w).log := by
  rw [← h.workerLogs w, List.mem_filterMap]
  exact ⟨_, he, if_pos rfl⟩

/-! ## Where the entries of the log come from -/

def Entry.Origin (s : State) (act : Action) (t : State) : Entry → Prop
  | .called r => act = .request r ∧ t.main = .called r
  | .returned r result => (∃ m, act = .main m) ∧ t.main = .idle ∧ t.initialized = s.initialized ∧
    (s.main = .called r ∧ s.initialized = false ∧ result = DeviceResult.notInitialized ∨
      r = .buzzerOff ∧ s.main = .off ∨ r = .cleanup ∧ s.main = .cleanup .close ∨
      r ≠ .buzzerOff ∧ r ≠ .cleanup)
  | .worker w e => e.Owned (s.worker w)
  | .run c e => ∃ y pc r, act = .tune y ∧ s.tune = some pc ∧
    (s.worker .buzzer).loop = .running c ∧ Buzzer.runStep s.output pc y = some r ∧ e ∈ r.2.2
  | .segment e => e.callsPlugin = true → s.seg.refresh ≠ .exited ∨ s.seg.caller = .clearing
  | .plugin p f => (∃ m, act = .main m) ∧
    (s.main = .off ∨ s.main = .cleanup .offBuzzer ∧ t.main = .cleanup .cancelBuzzer ∨
      ∃ rest, s.main = .reading ((p, f) :: rest))
  | .pluginCleanup p => s.main = .cleanup (.cleanup p) ∧ t.main = .cleanup p.afterCleanup
  | .close => s.main = .cleanup .close ∧ t.main = .idle ∧ t.initialized = s.initialized

def Extends (s : State) (act : Action) (t : State) : Prop :=
  ∃ es, t.log = es ++ s.log ∧ ∀ e ∈ es, e.Origin s act t

theorem origin_worker {w : WorkerId} {a : WorkerAction} {x : WorkerState}
    (hx : Worker.step (s.worker w) a = some x) :
    ∀ e ∈ (newEvents (s.worker w).log x.log).map (Entry.worker w), e.Origin s act t := by
  obtain ⟨es, hlog, hes⟩ := Worker.step_adds hx
  rw [hlog, newEvents_append]
  intro e he
  obtain ⟨e, hmem, rfl⟩ := List.mem_map.mp he
  exact hes e hmem

theorem origin_segment {a : Segment.Action} {x : Segment.State}
    (hx : Segment.step s.seg a = some x) :
    ∀ e ∈ (newEvents s.seg.log x.log).map Entry.segment, e.Origin s act t := by
  obtain ⟨es, hlog, hes⟩ := Segment.step_adds hx
  rw [hlog, newEvents_append]
  intro e he
  obtain ⟨e, hmem, rfl⟩ := List.mem_map.mp he
  exact hes e hmem

theorem Effect.extends (h : Effect s act t) : Extends s act t := by
  have hone : ∀ {e : Entry}, t.log = e :: s.log → e.Origin s act t → Extends s act t :=
    fun hlog he => ⟨[_], hlog, by simpa using he⟩
  have htwo : ∀ {e f : Entry}, t.log = e :: f :: s.log → e.Origin s act t → f.Origin s act t →
      Extends s act t := fun hlog he hf => ⟨[_, _], hlog, by simpa using ⟨he, hf⟩⟩
  cases h with
  | submit j x _ _ hx | cancel x _ _ hx | stop v x _ hx | cleanupCancel x _ hx
  | beeperSubmit x _ _ hx | worker v a x _ hx => exact ⟨_, rfl, origin_worker hx⟩
  | clear x _ _ hx | stopSegment x _ hx | join x _ hx | beeperReturn x _ _ hx | refresh x _ hx =>
    exact ⟨_, rfl, origin_segment hx⟩
  | display v x _ _ hx | cleared x _ hx =>
    refine ⟨_ :: _, rfl, List.forall_mem_cons.mpr ⟨?_, origin_segment hx⟩⟩
    exact ⟨⟨_, rfl⟩, rfl, rfl, by simp⟩
  | tune c pc y r ht hl hr =>
    refine ⟨_, rfl, fun e he => ?_⟩
    obtain ⟨e, hmem, rfl⟩ := List.mem_map.mp (List.mem_reverse.mp he)
    exact ⟨y, pc, r, rfl, ht, hl, hr, hmem⟩
  | cancelled | getStatus | cleanup | joined | stopped | cleanupCancelled | beeperChecked =>
    exact ⟨[], rfl, nofun⟩
  | request r => exact hone rfl ⟨rfl, rfl⟩
  | rejected | submitted | gotStatus => exact hone rfl ⟨⟨_, rfl⟩, rfl, rfl, by simp⟩
  | uninitialized r hpc hi => exact hone rfl ⟨⟨_, rfl⟩, rfl, rfl, .inl ⟨hpc, hi, rfl⟩⟩
  | read p f rest hpc => exact hone rfl ⟨⟨_, rfl⟩, .inr (.inr ⟨rest, hpc⟩)⟩
  | off hpc => exact htwo rfl ⟨⟨_, rfl⟩, rfl, rfl, by simp [hpc]⟩ ⟨⟨_, rfl⟩, .inl hpc⟩
  | cleanupOff hpc => exact hone rfl ⟨⟨_, rfl⟩, .inr (.inl ⟨hpc, rfl⟩)⟩
  | pluginCleanup p hpc => exact hone rfl ⟨hpc, rfl⟩
  | close hpc => exact htwo rfl ⟨⟨_, rfl⟩, rfl, rfl, by simp [hpc]⟩ ⟨hpc, rfl, rfl⟩

end RemoteDevice.Manager
