import Mathlib.Tactic.ByContra
import RemoteDevice.Manager.Phases

/-! The shutdown takes the devices down in a safe order: no worker is used after its mutex, no
plugin after its cleanup, and nothing is alive when `device_cleanup` returns. -/

namespace RemoteDevice.Manager
open Worker (TaskId CancelId)

variable {s t : State} {act : Action}

theorem phase_eq_zero (ha : Api s) (h : s.main.usesDevices = true) : s.phase = 0 := by
  rw [phase_of_ne, ha.uses h, if_pos rfl]
  intro stage hs
  rw [hs] at h
  cases h

theorem three_le_stopRank (w : WorkerId) : 3 ≤ w.stopRank := by cases w <;> decide

theorem stopRank_le_ten (w : WorkerId) : w.stopRank ≤ 10 := by cases w <;> decide

theorem twelve_le_cleanupRank (p : PluginId) : 12 ≤ p.cleanupRank := by cases p <;> decide

theorem Reachable.segment_exited (h : Reachable s) (hp : 3 ≤ s.phase) : s.seg.refresh = .exited :=
  h.segment.joined.exited (h.orderly.caller hp)

theorem Reachable.loop_exited (h : Reachable s) {w : WorkerId} (hp : w.stopRank + 1 < s.phase) :
    (s.worker w).loop = .exited :=
  (h.worker w).control.joined (.inr (.inr (h.orderly.stopped w hp)))

theorem Reachable.started (h : Reachable s) {w : WorkerId} (hp : s.phase ≤ w.stopRank) :
    (s.worker w).started = true := by
  by_contra hs
  have hret := (h.worker w).control.started (by simpa using hs)
  cases (h.orderly.stopIdle w hp).symm.trans hret

/-! ## The mutexes of the workers -/

theorem Reachable.lockAlive (h : Reachable s) {w : WorkerId} (hp : s.phase ≤ w.stopRank) :
    (s.worker w).lockAlive = true := by
  by_contra hl
  have hstop := (h.worker w).control.lockAlive (by simpa using hl)
  rw [h.orderly.stopIdle w hp] at hstop
  rcases hstop with hstop | hstop <;> cases hstop

structure Unused (s : State) (w : WorkerId) : Prop where
  submits : ∀ c, ¬ s.submitActive w c
  cancels : ∀ k, ¬ s.cancelActive w k
  exited : (s.worker w).loop = .exited
  stop : (s.worker w).stop = .clearing ∨ (s.worker w).stop = .returned

theorem Reachable.no_submits (h : Reachable s) (hp : 3 ≤ s.phase) (w : WorkerId) (c : TaskId) :
    ¬ s.submitActive w c := by
  intro hc
  have ho := h.orderly
  rcases ho.submits w c hc with ⟨j, hm, -⟩ | ⟨-, hb⟩
  · have := phase_eq_zero ho.api (by rw [hm]; rfl)
    omega
  · -- the segment thread is inside its beep, so it has not been joined
    have halarm := ho.beeper (by rw [hb]; exact nofun)
    rw [h.segment_exited hp] at halarm
    cases halarm

theorem Reachable.no_cancels (h : Reachable s) {w : WorkerId} (hp : w.stopRank < s.phase)
    (k : CancelId) : ¬ s.cancelActive w k := by
  intro hk
  have ho := h.orderly
  have hrank := three_le_stopRank w
  obtain ⟨rfl, hm | hm⟩ := ho.cancels w k hk
  · have := phase_eq_zero ho.api (by rw [hm]; rfl)
    omega
  · rw [phase_eq_rank hm] at hp
    exact absurd hp (by decide : ¬ (8 < 7))

theorem Reachable.unused (h : Reachable s) {w : WorkerId} (hw : (s.worker w).lockAlive = false) :
    Unused s w := by
  have hctl := (h.worker w).control
  have hstop := hctl.lockAlive hw
  have hp : w.stopRank < s.phase := by
    by_contra hp
    cases (h.lockAlive (Nat.not_lt.mp hp)).symm.trans hw
  have hrank := three_le_stopRank w
  exact ⟨h.no_submits (by omega) w, h.no_cancels hp, hctl.joined (.inr hstop), hstop⟩

/-! ## The calls of the plugins -/

def Entry.uses : Entry → Option PluginId
  | .worker w (.runCall _) => some w.plugin
  | .run _ _ => some .buzzer
  | .segment e => if e.callsPlugin then some .segment else none
  | .plugin p _ => some p
  | _ => none

def Entry.isCleanup : Entry → Bool
  | .pluginCleanup _ => true
  | _ => false

/-- What may stand in the history after an entry: after the cleanup of a plugin no use of it,
after `plugin_registry_close` no call of any plugin function. -/
def Entry.MayFollow (newer : Entry) : Entry → Prop
  | .pluginCleanup p => newer.uses ≠ some p
  | .close => newer.uses = none ∧ newer.isCleanup = false
  | _ => True

def Entry.Timely (s t : State) : Entry → Prop
  | .pluginCleanup p => s.main = .cleanup (.cleanup p) ∧ p.cleanupRank < t.phase
  | .close => s.main = .cleanup .close ∧ t.phase = 17
  | .returned .cleanup _ => t.phase = 17
  | e => e.uses ≠ none → s.phase < 12

theorem Entry.Timely.uses {e : Entry} (h : e.Timely s t) (hu : e.uses ≠ none) : s.phase < 12 := by
  cases e <;> first | exact h hu | exact (hu rfl).elim

theorem Entry.Origin.timely {e : Entry} (he : e.Origin s act t) (h : Reachable s) :
    e.Timely s t := by
  have ha := h.orderly.api
  cases e with
  | called r => exact fun hu => (hu rfl).elim
  | returned r result =>
    obtain ⟨-, hidle, hinit, hr⟩ := he
    cases r
    case cleanup =>
      have hoff : s.initialized = false := by
        rcases hr with ⟨-, hi, -⟩ | ⟨⟨⟩, -⟩ | ⟨-, hm⟩ | ⟨-, hne⟩
        · exact hi
        · exact ha.cleanup _ hm
        · exact (hne rfl).elim
      rw [Entry.Timely, phase_of_ne (by rw [hidle]; exact nofun), hinit, hoff]
      rfl
    all_goals exact fun hu => (hu rfl).elim
  | worker w e =>
    intro hu
    by_contra hp
    have hrank := stopRank_le_ten w
    have hexited := h.loop_exited (w := w) (by omega)
    cases e with
    | runCall c =>
      rw [he.runCall c rfl] at hexited
      cases hexited
    | _ => exact hu rfl
  | run c e =>
    intro _
    by_contra hp
    -- a plugin function runs only inside the loop of its worker
    have hrank := stopRank_le_ten .buzzer
    have hexited := h.loop_exited (w := .buzzer) (by omega)
    obtain ⟨y, pc, r, -, -, hl, -⟩ := he
    cases hl.symm.trans hexited
  | segment e =>
    intro hu
    by_contra hp
    have hcalls : e.callsPlugin = true := by
      by_contra hc
      exact hu (if_neg hc)
    rcases he hcalls with hr | hc
    · exact hr (h.segment_exited (by omega))
    · rw [h.orderly.caller (by omega)] at hc
      cases hc
  | plugin p f =>
    intro _
    rcases he with ⟨-, hm | ⟨hm, -⟩ | ⟨rest, hm⟩⟩
    · rw [phase_eq_zero ha (by rw [hm]; rfl)]
      decide
    · rw [phase_eq_rank hm]
      decide
    · rw [phase_eq_zero ha (by rw [hm]; rfl)]
      decide
  | pluginCleanup p =>
    refine ⟨he.1, ?_⟩
    rw [phase_eq_rank he.2, rank_afterCleanup]
    exact Nat.lt_succ_self _
  | close =>
    obtain ⟨hm, hidle, hinit⟩ := he
    refine ⟨hm, ?_⟩
    rw [phase_of_ne (by rw [hidle]; exact nofun), hinit, ha.cleanup _ hm]
    rfl

/-! ## The order of the history -/

def Entry.Reached (n : Nat) : Entry → Prop
  | .pluginCleanup p => p.cleanupRank < n
  | .close | .returned .cleanup _ => n = 17
  | _ => True

structure Ordered (s : State) : Prop where
  reached : ∀ e ∈ s.log, e.Reached s.phase
  follows : s.log.Pairwise Entry.MayFollow

theorem phase_le (s : State) : s.phase ≤ 17 := by
  unfold State.phase Stage.rank
  split
  · split <;> decide
  · split <;> decide

theorem Entry.Timely.reached {e : Entry} (h : e.Timely s t) : e.Reached t.phase := by
  cases e with
  | pluginCleanup p => exact h.2
  | close => exact h.2
  | returned r x => cases r <;> first | exact h | trivial
  | _ => trivial

theorem Entry.Reached.mono {e : Entry} (h : e.Reached s.phase) (hle : s.phase ≤ t.phase) :
    e.Reached t.phase := by
  have hmax := phase_le t
  cases e with
  | pluginCleanup p => exact Nat.lt_of_lt_of_le h hle
  | close => exact Nat.le_antisymm hmax (h ▸ hle)
  | returned r x =>
    cases r
    case cleanup => exact Nat.le_antisymm hmax (h ▸ hle)
    all_goals trivial
  | _ => trivial

theorem Entry.Timely.mayFollow {newer older : Entry} (h : newer.Timely s t)
    (ho : older.Timely s t ∨ older.Reached s.phase) : newer.MayFollow older := by
  have hnone : 12 ≤ s.phase → newer.uses = none := fun hp => by
    by_contra hu
    exact absurd (h.uses hu) (Nat.not_lt.mpr hp)
  cases older with
  | pluginCleanup p =>
    have hrank := twelve_le_cleanupRank p
    have hp : 12 ≤ s.phase := by
      rcases ho with ⟨hm, -⟩ | ho
      · rw [phase_eq_rank hm]
        exact hrank
      · exact hrank.trans (Nat.le_of_lt ho)
    exact fun hu => nomatch (hnone hp).symm.trans hu
  | close =>
    have hp : 16 ≤ s.phase := by
      rcases ho with ⟨hm, -⟩ | ho
      · exact Nat.le_of_eq (phase_eq_rank hm).symm
      · exact ho ▸ (by decide : 16 ≤ 17)
    refine ⟨hnone (by omega), ?_⟩
    cases newer with
    | pluginCleanup p =>
      rw [phase_eq_rank h.1] at hp
      exact absurd hp (by cases p <;> decide)
    | _ => rfl
  | _ => trivial

theorem Ordered.effect (ho : Ordered s) (h : Reachable s) (he : Effect s act t) : Ordered t := by
  obtain ⟨es, hlog, hes⟩ := he.extends
  have hes : ∀ e ∈ es, e.Timely s t := fun e hmem => (hes e hmem).timely h
  have hle := (he.advance h.orderly.api).le
  constructor <;> rw [hlog]
  · intro e hmem
    rcases List.mem_append.mp hmem with hmem | hmem
    · exact (hes e hmem).reached
    · exact (ho.reached e hmem).mono hle
  · refine List.pairwise_append.mpr ⟨?_, ho.follows, fun a ha b hb => ?_⟩
    · exact List.pairwise_of_forall_mem_list fun a ha b hb => (hes a ha).mayFollow (.inl (hes b hb))
    · exact (hes a ha).mayFollow (.inr (ho.reached b hb))

theorem Reachable.ordered (h : Reachable s) : Ordered s :=
  h.invariant_of_reachable (by rintro _ rfl; exact ⟨nofun, .nil⟩) fun _ _ _ hr ho hs =>
    ho.effect hr (step_effect hs)

/-! ## After the shutdown -/

structure AllStopped (s : State) : Prop where
  segment : s.seg.refresh = .exited
  workers : ∀ w, (s.worker w).loop = .exited
  queues : ∀ w, (s.worker w).head = none

theorem Reachable.allStopped (h : Reachable s) (hp : s.phase = 17) : AllStopped s := by
  have hexited : ∀ w, (s.worker w).loop = .exited := fun w => by
    have hrank := stopRank_le_ten w
    exact h.loop_exited (by omega)
  refine ⟨h.segment_exited (by omega), hexited, fun w => ?_⟩
  obtain ⟨A, -, hA⟩ := (h.worker w).traced
  exact hA.queue.head_none.mpr (hA.exited (hexited w)).2

theorem shutdown_safe (h : Reachable s) :
    (∀ w, (s.worker w).lockAlive = false → Unused s w) ∧
    s.log.Pairwise Entry.MayFollow ∧
    (∀ r, .returned .cleanup r ∈ s.log → AllStopped s) :=
  ⟨fun _ => h.unused, h.ordered.follows, fun _ hr => h.allStopped (h.ordered.reached _ hr)⟩

def stopWorker (w : WorkerId) : List Action :=
  [.main true, .worker w .stop, .worker w .stop, .worker w .loop, .worker w .stop, .worker w .stop,
    .worker w .stop, .main true]

def shutdownRun : List Action :=
  [.request (.submit (.buzzerBeep 500)), .main true] ++
  List.replicate 3 (.worker .buzzer (.submit 0 .ok)) ++
  [.main true, .request .cleanup, .main true, .main true, .refresh, .refresh, .main true,
    .main true] ++
  stopWorker .light ++ [.main true, .main true] ++
  List.replicate 5 (.worker .buzzer (.cancel 1)) ++
  [.main true] ++ stopWorker .buzzer ++ stopWorker .led ++ List.replicate 5 (.main true)

theorem shutdown_safe_shutdownRun :
    ∃ s, Runs.run step deviceInit shutdownRun = some s ∧
      (∀ w, (s.worker w).lockAlive = false ∧ Unused s w) ∧
      s.log.Pairwise Entry.MayFollow ∧ AllStopped s := by
  obtain ⟨s, hs⟩ : ∃ s, Runs.run step deviceInit shutdownRun = some s := ⟨_, rfl⟩
  have hread : some (fun w => (s.worker w).lockAlive) =
      (Runs.run step deviceInit shutdownRun).map fun s w => (s.worker w).lockAlive :=
    (congrArg (Option.map fun (s : State) w => (s.worker w).lockAlive) hs).symm
  have hlast : some s.log.head? = some (some (.returned .cleanup DeviceResult.ok)) :=
    (congrArg (Option.map fun s : State => s.log.head?) hs).symm.trans rfl
  have hdead : ∀ w, (s.worker w).lockAlive = false := fun w => by
    have hw := congrFun (Option.some.inj (hread.trans rfl)) w
    cases w <;> exact hw
  have hdone : Entry.returned .cleanup DeviceResult.ok ∈ s.log :=
    List.mem_of_head? (Option.some.inj hlast)
  obtain ⟨hunused, horder, hstopped⟩ := shutdown_safe (Runs.Reachable.run (.start rfl) hs)
  exact ⟨s, hs, fun w => ⟨hdead w, hunused w (hdead w)⟩, horder, hstopped _ hdone⟩

end RemoteDevice.Manager
