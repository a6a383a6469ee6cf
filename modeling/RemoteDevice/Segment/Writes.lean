import RemoteDevice.Segment.Pins
import RemoteDevice.Segment.Stop

/-! The plugin calls of the two threads taken apart: eight times `digitalWrite`, then the section under
the lock of the plugin. -/

namespace RemoteDevice.Segment

/-! ## The cells of a plugin call -/

inductive Cell
  | level (level : Level)
  | cache (enabled : Bool) (value : Int)
  deriving DecidableEq

def cellCount : Nat := segmentCount + 1

def Plugin.cells (p : Plugin) (k : Fin cellCount) : Cell :=
  if h : k.val < segmentCount then .level (p.pins ⟨k.val, h⟩)
  else .cache p.segmentEnabled p.segmentValue

def Board.write (b : Board) (p : Plugin) (k : Nat) : Board :=
  if h : k < segmentCount then b.digitalWrite (segmentPins ⟨k, h⟩) (p.pins ⟨k, h⟩)
  else b.cache p.segmentEnabled p.segmentValue

theorem Plugin.cells_pin (p : Plugin) {k : Fin cellCount} (h : k.val < segmentCount) :
    p.cells k = .level (p.pins ⟨k.val, h⟩) := dif_pos h

theorem Plugin.cells_cache (p : Plugin) {k : Fin cellCount} (h : ¬k.val < segmentCount) :
    p.cells k = .cache p.segmentEnabled p.segmentValue := dif_neg h

theorem Plugin.cells_injective : Function.Injective Plugin.cells := by
  intro p q h
  have hpins : p.pins = q.pins := by
    funext i
    have hi := congrFun h ⟨i.val, Nat.lt_succ_of_lt i.isLt⟩
    rw [p.cells_pin i.isLt, q.cells_pin i.isLt] at hi
    exact Cell.level.inj hi
  have hcache := congrFun h ⟨segmentCount, Nat.lt_succ_self segmentCount⟩
  rw [p.cells_cache (Nat.lt_irrefl _), q.cells_cache (Nat.lt_irrefl _)] at hcache
  obtain ⟨henabled, hvalue⟩ := Cell.cache.inj hcache
  cases p
  cases q
  cases hpins
  cases henabled
  cases hvalue
  rfl

theorem Board.write_cells (b : Board) (p : Plugin) {k : Nat} (hk : k < cellCount) :
    (b.write p k).plugin.cells = Function.update b.plugin.cells ⟨k, hk⟩ (p.cells ⟨k, hk⟩) := by
  funext j
  by_cases hpin : k < segmentCount
  · rw [Board.write, dif_pos hpin, p.cells_pin hpin]
    by_cases hj : j = ⟨k, hk⟩
    · subst hj
      rw [Function.update_self, Plugin.cells_pin _ hpin]
      exact congrArg Cell.level (Function.update_self _ _ _)
    · rw [Function.update_of_ne hj]
      by_cases hjpin : j.val < segmentCount
      · rw [Plugin.cells_pin _ hjpin, Plugin.cells_pin _ hjpin]
        have hplace : segmentPins ⟨j.val, hjpin⟩ ≠ segmentPins ⟨k, hpin⟩ := by
          intro heq
          have hval := congrArg Fin.val (segmentPins_injective heq)
          exact hj (Fin.ext hval)
        exact congrArg Cell.level (Function.update_of_ne hplace _ _)
      · rw [Plugin.cells_cache _ hjpin, Plugin.cells_cache _ hjpin]
        rfl
  · rw [Board.write, dif_neg hpin]
    by_cases hj : j = ⟨k, hk⟩
    · subst hj
      rw [Function.update_self, Plugin.cells_cache _ hpin, Plugin.cells_cache _ hpin]
      rfl
    · have hjpin : j.val < segmentCount := by
        have hne : j.val ≠ k := fun heq => hj (Fin.ext heq)
        have hlt : j.val < segmentCount + 1 := j.isLt
        have hk' : k < segmentCount + 1 := hk
        omega
      rw [Function.update_of_ne hj, Plugin.cells_pin _ hjpin, Plugin.cells_pin _ hjpin]
      rfl

theorem Board.foldl_write (b : Board) (p : Plugin) :
    (List.range cellCount).foldl (fun b k => b.write p k) b =
      (b.writePins p.pins).cache p.segmentEnabled p.segmentValue := by
  have hpins : (List.range segmentCount).foldl (fun b k => b.write p k) b = b.writePins p.pins := by
    rw [← List.map_coe_finRange_eq_range, List.foldl_map, Board.writePins]
    congr 1
    funext b i
    exact dif_pos i.isLt
  rw [cellCount, List.range_succ, List.foldl_append, hpins]
  rw [List.foldl_cons, List.foldl_nil, Board.write, dif_neg (Nat.lt_irrefl segmentCount)]

theorem Board.segmentClear_writes (b : Board) :
    b.segmentClear.1 = (List.range cellCount).foldl (fun b k => b.write Segment.segmentClear k) b :=
  (b.foldl_write Segment.segmentClear).symm

theorem Board.segmentDisplay_writes (b : Board) {value : Int} (h : ¬(value < 0 ∨ value > 9)) :
    (b.segmentDisplay value).1 =
      (List.range cellCount).foldl (fun b k => b.write (segmentDigit value) k) b := by
  rw [b.foldl_write (segmentDigit value), Board.segmentDisplay, if_neg h]
  rfl

/-! ## The plugin calls of the threads -/

def displayWrites (value : Int) : Option Plugin :=
  if value < 0 ∨ value > 9 then none else some (segmentDigit value)

def RefreshPc.writes : RefreshPc → Option Plugin
  | .blank | .expire | .leave => some segmentClear
  | .showing value => displayWrites value
  | _ => none

def CallerPc.writes : CallerPc → Option Plugin
  | .clearing => some segmentClear
  | _ => none

def Event.writes : Event → Option Plugin
  | .clear | .cleared => some segmentClear
  | .display value => displayWrites value
  | _ => none

inductive Thread
  | refresh
  | eventLoop
  deriving DecidableEq

def Thread.other : Thread → Thread
  | .refresh => .eventLoop
  | .eventLoop => .refresh

def Action.thread : Action → Thread
  | .refresh => .refresh
  | _ => .eventLoop

def Thread.calls : Thread → Action
  | .refresh => .refresh
  | .eventLoop => .clearPlugin

def State.call (s : State) : Thread → Option Plugin
  | .refresh => s.refresh.writes
  | .eventLoop => s.caller.writes

def State.writes (s : State) (a : Action) : Option Plugin :=
  if a = a.thread.calls then s.call a.thread else none

/-- What the calls that have returned wrote, newest first. The oldest is `segment_init`. -/
def completed (log : List Event) : List Plugin := log.filterMap Event.writes ++ [segmentClear]

structure Leaves (written : Option Plugin) (s t : State) : Prop where
  plugin : t.plugin = written.getD s.plugin
  completed : completed t.log = written.toList ++ completed s.log

theorem Leaves.silent {s t : State} (hplugin : t.plugin = s.plugin) (hlog : t.log = s.log) :
    Leaves none s t := ⟨hplugin, congrArg Segment.completed hlog⟩

theorem Leaves.event {s t : State} {e : Event} (hplugin : t.plugin = e.writes.getD s.plugin)
    (hlog : t.log = e :: s.log) : Leaves e.writes s t := by
  refine ⟨hplugin, ?_⟩
  rw [hlog, Segment.completed, List.filterMap_cons]
  cases e.writes with
  | none => rfl
  | some p => rfl

theorem segmentDisplay_writes (p : Plugin) (value : Int) :
    (segmentDisplay p value).1 = (displayWrites value).getD p := by
  unfold segmentDisplay displayWrites
  split
  · rfl
  · rfl

theorem refresh_leaves {s t : State} (h : segmentRefreshLoop s = some t) :
    Leaves s.refresh.writes s t := by
  cases refresh_branch h with
  | stops hpc | idles hpc | takes hpc | expires hpc | counts hpc | passes hpc =>
    rw [hpc]
    exact .silent rfl rfl
  | dozes hpc | holds hpc =>
    rw [hpc]
    exact .event (e := .sleep _) rfl rfl
  | beeps hpc =>
    rw [hpc]
    exact .event (e := .beep 200) rfl rfl
  | blanks hpc | clears hpc | leaves hpc =>
    rw [hpc]
    exact .event (e := .clear) rfl rfl
  | displays value hpc =>
    rw [hpc]
    exact .event (e := .display value) (segmentDisplay_writes s.plugin value) rfl

theorem step_leaves {s t : State} {a : Action} (h : step s a = some t) : Leaves (s.writes a) s t := by
  cases a <;> simp only [step] at h
  case refresh => exact refresh_leaves h
  case displayCall value =>
    split at h <;> cases h
    unfold deviceSegmentDisplay
    split
    · exact .silent rfl rfl
    · exact .event (e := .accept value) rfl rfl
  case clearPlugin =>
    split at h <;> cases h
    next hcaller =>
    show Leaves s.caller.writes s _
    rw [hcaller]
    exact .event (e := .cleared) rfl rfl
  all_goals
    split at h <;> cases h
    exact .silent rfl rfl

theorem Reachable.last_completed {s : State} (h : Reachable s) :
    (completed s.log).head? = some s.plugin := by
  refine h.invariant (P := fun s => (completed s.log).head? = some s.plugin) ?_ ?_
  · rintro _ rfl
    rfl
  · intro s a t ih hs
    have hleaves := step_leaves hs
    rw [hleaves.completed, hleaves.plugin]
    cases s.writes a with
    | none => exact ih
    | some p => rfl

theorem Thread.eq_or_other (x y : Thread) : x = y ∨ x = y.other := by
  cases x <;> cases y <;> decide

theorem Thread.other_other (x : Thread) : x.other.other = x := by cases x <;> rfl

theorem Thread.other_ne (x : Thread) : x.other ≠ x := by cases x <;> decide

theorem Thread.thread_calls (x : Thread) : x.calls.thread = x := by cases x <;> rfl

theorem State.writes_calls (s : State) (x : Thread) : s.writes x.calls = s.call x := by
  cases x <;> rfl

theorem State.eq_calls {s : State} {a : Action} {p : Plugin} (hp : s.writes a = some p) :
    a = a.thread.calls ∧ s.call a.thread = some p := by
  unfold State.writes at hp
  split at hp
  · next ha => exact ⟨ha, hp⟩
  · cases hp

theorem silent_idle {s t : State} {a : Action} (h : step s a = some t) (hsilent : s.writes a = none) :
    s.call a.thread = none := by
  cases a <;> simp only [step] at h
  case refresh | clearPlugin => exact hsilent
  case displayCall | clearCall | stopCall =>
    split at h <;> cases h
    next hcaller => exact congrArg CallerPc.writes hcaller
  case join =>
    split at h <;> cases h
    next hcaller => exact congrArg CallerPc.writes hcaller.1

theorem step_other {s t : State} {a : Action} (h : step s a = some t) :
    t.call a.thread.other = s.call a.thread.other := by
  by_cases ha : a = .refresh
  · subst ha
    exact congrArg CallerPc.writes (segmentRefreshLoop_control h).1
  · have hthread : a.thread = .eventLoop := by
      cases a <;> first | rfl | exact absurd rfl ha
    rw [hthread]
    exact congrArg RefreshPc.writes (step_refresh h ha)

theorem refresh_returns {s t : State} {p : Plugin} (h : segmentRefreshLoop s = some t)
    (hp : s.refresh.writes = some p) : t.refresh.writes = none := by
  cases refresh_branch h with
  | stops hpc | idles hpc | takes hpc | expires hpc | counts hpc | passes hpc =>
    rw [hpc] at hp
    cases hp
  | _ => rfl

theorem step_returns {s t : State} {x : Thread} {p : Plugin} (h : step s x.calls = some t)
    (hp : s.call x = some p) : t.call x = none := by
  cases x with
  | refresh => exact refresh_returns h hp
  | eventLoop =>
    simp only [Thread.calls, step] at h
    split at h <;> cases h
    rfl

theorem call_enabled {s : State} {x : Thread} {p : Plugin} (hp : s.call x = some p) :
    ∃ t, step s x.calls = some t := by
  cases x with
  | refresh =>
    show ∃ t, segmentRefreshLoop s = some t
    unfold segmentRefreshLoop
    cases hpc : s.refresh with
    | blank | showing | expire | leave => exact ⟨_, rfl⟩
    | _ =>
      rw [State.call, hpc] at hp
      cases hp
  | eventLoop =>
    cases hpc : s.caller with
    | clearing => exact ⟨_, if_pos hpc⟩
    | _ =>
      rw [State.call, hpc] at hp
      cases hp

/-! ## The two threads, cell by cell -/

structure Writing where
  /-- The threads, between their plugin calls. -/
  manager : State
  board : Board
  /-- How many cells the plugin call that a thread is at has written. -/
  done : Thread → Nat

/-- A plugin call writes its cells in the order of `Board.write`, and returns with the last one. -/
def Writing.step (w : Writing) (a : Action) : Option Writing :=
  match w.manager.writes a with
  | none => (Segment.step w.manager a).map fun s => { w with manager := s }
  | some p =>
    let board := w.board.write p (w.done a.thread)
    if w.done a.thread < segmentCount then
      some ⟨w.manager, board, Function.update w.done a.thread (w.done a.thread + 1)⟩
    else
      (Segment.step w.manager a).map fun s => ⟨s, board, Function.update w.done a.thread 0⟩

def Writing.start (b : Board) (setup : Int) : Writing :=
  ⟨startSegmentThread, (b.segmentInit setup).1, fun _ => 0⟩

inductive Writing.Branch (w : Writing) (a : Action) : Writing → Prop
  | goes {s : State} (hs : Segment.step w.manager a = some s) (hsilent : w.manager.writes a = none) :
      Branch w a { w with manager := s }
  | writes (p : Plugin) (hp : w.manager.writes a = some p) (hk : w.done a.thread < segmentCount) :
      Branch w a ⟨w.manager, w.board.write p (w.done a.thread),
        Function.update w.done a.thread (w.done a.thread + 1)⟩
  | returns (p : Plugin) (s : State) (hs : Segment.step w.manager a = some s)
      (hp : w.manager.writes a = some p) (hk : ¬w.done a.thread < segmentCount) :
      Branch w a ⟨s, w.board.write p (w.done a.thread), Function.update w.done a.thread 0⟩

theorem Writing.step_branch {w v : Writing} {a : Action} (h : w.step a = some v) : w.Branch a v := by
  unfold Writing.step at h
  cases hp : w.manager.writes a with
  | none =>
    rw [hp] at h
    obtain ⟨s, hs, rfl⟩ := Option.map_eq_some_iff.mp h
    exact .goes hs hp
  | some p =>
    rw [hp] at h
    by_cases hk : w.done a.thread < segmentCount
    · simp only [if_pos hk] at h
      cases h
      exact .writes p hp hk
    · simp only [if_neg hk] at h
      obtain ⟨s, hs, rfl⟩ := Option.map_eq_some_iff.mp h
      exact .returns p s hs hp hk

theorem Writing.reachable_manager {b : Board} {setup : Int} {w : Writing}
    (h : Runs.Reachable (· = Writing.start b setup) Writing.step w) : Reachable w.manager := by
  refine h.map Writing.manager ?_ ?_
  · rintro _ rfl
    rfl
  · intro w a v hstep
    cases Writing.step_branch hstep with
    | goes hs => exact .inr ⟨a, hs⟩
    | writes => exact .inl rfl
    | returns p s hs => exact .inr ⟨a, hs⟩

/-! ## No call overtakes the other -/

def Board.Begins (b : Board) (p : Plugin) (done : Nat) : Prop :=
  ∀ j : Fin cellCount, j.val < done → b.plugin.cells j = p.cells j

instance (b : Board) (p : Plugin) (done : Nat) : Decidable (b.Begins p done) :=
  inferInstanceAs (Decidable (∀ j : Fin cellCount, j.val < done → b.plugin.cells j = p.cells j))

/-- A thread may take a cell that the other one is about to take as well if the cells before it are as
the other one writes them. -/
def InOrder (w : Writing) (a : Action) : Prop :=
  ∀ p ∈ w.manager.call a.thread.other, w.done a.thread.other = w.done a.thread →
    w.board.Begins p (w.done a.thread)

instance (w : Writing) (a : Action) : Decidable (InOrder w a) :=
  inferInstanceAs (Decidable (∀ p ∈ w.manager.call a.thread.other,
    w.done a.thread.other = w.done a.thread → w.board.Begins p (w.done a.thread)))

def Plugin.pass (p : Plugin) (done : Nat) : Passes.Pass cellCount Cell := ⟨p.cells, done⟩

def Writing.pass (w : Writing) (x : Thread) : Option (Passes.Pass cellCount Cell) :=
  (w.manager.call x).map fun p => p.pass (w.done x)

structure Writing.Tidy (w : Writing) : Prop where
  done_le : ∀ x, w.done x ≤ segmentCount
  idle : ∀ x, w.manager.call x = none → w.done x = 0
  ordered : ∀ x, Passes.Ordered w.manager.plugin.cells w.board.plugin.cells (w.pass x) (w.pass x.other)

theorem Writing.start_tidy (b : Board) {setup : Int} (h : setup ≠ -1) :
    (Writing.start b setup).Tidy := by
  refine ⟨fun _ => Nat.zero_le _, fun _ _ => rfl, ?_⟩
  intro x
  have hcells := congrArg Plugin.cells (b.segmentInit_plugin h)
  have hnone : ∀ x, (Writing.start b setup).pass x = none := by
    intro x
    cases x <;> rfl
  rw [hnone, hnone]
  exact .inl ⟨hcells, fun p hp => absurd hp (Option.not_mem_none p)⟩

theorem Writing.Tidy.of_thread {w v : Writing} (h : w.Tidy) (x : Thread)
    (hdone : v.done x.other = w.done x.other)
    (hcall : v.manager.call x.other = w.manager.call x.other) (hle : v.done x ≤ segmentCount)
    (hidle : v.manager.call x = none → v.done x = 0)
    (hordered : Passes.Ordered v.manager.plugin.cells v.board.plugin.cells (v.pass x) (w.pass x.other)) :
    v.Tidy := by
  have hpass : v.pass x.other = w.pass x.other := by
    rw [Writing.pass, Writing.pass, hdone, hcall]
  rw [← hpass] at hordered
  refine ⟨?_, ?_, ?_⟩
  · intro y
    rcases y.eq_or_other x with rfl | rfl
    · exact hle
    · rw [hdone]
      exact h.done_le _
  · intro y hy
    rcases y.eq_or_other x with rfl | rfl
    · exact hidle hy
    · rw [hdone]
      exact h.idle _ (hcall ▸ hy)
  · intro y
    rcases y.eq_or_other x with rfl | rfl
    · exact hordered
    · rw [x.other_other]
      exact hordered.symm

theorem Writing.Tidy.goes {w : Writing} (h : w.Tidy) {a : Action} {s : State}
    (hs : Segment.step w.manager a = some s) (hsilent : w.manager.writes a = none) :
    Writing.Tidy { w with manager := s } := by
  have hplugin : s.plugin = w.manager.plugin := by
    rw [(step_leaves hs).plugin, hsilent]
    rfl
  have hidle := silent_idle hs hsilent
  have hdone := h.idle a.thread hidle
  refine h.of_thread a.thread rfl (step_other hs) (h.done_le _) (fun _ => hdone) ?_
  have hordered := h.ordered a.thread
  rw [Writing.pass, hidle, ← hplugin] at hordered
  rw [Writing.pass, hdone]
  show Passes.Ordered s.plugin.cells _ ((s.call a.thread).map fun p => p.pass 0) _
  cases s.call a.thread with
  | none => exact hordered
  | some p => exact hordered.start p.cells

theorem Writing.Tidy.ordered_write {w : Writing} (h : w.Tidy) {a : Action} {p : Plugin}
    (horder : InOrder w a) (hp : w.manager.writes a = some p) :
    Passes.Ordered w.manager.plugin.cells (w.board.write p (w.done a.thread)).plugin.cells
      (some (p.pass (w.done a.thread + 1))) (w.pass a.thread.other) := by
  have hk : w.done a.thread < cellCount := Nat.lt_succ_of_le (h.done_le a.thread)
  have hordered := h.ordered a.thread
  rw [Writing.pass, (State.eq_calls hp).2] at hordered
  rw [w.board.write_cells p hk]
  refine Passes.Ordered.write hordered hk ?_
  intro q hq htie
  obtain ⟨r, hr, rfl⟩ := Option.map_eq_some_iff.mp hq
  exact horder r hr htie

theorem Writing.Tidy.step {w v : Writing} {a : Action} (h : w.Tidy) (horder : InOrder w a)
    (hstep : w.step a = some v) : v.Tidy := by
  cases Writing.step_branch hstep with
  | goes hs hsilent => exact h.goes hs hsilent
  | writes p hp hk =>
    have hcall := (State.eq_calls hp).2
    have hdone : Function.update w.done a.thread (w.done a.thread + 1) a.thread = w.done a.thread + 1 :=
      Function.update_self _ _ _
    refine h.of_thread a.thread (Function.update_of_ne a.thread.other_ne _ _) rfl (hdone.trans_le hk)
      (fun hnone => absurd (hcall.symm.trans hnone) (Option.some_ne_none p)) ?_
    rw [Writing.pass]
    dsimp only
    rw [hdone, hcall]
    exact h.ordered_write horder hp
  | returns p s hs hp hk =>
    obtain ⟨ha, hcall⟩ := State.eq_calls hp
    have hplugin : s.plugin = p := by
      rw [(step_leaves hs).plugin, hp]
      rfl
    have hidle : s.call a.thread = none := step_returns (ha ▸ hs) hcall
    have hdone : Function.update w.done a.thread 0 a.thread = 0 := Function.update_self _ _ _
    refine h.of_thread a.thread (Function.update_of_ne a.thread.other_ne _ _) (step_other hs)
      (hdone.trans_le (Nat.zero_le _)) (fun _ => hdone) ?_
    have hend : w.done a.thread + 1 = cellCount :=
      congrArg Nat.succ (Nat.le_antisymm (h.done_le a.thread) (Nat.not_lt.mp hk))
    have hordered := h.ordered_write horder hp
    rw [hend] at hordered
    rw [Writing.pass]
    dsimp only
    rw [hidle, hplugin]
    refine Passes.Ordered.finish hordered ?_
    intro q hq
    obtain ⟨r, -, rfl⟩ := Option.map_eq_some_iff.mp hq
    exact Nat.lt_succ_of_le (h.done_le a.thread.other)

theorem Writing.Tidy.settled {w : Writing} (h : w.Tidy) (hdone : ∀ x, w.done x = 0) :
    w.board.plugin = w.manager.plugin := by
  apply Plugin.cells_injective
  have hidle : ∀ x, ∀ q ∈ w.pass x, q.done = 0 := by
    intro x q hq
    obtain ⟨p, -, rfl⟩ := Option.map_eq_some_iff.mp hq
    exact hdone x
  exact (h.ordered .refresh).idle (hidle _) (hidle _)

theorem Writing.tidy {b : Board} {setup : Int} (hsetup : setup ≠ -1) {w : Writing}
    (h : Runs.Reachable (· = Writing.start b setup) (Runs.guarded InOrder Writing.step) w) : w.Tidy := by
  refine h.invariant ?_ ?_
  · rintro _ rfl
    exact Writing.start_tidy b hsetup
  · intro w a v ih hstep
    obtain ⟨horder, hstep⟩ := Runs.guarded_eq_some.mp hstep
    exact ih.step horder hstep

/-! ## Atomic calls -/

def Writing.CallsAtomic (w : Writing) : Prop :=
  (∀ x, w.done x = 0) → w.board.plugin ∈ completed w.manager.log

theorem Writing.idle_of {w : Writing} (hrefresh : w.done .refresh = 0) (hloop : w.done .eventLoop = 0)
    (x : Thread) : w.done x = 0 := by
  cases x with
  | refresh => exact hrefresh
  | eventLoop => exact hloop

theorem Writing.step_writes {w : Writing} {x : Thread} {p : Plugin} (hp : w.manager.call x = some p)
    (hk : w.done x < segmentCount) :
    w.step x.calls =
      some ⟨w.manager, w.board.write p (w.done x), Function.update w.done x (w.done x + 1)⟩ := by
  rw [Writing.step, State.writes_calls, hp, Thread.thread_calls]
  exact if_pos hk

theorem Writing.step_returns {w : Writing} {x : Thread} {p : Plugin} {s : State}
    (hp : w.manager.call x = some p) (hk : ¬w.done x < segmentCount)
    (hs : Segment.step w.manager x.calls = some s) :
    w.step x.calls = some ⟨s, w.board.write p (w.done x), Function.update w.done x 0⟩ := by
  rw [Writing.step, State.writes_calls, hp, Thread.thread_calls, hs]
  exact if_neg hk

theorem Board.write_rest (b : Board) (p : Plugin) {k : Nat} (hk : k ≤ segmentCount) :
    Passes.rest p.cells (k + 1) (b.write p k).plugin.cells = Passes.rest p.cells k b.plugin.cells := by
  rw [b.write_cells p (Nat.lt_succ_of_le hk)]
  exact Passes.rest_update (Nat.lt_succ_of_le hk) b.plugin.cells

theorem Writing.finishes {x : Thread} {p : Plugin} (m : Nat) {w : Writing}
    (hp : w.manager.call x = some p) (hm : w.done x + m = segmentCount) :
    ∃ v, Runs.run Writing.step w (List.replicate (m + 1) x.calls) = some v ∧
      v.manager.call x.other = w.manager.call x.other ∧
      v.done x = 0 ∧ v.done x.other = w.done x.other ∧
      v.board.plugin.cells = Passes.rest p.cells (w.done x) w.board.plugin.cells := by
  -- on the segments that are left to write
  induction m generalizing w with
  | zero =>
    obtain ⟨s, hs⟩ := call_enabled hp
    have hend : ¬w.done x < segmentCount := by omega
    have hother := step_other hs
    rw [x.thread_calls] at hother
    refine ⟨⟨s, w.board.write p (w.done x), Function.update w.done x 0⟩, ?_, hother,
      Function.update_self _ _ _, Function.update_of_ne x.other_ne _ _, ?_⟩
    · rw [List.replicate_one, Runs.run_cons, Writing.step_returns hp hend hs]
      rfl
    · have hcells := w.board.write_rest p (Nat.le_of_eq hm)
      have hlast : w.done x + 1 = cellCount := congrArg Nat.succ hm
      rw [hlast, Passes.rest_end] at hcells
      exact hcells
  | succ m ih =>
    have hlt : w.done x < segmentCount := by omega
    let v : Writing := ⟨w.manager, w.board.write p (w.done x), Function.update w.done x (w.done x + 1)⟩
    have hdone : v.done x = w.done x + 1 := Function.update_self _ _ _
    have hother : v.done x.other = w.done x.other := Function.update_of_ne x.other_ne _ _
    obtain ⟨u, hrun, hcall, hzero, hkept, hrest⟩ := ih (w := v) hp (by omega)
    refine ⟨u, ?_, hcall, hzero, hkept.trans hother, ?_⟩
    · rw [List.replicate_succ, Runs.run_cons, Writing.step_writes hp hlt]
      exact hrun
    · rw [hrest, hdone]
      exact w.board.write_rest p (Nat.le_of_lt hlt)

def Plugin.Written (p : Plugin) : Prop := p = segmentClear ∨ ∃ value, p = segmentDigit value

theorem displayWrites_written {value : Int} {p : Plugin} (h : displayWrites value = some p) :
    p.Written := by
  unfold displayWrites at h
  split at h <;> cases h
  exact .inr ⟨value, rfl⟩

theorem State.call_written {s : State} {x : Thread} {p : Plugin} (h : s.call x = some p) :
    p.Written := by
  cases x with
  | refresh =>
    have hpc : s.refresh.writes = some p := h
    cases hrefresh : s.refresh <;> rw [hrefresh] at hpc
    case showing => exact displayWrites_written hpc
    case blank | expire | leave => exact .inl (Option.some.inj hpc).symm
    all_goals cases hpc
  | eventLoop =>
    have hpc : s.caller.writes = some p := h
    cases hcaller : s.caller <;> rw [hcaller] at hpc
    case clearing => exact .inl (Option.some.inj hpc).symm
    all_goals cases hpc

theorem completed_written {log : List Event} {p : Plugin} (h : p ∈ completed log) : p.Written := by
  rcases List.mem_append.mp h with h | h
  · obtain ⟨e, -, he⟩ := List.mem_filterMap.mp h
    cases e with
    | display value => exact displayWrites_written he
    | clear | cleared => exact .inl (Option.some.inj he).symm
    | _ => cases he
  · exact .inl (List.mem_singleton.mp h)

theorem Plugin.Written.eq_of_cache {p q : Plugin} (hp : p.Written) (hq : q.Written)
    (henabled : p.segmentEnabled = q.segmentEnabled) (hvalue : p.segmentValue = q.segmentValue) :
    p = q := by
  rcases hp with rfl | ⟨v, rfl⟩ <;> rcases hq with rfl | ⟨u, rfl⟩
  · rfl
  · cases henabled
  · cases henabled
  · exact congrArg segmentDigit hvalue

theorem Writing.both_finish {w : Writing} {x : Thread} {p q : Plugin} (m : Nat)
    (hm : w.done x + m = segmentCount) (hp : w.manager.call x = some p)
    (hq : w.manager.call x.other = some q) (htie : w.done x.other = w.done x) :
    ∃ u, Runs.run Writing.step w
        (List.replicate (m + 1) x.calls ++ List.replicate (m + 1) x.other.calls) = some u ∧
      (∀ y, u.done y = 0) ∧
      u.board.plugin.cells = Passes.rest q.cells (w.done x) w.board.plugin.cells := by
  obtain ⟨v, hrun, hcall, hzero, hkept, hcells⟩ := Writing.finishes m hp hm
  have htiev : v.done x.other = w.done x := hkept.trans htie
  obtain ⟨u, hrunu, -, hzerou, hkeptu, hcellsu⟩ :=
    Writing.finishes m (hcall.trans hq) ((congrArg (· + m) htiev).trans hm)
  rw [x.other_other] at hkeptu
  refine ⟨u, ?_, ?_, ?_⟩
  · rw [Runs.run_append, hrun]
    exact hrunu
  · intro y
    rcases y.eq_or_other x with rfl | rfl
    · exact hkeptu.trans hzero
    · exact hzerou
  · rw [hcellsu, htiev, hcells]
    exact Passes.rest_rest p.cells q.cells w.board.plugin.cells (w.done x)

theorem Writing.mixed {u : Writing} {q : Plugin} {k : Nat} {cells : Fin cellCount → Cell}
    (hidle : ∀ y, u.done y = 0) (hq : q.Written) (hk : k ≤ segmentCount)
    (hcells : u.board.plugin.cells = Passes.rest q.cells k cells) {j : Fin cellCount}
    (hj : j.val < k) (hne : cells j ≠ q.cells j) : ¬u.CallsAtomic := by
  intro hatomic
  have hlast : u.board.plugin.cells ⟨segmentCount, Nat.lt_succ_self segmentCount⟩ =
      q.cells ⟨segmentCount, Nat.lt_succ_self segmentCount⟩ := by
    rw [hcells]
    exact if_neg (Nat.not_lt.mpr hk)
  obtain ⟨henabled, hvalue⟩ := Cell.cache.inj hlast
  have heq : u.board.plugin = q :=
    (completed_written (hatomic hidle)).eq_of_cache hq henabled hvalue
  apply hne
  rw [← heq, hcells]
  exact (if_pos hj).symm

/-- A step out of order may end in a mixture: its call returns first, and then the other one, which
writes over the later cells only. -/
theorem Writing.Tidy.overtaken {w v : Writing} (h : w.Tidy) {a : Action} (hstep : w.step a = some v)
    (horder : ¬InOrder w a) :
    ∃ as u, Runs.run Writing.step v as = some u ∧ ¬u.CallsAtomic := by
  simp only [InOrder, Board.Begins, not_forall] at horder
  obtain ⟨q, hq, htie, j, hj, hne⟩ := horder
  have hwrites : w.manager.writes a ≠ none := by
    intro hsilent
    cases Writing.step_branch hstep with
    | goes hs =>
      rw [h.idle a.thread (silent_idle hs hsilent)] at hj
      exact Nat.not_lt_zero _ hj
    | writes p hp => exact Option.some_ne_none p (hp.symm.trans hsilent)
    | returns p s hs hp => exact Option.some_ne_none p (hp.symm.trans hsilent)
  obtain ⟨p, hp⟩ := Option.ne_none_iff_exists'.mp hwrites
  obtain ⟨ha, hcall⟩ := State.eq_calls hp
  obtain ⟨m, hm⟩ := Nat.exists_eq_add_of_le (h.done_le a.thread)
  obtain ⟨u, hrun, hidle, hcells⟩ := Writing.both_finish m hm.symm hcall hq htie
  rw [← ha, List.replicate_succ, List.cons_append, Runs.run_cons, hstep] at hrun
  exact ⟨_, u, hrun, Writing.mixed hidle (State.call_written hq) (h.done_le a.thread) hcells hj hne⟩

/-- The plugin calls of a run in which none overtakes the other are atomic; and after a step with which
one does, the run may go on to a mixture. -/
theorem plugin_calls_atomic (b : Board) {setup : Int} (hsetup : setup ≠ -1) {w : Writing}
    (h : Runs.Reachable (· = Writing.start b setup) (Runs.guarded InOrder Writing.step) w) :
    w.CallsAtomic ∧ ∀ a v, w.step a = some v → ¬InOrder w a →
      ∃ as u, Runs.run Writing.step v as = some u ∧ ¬u.CallsAtomic := by
  have htidy := Writing.tidy hsetup h
  refine ⟨?_, fun a v hstep horder => htidy.overtaken hstep horder⟩
  intro hdone
  rw [htidy.settled hdone]
  exact List.mem_of_head? (Reachable.last_completed (Writing.reachable_manager h.of_guarded))

/-- `plugins.segment.clear()` of the event-loop thread follows `display(0)` of the refresh thread over
the pins. -/
theorem plugin_calls_atomic_following :
    ∃ w, Runs.Reachable (· = Writing.start boardOff 0) (Runs.guarded InOrder Writing.step) w ∧
      ((∀ x, w.done x = 0) ∧ w.manager.log = [.cleared, .display 0, .accept 0]) ∧ w.CallsAtomic := by
  have hstart : Runs.Reachable (· = Writing.start boardOff 0) (Runs.guarded InOrder Writing.step)
      (Writing.start boardOff 0) := .start rfl
  obtain ⟨w, hw, hrun⟩ := hstart.exists_of_run
    ([.displayCall 0, .refresh] ++ List.replicate 4 .refresh ++ [.clearCall, .clearPlugin, .clearPlugin] ++
      List.replicate 5 .refresh ++ List.replicate 7 .clearPlugin)
    (fun w => decide (w.done .refresh = 0 ∧ w.done .eventLoop = 0 ∧
      w.manager.log = [.cleared, .display 0, .accept 0]))
    (by decide +kernel)
  obtain ⟨hrefresh, hloop, hlog⟩ := of_decide_eq_true hrun
  exact ⟨w, hw, ⟨Writing.idle_of hrefresh hloop, hlog⟩, (plugin_calls_atomic boardOff (by decide) hw).1⟩

/-- `display(0)` has written four pins when `plugins.segment.clear()` of the event-loop thread overtakes
it. -/
theorem overtaken_call_mixes :
    ∃ w, Runs.Reachable (· = Writing.start boardOff 0) Writing.step w ∧ ¬w.CallsAtomic := by
  have hstart : Runs.Reachable (· = Writing.start boardOff 0) Writing.step
      (Writing.start boardOff 0) := .start rfl
  obtain ⟨w, hw, hrun⟩ := hstart.exists_of_run
    ([.displayCall 0, .refresh] ++ List.replicate 4 .refresh ++ [.clearCall] ++
      List.replicate 9 .clearPlugin ++ List.replicate 5 .refresh)
    (fun w => decide (w.done .refresh = 0 ∧ w.done .eventLoop = 0 ∧
      ∀ p ∈ completed w.manager.log, ∃ k, w.board.plugin.cells k ≠ p.cells k))
    (by decide +kernel)
  obtain ⟨hrefresh, hloop, hmixed⟩ := of_decide_eq_true hrun
  refine ⟨w, hw, ?_⟩
  intro hatomic
  obtain ⟨k, hk⟩ := hmixed _ (hatomic (Writing.idle_of hrefresh hloop))
  exact hk rfl

end RemoteDevice.Segment
