import RemoteDevice.Lifecycle.Ledger

/-! Between two calls the device manager holds everything or nothing. `Config` says what it holds;
every operation of the model changes one part of it, and every failure is unwound to the empty
configuration. -/

namespace RemoteDevice.Lifecycle
open Function (update)
open Manager (PluginId WorkerId)
open Attempt (Meets andThen inOrder within)

structure Config where
  initialized : Bool
  /-- How far each plugin has come; `none` is a plugin that is not open. -/
  stage : PluginId → Option Stage
  up : WorkerId → Bool
  refreshing : Bool

def Config.setStage (c : Config) (p : PluginId) (x : Option Stage) : Config :=
  { c with stage := update c.stage p x }

def Config.setUp (c : Config) (w : WorkerId) (b : Bool) : Config := { c with up := update c.up w b }

@[simp] theorem Config.setStage_self (c : Config) (p : PluginId) (x : Option Stage) :
    (c.setStage p x).stage p = x := Function.update_self ..

@[simp] theorem Config.setStage_of_ne {p q : PluginId} (h : q ≠ p) (c : Config) (x : Option Stage) :
    (c.setStage p x).stage q = c.stage q := Function.update_of_ne h ..

theorem Config.setStage_eq_self {c : Config} {p : PluginId} {x : Option Stage}
    (h : c.stage p = x) : c.setStage p x = c := by
  subst h
  unfold Config.setStage
  rw [Function.update_eq_self]

structure DeviceWorker.Is (x : DeviceWorker) (up : Bool) : Prop where
  started : x.started = up
  locks : x.locks = up.toNat
  conds : x.conds = up.toNat
  threads : x.threads = up.toNat
  running : up = true → x.running = true

structure SegmentThread.Is (x : SegmentThread) (refreshing : Bool) : Prop where
  started : x.started = refreshing
  running : x.running = refreshing
  threads : x.threads = refreshing.toNat
  blank : refreshing = true → x.countdownEnabled = false ∧ x.countdownValue = 0

def State.Holds (s : State) (p : PluginId) : Option Stage → Prop
  | none => (s.plugins p).handle = none ∧ ledger p s.log = some none
  | some stage => ∃ h, (s.plugins p).handle = some h ∧ ledger p s.log = some (some (h, stage))

structure State.At (s : State) (c : Config) : Prop where
  initialized : s.initialized = c.initialized
  holds : ∀ p, s.Holds p (c.stage p)
  worker : ∀ w, (s.worker w).Is (c.up w)
  segment : s.segment.Is c.refreshing

variable {o : Outcomes} {s : State} {c : Config}

/-! ## One plugin -/

theorem State.Holds.of_eq {t : State} {p : PluginId} {x : Option Stage} (h : s.Holds p x)
    (hh : (t.plugins p).handle = (s.plugins p).handle) (hl : ledger p t.log = ledger p s.log) :
    t.Holds p x := by
  cases x with
  | none => exact ⟨hh.trans h.1, hl.trans h.2⟩
  | some stage =>
    obtain ⟨hd, hhandle, hledger⟩ := h
    exact ⟨hd, hh.trans hhandle, hl.trans hledger⟩

theorem State.At.plugin {t : State} {p : PluginId} {x : Option Stage} (h : s.At c)
    (hp : t.Holds p x) (hq : ∀ q, q ≠ p → (t.plugins q).handle = (s.plugins q).handle ∧
      ledger q t.log = ledger q s.log)
    (hi : t.initialized = s.initialized) (hw : t.worker = s.worker)
    (hs : t.segment = s.segment) : t.At (c.setStage p x) where
  initialized := hi.trans h.initialized
  holds q := by
    by_cases hqp : q = p
    · subst hqp
      rw [Config.setStage_self]
      exact hp
    · have hsame := hq q hqp
      rw [Config.setStage_of_ne hqp]
      exact (h.holds q).of_eq hsame.1 hsame.2
  worker w := hw ▸ h.worker w
  segment := hs ▸ h.segment

theorem State.At.note {p : PluginId} {e : Note} {stage stage' : Stage} (h : s.At c)
    (hp : c.stage p = some stage)
    (he : ∀ hd, Ledger.step (some (hd, stage)) e = some (some (hd, stage'))) :
    (s.note p e).At (c.setStage p (some stage')) := by
  have hholds := h.holds p
  rw [hp] at hholds
  obtain ⟨hd, hhandle, hledger⟩ := hholds
  refine h.plugin ⟨hd, hhandle, ?_⟩ (fun q hq => ⟨rfl, ledger_append_of_ne (Ne.symm hq)⟩) rfl rfl rfl
  have hlast := ledger_append_self p e s.log
  rw [hledger] at hlast
  exact hlast.trans (he hd)

theorem openPlugin_meets (p : PluginId) (name : String) (hp : c.stage p = none) :
    Meets ok (openPlugin o p name) (State.At · c)
      (State.At · (c.setStage p (some .loaded)))
      (fun s => s.At c ∧ pluginLoaderOpen o p name = none) := by
  intro s hs
  have hholds := hs.holds p
  rw [hp] at hholds
  have hother : ∀ q, q ≠ p → ∀ x, ((update s.plugins p x) q).handle = (s.plugins q).handle :=
    fun q hq x => by rw [Function.update_of_ne hq]
  unfold openPlugin
  cases hopen : pluginLoaderOpen o p name with
  | none =>
    refine ⟨?_, rfl⟩
    have hsame := hs.plugin (p := p) (x := none)
      (t := s.setPlugin p { s.plugins p with handle := none })
      ⟨by simp [State.setPlugin], hholds.2⟩ (fun q hq => ⟨hother q hq _, rfl⟩) rfl rfl rfl
    rwa [Config.setStage_eq_self hp] at hsame
  | some h =>
    refine hs.plugin (x := some .loaded) ⟨h, by simp [State.setPlugin, State.note], ?_⟩
      (fun q hq => ⟨hother q hq _, ledger_append_of_ne (Ne.symm hq)⟩) rfl rfl rfl
    have hlast := ledger_append_self p (.opened h) s.log
    rw [hholds.2] at hlast
    exact hlast

theorem pluginLoaderSymbol_meets {p : PluginId} (symbol : String) (hp : (c.stage p).isSome) :
    Meets ok (pluginLoaderSymbol o p symbol) (State.At · c) (State.At · c)
      (fun s => s.At c ∧ o.dlsym p symbol = false) := by
  intro s hs
  obtain ⟨stage, hstage⟩ := Option.isSome_iff_exists.mp hp
  have hholds := hs.holds p
  rw [hstage] at hholds
  obtain ⟨hd, hhandle, hledger⟩ := hholds
  unfold pluginLoaderSymbol
  simp only [hhandle, Option.isSome_some, Bool.true_and]
  cases hsym : o.dlsym p symbol with
  | false => exact ⟨hs, rfl⟩
  | true =>
    have hsame := hs.plugin (p := p) (x := some stage)
      (t := s.setPlugin p { s.plugins p with symbols := (s.plugins p).symbols ++ [symbol] })
      ⟨hd, by simp [State.setPlugin, hhandle], hledger⟩
      (fun q hq => ⟨by simp [State.setPlugin, hq], rfl⟩) rfl rfl rfl
    rw [Config.setStage_eq_self hstage] at hsame
    simpa [hhandle] using hsame

def pluginName : PluginId → String
  | .led => "led"
  | .buzzer => "buzzer"
  | .light => "light"
  | .segment => "segment"

structure Outcomes.Succeeds (o : Outcomes) : Prop where
  dlopen : ∀ p, (pluginLoaderOpen o p (pluginName p)).isSome
  dlsym : ∀ p symbol, o.dlsym p symbol = true
  init : ∀ p, o.init p = ok
  mutexInit : ∀ w, o.mutexInit w = true
  condInit : ∀ w, o.condInit w = true
  workerThread : ∀ w, o.workerThread w = true
  segmentThread : o.segmentThread = true

theorem loadPlugin_meets {p : PluginId} {name : String} (hname : name = pluginName p)
    (symbols : List String) (hp : c.stage p = none) :
    Meets ok (loadPlugin o p name symbols) (State.At · c)
      (State.At · (c.setStage p (some .loaded)))
      (fun s => (∃ x, x ≠ some .live ∧ s.At (c.setStage p x)) ∧ ¬ o.Succeeds) := by
  refine (openPlugin_meets p name hp).andThen ?_ ?_
  · rintro s ⟨hs, hopen⟩
    refine ⟨⟨none, nofun, ?_⟩, fun ho => ?_⟩
    · rwa [Config.setStage_eq_self hp]
    · have hsome := ho.dlopen p
      rw [← hname, hopen] at hsome
      exact absurd hsome (by decide)
  · refine Meets.inOrder fun op hop => ?_
    obtain ⟨symbol, -, rfl⟩ := List.mem_map.mp hop
    refine (pluginLoaderSymbol_meets symbol (by simp)).mono (fun _ hs => hs) (fun _ hs => hs) ?_
    rintro s ⟨hs, hsym⟩
    exact ⟨⟨some .loaded, nofun, hs⟩, fun ho => by simp [ho.dlsym] at hsym⟩

/-! ## All plugins -/

def Config.closed (c : Config) : Config := { c with stage := fun _ => none }

@[simp] theorem Config.closed_setStage (c : Config) (p : PluginId) (x : Option Stage) :
    (c.setStage p x).closed = c.closed := rfl

def Config.NoneLive (c : Config) : Prop := ∀ p, c.stage p ≠ some .live

theorem Config.NoneLive.setStage {p : PluginId} {x : Option Stage} (h : c.NoneLive)
    (hx : x ≠ some .live) : (c.setStage p x).NoneLive := by
  intro q
  by_cases hq : q = p
  · subst hq
    rwa [Config.setStage_self]
  · rw [Config.setStage_of_ne hq]
    exact h q

theorem pluginLoaderClose_at {p : PluginId} (h : s.At c) (hp : c.stage p ≠ some .live) :
    (pluginLoaderClose p s).At (c.setStage p none) := by
  have hholds := h.holds p
  unfold pluginLoaderClose
  cases hstage : c.stage p with
  | none =>
    rw [hstage] at hholds
    rw [hholds.1, Config.setStage_eq_self hstage]
    exact h
  | some stage =>
    rw [hstage] at hholds hp
    obtain ⟨hd, hhandle, hledger⟩ := hholds
    rw [hhandle]
    refine h.plugin ⟨by simp [State.setPlugin], ?_⟩
      (fun q hq => ⟨by simp [State.setPlugin, State.note, hq], ledger_append_of_ne (Ne.symm hq)⟩)
      rfl rfl rfl
    have hlast := ledger_append_self p (.closed hd) s.log
    rw [hledger] at hlast
    have hstep : Ledger.step (some (hd, stage)) (.closed hd) = some none := by
      have hlive : stage ≠ .live := fun heq => hp (congrArg some heq)
      simp [Ledger.step, hlive]
    exact hlast.trans hstep

theorem pluginRegistryClose_at (h : s.At c) (hc : c.NoneLive) :
    (pluginRegistryClose s).At c.closed := by
  have hsegment := hc.setStage (p := .segment) (x := none) nofun
  have hlight := hsegment.setStage (p := .light) (x := none) nofun
  have hbuzzer := hlight.setStage (p := .buzzer) (x := none) nofun
  have h1 := pluginLoaderClose_at h (hc .segment)
  have h2 := pluginLoaderClose_at h1 (hsegment .light)
  have h3 := pluginLoaderClose_at h2 (hlight .buzzer)
  have h4 := pluginLoaderClose_at h3 (hbuzzer .led)
  have hall : (((c.setStage .segment none).setStage .light none).setStage .buzzer none).setStage
      .led none = c.closed := by
    refine Config.mk.injEq .. |>.mpr ⟨rfl, funext fun p => ?_, rfl, rfl⟩
    cases p <;> rfl
  exact hall ▸ h4

theorem pluginRegistryLoad_meets (hc : c = c.closed) :
    Meets ok (pluginRegistryLoad o) (State.At · c)
      (State.At · { c with stage := fun _ => some .loaded }) (fun s => s.At c ∧ ¬ o.Succeeds) := by
  have hstage : c.stage = fun _ => none := congrArg Config.stage hc
  have hlive : c.NoneLive := fun p => by simp [hstage]
  -- the `memset` forgets no handle: none is open
  have hclear : ∀ s : State, s.At c → State.At { s with plugins := fun _ => ⟨none, []⟩ } c := by
    intro s hs
    refine ⟨hs.initialized, fun p => ?_, hs.worker, hs.segment⟩
    have hholds := hs.holds p
    rw [hstage] at hholds ⊢
    exact ⟨rfl, hholds.2⟩
  have hundo : ∀ (c' : Config) p, c'.closed = c → c'.NoneLive → ∀ s : State,
      (∃ x, x ≠ some .live ∧ s.At (c'.setStage p x)) ∧ ¬ o.Succeeds →
        (pluginRegistryClose s).At c ∧ ¬ o.Succeeds := by
    rintro c' p hclosed hlive s ⟨⟨x, hx, hs⟩, ho⟩
    have hclose := pluginRegistryClose_at hs (hlive.setStage hx)
    rw [Config.closed_setStage, hclosed] at hclose
    exact ⟨hclose, ho⟩
  have hled := hlive.setStage (p := .led) (x := some .loaded) nofun
  have hbuzzer := hled.setStage (p := .buzzer) (x := some .loaded) nofun
  have hlight := hbuzzer.setStage (p := .light) (x := some .loaded) nofun
  have hall : (((c.setStage .led (some .loaded)).setStage .buzzer (some .loaded)).setStage .light
      (some .loaded)).setStage .segment (some .loaded) =
      { c with stage := fun _ => some .loaded } := by
    refine Config.mk.injEq .. |>.mpr ⟨rfl, funext fun p => ?_, rfl, rfl⟩
    cases p <;> rfl
  have hload : Meets ok (loadPlugins o) (State.At · c)
      (State.At · { c with stage := fun _ => some .loaded }) (fun s => s.At c ∧ ¬ o.Succeeds) := by
    apply (loadPlugin_meets rfl _ (by rw [hstage])).andThen (hundo _ _ hc.symm hlive)
    refine (loadPlugin_meets rfl _ ?_).andThen (hundo _ _ hc.symm hled) ?_
    · simp [hstage]
    refine (loadPlugin_meets rfl _ ?_).andThen (hundo _ _ hc.symm hbuzzer) ?_
    · simp [hstage]
    refine (loadPlugin_meets rfl _ ?_).andThen (hundo _ _ hc.symm hlight) ?_
    · simp [hstage]
    exact Attempt.meets_pure fun s hs => hall ▸ hs
  exact fun s hs => hload _ (hclear s hs)

theorem initPlugin_meets {p : PluginId} (hp : c.stage p = some .loaded) :
    Meets ok (initPlugin o p) (State.At · c) (State.At · (c.setStage p (some .live)))
      (fun s => s.At (c.setStage p (some .rejected)) ∧ ¬ o.Succeeds) := by
  intro s hs
  unfold initPlugin
  by_cases hok : o.init p = ok
  · rw [if_pos hok]
    exact hs.note hp fun hd => by simp [Ledger.step, hok]
  · rw [if_neg hok]
    exact ⟨hs.note hp fun hd => by simp [Ledger.step, hok], fun ho => hok (ho.init p)⟩

theorem cleanups_at {cleanups : List PluginId} (h : s.At c) (hnodup : cleanups.Nodup)
    (hlive : ∀ p, p ∈ cleanups ↔ c.stage p = some .live) :
    ∃ c', c'.closed = c.closed ∧ c'.NoneLive ∧
      (cleanups.foldl (fun s p => s.note p .cleanup) s).At c' := by
  induction cleanups generalizing s c with
  | nil => exact ⟨c, rfl, fun p hp => absurd ((hlive p).mpr hp) (by simp), h⟩
  | cons p rest ih =>
    obtain ⟨hfresh, hrest⟩ := List.nodup_cons.mp hnodup
    have hp := (hlive p).mp List.mem_cons_self
    have hcleaned : (s.note p .cleanup).At (c.setStage p (some .cleaned)) := h.note hp fun hd => rfl
    refine ih (c := c.setStage p (some .cleaned)) hcleaned hrest fun q => ?_
    by_cases hq : q = p
    · subst hq
      simp [hfresh]
    · rw [Config.setStage_of_ne hq, ← hlive q]
      simp [hq]

theorem unwind_at {cleanups : List PluginId} (h : s.At c) (hnodup : cleanups.Nodup)
    (hlive : ∀ p, p ∈ cleanups ↔ c.stage p = some .live) : (unwind cleanups s).At c.closed := by
  obtain ⟨c', hclosed, hnone, hs⟩ := cleanups_at h hnodup hlive
  have hclose := pluginRegistryClose_at hs hnone
  rwa [hclosed] at hclose

/-! ## The threads -/

theorem create_meets {τ : Type} {succeeds : Bool} {make : τ → τ} {P Q : τ → Prop}
    (h : ∀ x, P x → Q (make x)) :
    Meets ok (create succeeds make) P Q (fun x => P x ∧ succeeds = false) := by
  intro x hx
  unfold create
  cases succeeds with
  | false => exact ⟨hx, rfl⟩
  | true => exact h x hx

structure DeviceWorker.Making (x : DeviceWorker) (locks conds threads : Nat) : Prop where
  started : x.started = false
  running : x.running = true
  locks : x.locks = locks
  conds : x.conds = conds
  threads : x.threads = threads

theorem DeviceWorker.Making.undone {x : DeviceWorker} (h : x.Making 0 0 0) : x.Is false :=
  ⟨h.started, h.locks, h.conds, h.threads, nofun⟩

theorem deviceWorkerStart_meets (w : WorkerId) (name : String) :
    Meets ok (deviceWorkerStart o w name) (DeviceWorker.Is · false) (DeviceWorker.Is · true)
      (fun x => x.Is false ∧ ¬ o.Succeeds) := by
  have hmake : Meets ok (makeWorker o w) (DeviceWorker.Making · 0 0 0) (DeviceWorker.Is · true)
      (fun x => x.Is false ∧ ¬ o.Succeeds) := by
    have hlock : Meets ok (create (o.mutexInit w) fun x => { x with locks := x.locks + 1 })
        (DeviceWorker.Making · 0 0 0) (DeviceWorker.Making · 1 0 0) _ :=
      create_meets fun x hx => ⟨hx.started, hx.running, by simp [hx.locks], hx.conds, hx.threads⟩
    have hcond : Meets ok (create (o.condInit w) fun x => { x with conds := x.conds + 1 })
        (DeviceWorker.Making · 1 0 0) (DeviceWorker.Making · 1 1 0) _ :=
      create_meets fun x hx => ⟨hx.started, hx.running, hx.locks, by simp [hx.conds], hx.threads⟩
    have hthread : Meets ok
        (create (o.workerThread w) fun x => { x with threads := x.threads + 1 })
        (DeviceWorker.Making · 1 1 0) (DeviceWorker.Making · 1 1 1) _ :=
      create_meets fun x hx => ⟨hx.started, hx.running, hx.locks, hx.conds, by simp [hx.threads]⟩
    refine hlock.andThen ?_ (hcond.andThen ?_ (hthread.andThen ?_ ?_))
    · rintro x ⟨hx, hfail⟩
      exact ⟨hx.undone, fun ho => by simp [ho.mutexInit] at hfail⟩
    · rintro x ⟨hx, hfail⟩
      refine ⟨DeviceWorker.Making.undone ⟨hx.started, hx.running, ?_, hx.conds, hx.threads⟩,
        fun ho => by simp [ho.condInit] at hfail⟩
      simp [DeviceWorker.lockDestroy, hx.locks]
    · rintro x ⟨hx, hfail⟩
      refine ⟨DeviceWorker.Making.undone ⟨hx.started, hx.running, ?_, ?_, hx.threads⟩,
        fun ho => by simp [ho.workerThread] at hfail⟩
      · simp [DeviceWorker.lockDestroy, DeviceWorker.condDestroy, hx.locks]
      · simp [DeviceWorker.lockDestroy, DeviceWorker.condDestroy, hx.conds]
    · exact fun x hx => ⟨rfl, hx.locks, hx.conds, hx.threads, fun _ => hx.running⟩
  exact fun x hx => hmake _ ⟨rfl, rfl, hx.locks, hx.conds, hx.threads⟩

theorem deviceWorkerStop_is {x : DeviceWorker} {up : Bool} (h : x.Is up) :
    (deviceWorkerStop x).Is false := by
  unfold deviceWorkerStop
  cases up with
  | false =>
    have hstarted : x.started = false := h.started
    rw [hstarted]
    exact h
  | true =>
    have hstarted : x.started = true := h.started
    rw [hstarted]
    refine ⟨rfl, ?_, ?_, ?_, nofun⟩ <;>
      simp [DeviceWorker.lockDestroy, DeviceWorker.condDestroy, h.locks, h.conds, h.threads]

theorem startSegmentThread_meets :
    Meets ok (startSegmentThread o) (SegmentThread.Is · false) (SegmentThread.Is · true)
      (fun x => x.Is false ∧ ¬ o.Succeeds) := by
  have hmake : Meets ok (makeSegmentThread o)
      (fun x => x.started = false ∧ x.threads = 0 ∧ x.running = true ∧
        x.countdownEnabled = false ∧ x.countdownValue = 0)
      (SegmentThread.Is · true) (fun x => x.Is false ∧ ¬ o.Succeeds) := by
    refine Meets.andThen (M := fun x => x.threads = 1 ∧ x.running = true ∧
      x.countdownEnabled = false ∧ x.countdownValue = 0) (create_meets ?_) ?_ ?_
    · rintro x ⟨-, hthreads, hrest⟩
      exact ⟨by simp [hthreads], hrest⟩
    · rintro x ⟨⟨hstarted, hthreads, -⟩, hfail⟩
      exact ⟨⟨hstarted, rfl, hthreads, nofun⟩, fun ho => by simp [ho.segmentThread] at hfail⟩
    · rintro x ⟨hthreads, hrunning, hblank⟩
      exact ⟨rfl, hrunning, hthreads, fun _ => hblank⟩
  exact fun x hx => hmake _ ⟨hx.started, hx.threads, rfl, rfl, rfl⟩

theorem stopSegmentThread_is {x : SegmentThread} {refreshing : Bool} (h : x.Is refreshing) :
    (stopSegmentThread x).Is false := by
  refine ⟨rfl, rfl, ?_, nofun⟩
  unfold stopSegmentThread
  rw [h.started, h.threads]
  cases refreshing <;> rfl

theorem State.At.setWorker {w : WorkerId} {x : DeviceWorker} {up : Bool} (h : s.At c)
    (hx : x.Is up) : (s.setWorker w x).At (c.setUp w up) where
  initialized := h.initialized
  holds := h.holds
  worker v := by
    by_cases hv : v = w
    · subst hv
      simpa [State.setWorker, Config.setUp] using hx
    · simpa [State.setWorker, Config.setUp, hv] using h.worker v
  segment := h.segment

theorem Config.setUp_eq_self {c : Config} {w : WorkerId} {b : Bool} (h : c.up w = b) :
    c.setUp w b = c := by
  subst h
  simp [Config.setUp]

theorem startWorker_meets {w : WorkerId} {name : String} (hw : c.up w = false) :
    Meets ok (startWorker o w name) (State.At · c) (State.At · (c.setUp w true))
      (fun s => s.At c ∧ ¬ o.Succeeds) := by
  refine (deviceWorkerStart_meets w name).within (fun s hs => hw ▸ hs.worker w)
    (fun s x hs hx => hs.setWorker hx) fun s x hs hx => ⟨?_, hx.2⟩
  have hsame := hs.setWorker (w := w) hx.1
  rwa [Config.setUp_eq_self hw] at hsame

theorem stopWorker_at (w : WorkerId) (h : s.At c) : (stopWorker w s).At (c.setUp w false) :=
  h.setWorker (deviceWorkerStop_is (h.worker w))

theorem stops_at (ws : List WorkerId) (h : s.At c) (hup : ∀ w, c.up w = true → w ∈ ws) :
    (ws.foldl (fun s w => stopWorker w s) s).At { c with up := fun _ => false } := by
  induction ws generalizing s c with
  | nil =>
    have hnone : c.up = fun _ => false := funext fun w => by simpa using hup w
    exact hnone ▸ h
  | cons w ws ih =>
    refine ih (c := c.setUp w false) (stopWorker_at w h) fun v hv => ?_
    by_cases hvw : v = w
    · subst hvw
      simp [Config.setUp] at hv
    · have hmem := hup v (by simpa [Config.setUp, hvw] using hv)
      exact (List.mem_cons.mp hmem).resolve_left hvw

theorem startDeviceWorkers_meets (hup : c.up = fun _ => false) (hr : c.refreshing = false) :
    Meets ok (startDeviceWorkers o) (State.At · c)
      (State.At · { c with up := fun _ => true, refreshing := true })
      (fun s => s.At c ∧ ¬ o.Succeeds) := by
  obtain ⟨i, g, u, r⟩ := c
  obtain rfl : u = fun _ => false := hup
  obtain rfl : r = false := hr
  have hall : ((((⟨i, g, fun _ => false, false⟩ : Config).setUp .led true).setUp .buzzer
      true).setUp .light true) = ⟨i, g, fun _ => true, false⟩ :=
    Config.mk.injEq .. |>.mpr ⟨rfl, rfl, funext fun w => by cases w <;> rfl, rfl⟩
  refine (startWorker_meets rfl).andThen (fun s hs => hs) ?_
  refine (startWorker_meets rfl).andThen ?_ ?_
  · rintro s ⟨hs, ho⟩
    have hstop := stops_at [.led] hs fun w => by cases w <;> simp [Config.setUp]
    exact ⟨hstop, ho⟩
  refine (startWorker_meets rfl).andThen ?_ ?_
  · rintro s ⟨hs, ho⟩
    have hstop := stops_at [.buzzer, .led] hs fun w => by cases w <;> simp [Config.setUp]
    exact ⟨hstop, ho⟩
  have hsegment : Meets ok (within State.segment State.setSegment (startSegmentThread o))
      (State.At · ⟨i, g, fun _ => true, false⟩) (State.At · ⟨i, g, fun _ => true, true⟩)
      (fun s => s.At ⟨i, g, fun _ => true, false⟩ ∧ ¬ o.Succeeds) :=
    startSegmentThread_meets.within (fun s hs => hs.segment)
      (fun s x hs hx => ⟨hs.initialized, hs.holds, hs.worker, hx⟩)
      (fun s x hs hx => ⟨⟨hs.initialized, hs.holds, hs.worker, hx.1⟩, hx.2⟩)
  rw [hall]
  refine hsegment.andThen ?_ (Attempt.meets_pure fun s hs => hs)
  rintro s ⟨hs, ho⟩
  have hstop := stops_at [.light, .buzzer, .led] hs fun w => by cases w <;> simp
  exact ⟨hstop, ho⟩

/-! ## The device manager -/

def Config.nothing : Config := ⟨false, fun _ => none, fun _ => false, false⟩

def Config.everything : Config := ⟨true, fun _ => some .live, fun _ => true, true⟩

theorem initDevices_meets :
    Meets ok (initDevices o) (State.At · .nothing) (State.At · .everything)
      (fun s => s.At .nothing ∧ ¬ o.Succeeds) := by
  have hundo : ∀ (c : Config) (cleanups : List PluginId), c.closed = .nothing → cleanups.Nodup →
      (∀ p, p ∈ cleanups ↔ c.stage p = some .live) → ∀ s : State, s.At c ∧ ¬ o.Succeeds →
        (unwind cleanups s).At .nothing ∧ ¬ o.Succeeds :=
    fun c cleanups hc hnodup hlive s hs => ⟨hc ▸ unwind_at hs.1 hnodup hlive, hs.2⟩
  have hlive : ((((({ Config.nothing with stage := fun _ => some .loaded } : Config).setStage .led
      (some .live)).setStage .buzzer (some .live)).setStage .light (some .live)).setStage .segment
      (some .live)) = ⟨false, fun _ => some .live, fun _ => false, false⟩ :=
    Config.mk.injEq .. |>.mpr ⟨rfl, funext fun p => by cases p <;> rfl, rfl, rfl⟩
  refine (pluginRegistryLoad_meets rfl).andThen (fun s hs => hs) ?_
  refine (initPlugin_meets rfl).andThen (hundo _ _ rfl (by decide) fun p => ?_) ?_
  · cases p <;> simp [Config.setStage]
  refine (initPlugin_meets (by simp)).andThen (hundo _ _ rfl (by decide) fun p => ?_) ?_
  · cases p <;> simp [Config.setStage]
  refine (initPlugin_meets (by simp)).andThen (hundo _ _ rfl (by decide) fun p => ?_) ?_
  · cases p <;> simp [Config.setStage]
  refine (initPlugin_meets (by simp)).andThen (hundo _ _ rfl (by decide) fun p => ?_) ?_
  · cases p <;> simp [Config.setStage]
  rw [hlive]
  refine (startDeviceWorkers_meets rfl rfl).andThen (hundo _ _ rfl (by decide) fun p => ?_) ?_
  · cases p <;> simp
  · exact fun s hs => ⟨rfl, hs.holds, hs.worker, hs.segment⟩

theorem deviceInit_meets :
    Meets ok (deviceInit o) (State.At · .nothing) (State.At · .everything)
      (fun s => s.At .nothing ∧ ¬ o.Succeeds) := by
  intro s hs
  have hflag : s.initialized = false := hs.initialized
  have hinit := initDevices_meets (o := o) s hs
  unfold deviceInit
  rw [hflag]
  exact hinit

theorem stopDeviceWorkers_at (h : s.At ⟨false, fun _ => some .live, fun _ => true, true⟩) :
    (stopDeviceWorkers s).At ⟨false, fun _ => some .live, fun _ => false, false⟩ := by
  have hsegment : (s.setSegment (stopSegmentThread s.segment)).At
      ⟨false, fun _ => some .live, fun _ => true, false⟩ :=
    ⟨h.initialized, h.holds, h.worker, stopSegmentThread_is h.segment⟩
  have hlight := stopWorker_at .light hsegment
  -- the call of `buzzer.off` leaves the plugin live
  have hlive : ∀ {c : Config}, c.stage .buzzer = some .live → ∀ {t : State}, t.At c →
      (if "buzzer_off" ∈ (t.plugins .buzzer).symbols then t.note .buzzer .off else t).At c := by
    intro c hc t ht
    split_ifs
    · have hnote := ht.note (e := .off) hc fun hd => rfl
      rwa [Config.setStage_eq_self hc] at hnote
    · exact ht
  have hoff := hlive rfl hlight
  have hstops := stops_at [.buzzer, .led] hoff fun w => by cases w <;> simp [Config.setUp]
  exact hstops

theorem deviceCleanup_at (h : s.At .everything) : (deviceCleanup s).At .nothing := by
  have hflag : s.initialized = true := h.initialized
  have hdown : State.At { s with initialized := false }
      ⟨false, fun _ => some .live, fun _ => true, true⟩ := ⟨rfl, h.holds, h.worker, h.segment⟩
  have hunwind : (unwind [.segment, .light, .buzzer, .led] (stopDeviceWorkers _)).At .nothing :=
    unwind_at (stopDeviceWorkers_at hdown) (by decide) fun p => by cases p <;> simp
  unfold deviceCleanup
  rw [hflag]
  exact hunwind

def State.Settled (s : State) : Prop := s.At .everything ∨ s.At .nothing

theorem deviceCleanup_settled (h : s.Settled) : (deviceCleanup s).At .nothing := by
  obtain hs | hs := h
  · exact deviceCleanup_at hs
  · have hflag : s.initialized = false := hs.initialized
    have hsame : deviceCleanup s = s := by simp [deviceCleanup, hflag]
    rwa [hsame]

theorem perform_settled (h : s.Settled) (call : Call) : (s.perform call).Settled := by
  cases call with
  | init o =>
    obtain hs | hs := h
    · have hflag : s.initialized = true := hs.initialized
      have hsame : s.perform (.init o) = s := by simp [State.perform, deviceInit, hflag]
      rw [hsame]
      exact .inl hs
    · have hinit := deviceInit_meets (o := o) s hs
      split_ifs at hinit with hok
      · exact .inl hinit
      · exact .inr hinit.1
  | cleanup => exact .inr (deviceCleanup_settled h)

theorem after_settled (calls : List Call) : (after calls).Settled := by
  have hall : ∀ s : State, s.Settled → (calls.foldl State.perform s).Settled := by
    induction calls with
    | nil => exact fun s hs => hs
    | cons call calls ih => exact fun s hs => ih _ (perform_settled hs call)
  refine hall _ (.inr ⟨rfl, fun p => ⟨rfl, rfl⟩, fun w => ⟨rfl, rfl, rfl, rfl, nofun⟩, ?_⟩)
  exact ⟨rfl, rfl, rfl, nofun⟩

/-! ## What the two configurations mean -/

structure State.Up (s : State) : Prop where
  initialized : s.initialized = true
  handles : ∀ p, (s.plugins p).handle.isSome
  inits : ∀ p, (notes p s.log).count (.init ok) = (notes p s.log).count .cleanup + 1
  workers : ∀ w, (s.worker w).started = true ∧ (s.worker w).threads = 1
  segment : s.segment.threads = 1

/-- Nothing is held. After a successful initialisation of a plugin comes its cleanup and then the
close of its handle, with only calls of `off` between, and every cleanup has its initialisation. -/
structure State.Down (s : State) : Prop where
  initialized : s.initialized = false
  handles : ∀ p, (s.plugins p).handle = none
  closes : ∀ p h, (notes p s.log).count (.opened h) = (notes p s.log).count (.closed h)
  balance : ∀ p, (notes p s.log).count (.init ok) = (notes p s.log).count .cleanup
  inits : ∀ p pre post, notes p s.log = pre ++ .init ok :: post →
    ∃ offs h rest, post = offs ++ .cleanup :: .closed h :: rest ∧ ∀ e ∈ offs, e = .off
  cleanups : ∀ p pre post, notes p s.log = pre ++ .cleanup :: post →
    pre.count (.init ok) = pre.count .cleanup + 1
  workers : ∀ w, (s.worker w).started = false ∧ (s.worker w).locks = 0 ∧
    (s.worker w).conds = 0 ∧ (s.worker w).threads = 0
  segment : s.segment.started = false ∧ s.segment.threads = 0

theorem State.At.up (h : s.At .everything) : s.Up where
  initialized := h.initialized
  handles p := by
    obtain ⟨hd, hhandle, -⟩ := h.holds p
    simp [hhandle]
  inits p := by
    obtain ⟨hd, -, hledger⟩ := h.holds p
    have hbalance := accepted_live_balance hledger
    have hlive : Ledger.live (some (hd, .live)) = 1 := rfl
    have hnone : Ledger.live none = 0 := rfl
    omega
  workers w := ⟨(h.worker w).started, (h.worker w).threads⟩
  segment := h.segment.threads

theorem State.At.down (h : s.At .nothing) : s.Down where
  initialized := h.initialized
  handles p := (h.holds p).1
  closes p hd := by
    have hbalance := accepted_open_balance (h := hd) (h.holds p).2
    have hnone : Ledger.isOpen hd none = 0 := rfl
    omega
  balance p := by
    have hbalance := accepted_live_balance (h.holds p).2
    have hnone : Ledger.live none = 0 := rfl
    omega
  inits p pre post heq := by
    have hledger := (h.holds p).2
    unfold ledger at hledger
    rw [heq] at hledger
    obtain ⟨x, -, hx⟩ := accepted_append hledger
    obtain ⟨y, hstep, hrun⟩ := accepted_cons hx
    obtain ⟨hd, rfl⟩ := Ledger.step_init hstep
    obtain ⟨offs, rest, hpost, hoffs⟩ := accepted_live hrun
    exact ⟨offs, hd, rest, hpost, hoffs⟩
  cleanups p pre post heq := by
    have hledger := (h.holds p).2
    unfold ledger at hledger
    rw [heq] at hledger
    obtain ⟨x, hpre, hx⟩ := accepted_append hledger
    obtain ⟨y, hstep, -⟩ := accepted_cons hx
    have hlive := Ledger.step_cleanup hstep
    have hbalance := accepted_live_balance hpre
    have hnone : Ledger.live none = 0 := rfl
    omega
  workers w := ⟨(h.worker w).started, (h.worker w).locks, (h.worker w).conds, (h.worker w).threads⟩
  segment := ⟨h.segment.started, h.segment.threads⟩

/-- After every sequence of calls, whatever the outcomes of the steps in them, all is up or all is
down. A further `device_cleanup` leaves all down. A further `device_init` reports success exactly when
it leaves all up, also after failures before it, leaves all down when it fails, and succeeds when its
steps do. -/
theorem device_lifecycle_all_or_nothing (calls : List Call) :
    ((after calls).Up ∨ (after calls).Down) ∧ (deviceCleanup (after calls)).Down ∧
      ∀ o, ((deviceInit o (after calls)).1 = ok ↔ (deviceInit o (after calls)).2.Up) ∧
        ((deviceInit o (after calls)).1 ≠ ok → (deviceInit o (after calls)).2.Down) ∧
        (o.Succeeds → (deviceInit o (after calls)).1 = ok) := by
  have hsettled := after_settled calls
  refine ⟨hsettled.imp State.At.up State.At.down, (deviceCleanup_settled hsettled).down, fun o => ?_⟩
  obtain hs | hs := hsettled
  · have hflag : (after calls).initialized = true := hs.initialized
    have hsame : deviceInit o (after calls) = (ok, after calls) := by simp [deviceInit, hflag]
    rw [hsame]
    exact ⟨⟨fun _ => hs.up, fun _ => rfl⟩, fun hne => absurd rfl hne, fun _ => rfl⟩
  · have hinit := deviceInit_meets (o := o) _ hs
    split_ifs at hinit with hok
    · exact ⟨⟨fun _ => hinit.up, fun _ => hok⟩, fun hne => absurd hok hne, fun _ => hok⟩
    · have hdown := hinit.1.down
      refine ⟨⟨fun h => absurd h hok, fun h => ?_⟩, fun _ => hdown, fun ho => absurd ho hinit.2⟩
      exact absurd h.initialized (by simp [hdown.initialized])

def Outcomes.withInit (init : PluginId → Int) : Outcomes where
  pluginBaseDir := none
  legacyBaseDir := some ""
  exeDir := some "/opt/server"
  dlopen p i _ := if i = 2 then some (p.ctorIdx + 1) else none
  dlsym _ _ := true
  init := init
  mutexInit _ := true
  condInit _ := true
  workerThread _ := true
  segmentThread := true

/-- A cleanup after a success, a `device_init` in which the segment plugin fails, and then another
one. -/
theorem device_init_retried :
    let failing : Outcomes := .withInit fun p => if p = .segment then -2 else 0
    let calls : List Call := [.init (.withInit fun _ => 0), .cleanup]
    (deviceCleanup (after [.init (.withInit fun _ => 0)])).Down ∧
      (deviceInit failing (after calls)).2.Down ∧
      (deviceInit (.withInit fun _ => 0) (after (calls ++ [.init failing]))).2.Up := by
  intro failing calls
  obtain ⟨-, hcleanup, -⟩ := device_lifecycle_all_or_nothing [.init (.withInit fun _ => 0)]
  obtain ⟨-, -, hfailed⟩ := device_lifecycle_all_or_nothing calls
  obtain ⟨-, -, hretried⟩ := device_lifecycle_all_or_nothing (calls ++ [.init failing])
  obtain ⟨hup, -, hsucceeds⟩ := hretried (.withInit fun _ => 0)
  refine ⟨hcleanup, (hfailed failing).2.1 (by decide), hup.mp (hsucceeds ?_)⟩
  exact
    { dlopen := fun p => by cases p <;> decide
      dlsym := fun _ _ => rfl
      init := fun _ => rfl
      mutexInit := fun _ => rfl
      condInit := fun _ => rfl
      workerThread := fun _ => rfl
      segmentThread := rfl }

/-- A successful `device_init` leaves the flags with which the threads of the manager begin. -/
theorem deviceInit_starts_manager {calls : List Call}
    (hdown : (after calls).initialized = false) (hok : (deviceInit o (after calls)).1 = ok) :
    let s := (deviceInit o (after calls)).2
    s.initialized = Manager.deviceInit.initialized ∧
      (∀ w, (s.worker w).running = (Manager.deviceInit.worker w).running ∧
        (s.worker w).started = (Manager.deviceInit.worker w).started) ∧
      s.segment.running = Manager.deviceInit.seg.running ∧
      s.segment.started = Manager.deviceInit.seg.started ∧
      s.segment.countdownEnabled = Manager.deviceInit.seg.enabled ∧
      s.segment.countdownValue = Manager.deviceInit.seg.value := by
  obtain hs | hs := after_settled calls
  · have htrue := hs.initialized
    exact absurd htrue (by simp [hdown, Config.everything])
  · have hinit := deviceInit_meets (o := o) _ hs
    rw [if_pos hok] at hinit
    have hblank := hinit.segment.blank rfl
    exact ⟨hinit.initialized, fun w => ⟨(hinit.worker w).running rfl, (hinit.worker w).started⟩,
      hinit.segment.running, hinit.segment.started, hblank.1, hblank.2⟩

end RemoteDevice.Lifecycle
