import RemoteDevice.Manager.Service
import RemoteDevice.System.Model

/-! What a step of the server does, and that the manager stays in service: the event-loop thread is
in the manager exactly while `exec_command` is inside a call. -/

namespace RemoteDevice.System
open Manager (Request Serving Job Site Move Rejected)
open Worker (TaskId Place)

variable {π : Type} {w : Led.WiringPi π} {s t : State π} {act : Action}

/-! ## Steps -/

def State.advance (s : State π) (a : Manager.Action) (m : Manager.State) : State π :=
  { s with
    manager := m
    starved := s.starved || starves s.manager a
    ticks := s.ticks + (countsDown s.manager a).toNat }

def State.answer (s : State π) (mallocOk : Bool) (m : Manager.State) (result : Int) : State π :=
  { s.advance (.main mallocOk) m with
    status := observe s
    exec := returnTo s.lightValue (observe s) result s.exec }

def Action.background : Action → Manager.Action
  | .beeper mallocOk => .beeper mallocOk
  | .worker v a => .worker v a
  | .tune x => .tune x
  | _ => .refresh

inductive Effect (w : Led.WiringPi π) (s : State π) : Action → State π → Prop
  | request (text : CText) (hpc : s.exec = .idle) :
      Effect w s (.request text) (s.receive text)
  | reply (text : CText) (hpc : s.exec = .at (.reply text)) : Effect w s .exec (s.reply text)
  | pluginStatus (next : PluginStatus → ExecProgram) (hpc : s.exec = .at (.pluginStatus next)) :
      Effect w s .exec { s with exec := .at (next pluginGetStatus) }
  | enter (p : ExecProgram) (r : Request) (m : Manager.State) (hpc : s.exec = .at p)
      (hr : p.request = some r) (hm : Manager.step s.manager (.request r) = some m) :
      Effect w s .exec { s.advance (.request r) m with exec := .inside p }
  | main (mallocOk : Bool) (m : Manager.State)
      (hm : Manager.step s.manager (.main mallocOk) = some m) (ha : answered m = none) :
      Effect w s (.main mallocOk) { s.advance (.main mallocOk) m with status := observe s }
  | answer (mallocOk : Bool) (m : Manager.State) (result : Int)
      (hm : Manager.step s.manager (.main mallocOk) = some m) (ha : answered m = some result) :
      Effect w s (.main mallocOk) (s.answer mallocOk m result)
  | background (a : Action) (m : Manager.State) (hact : a.background.background = true)
      (hm : Manager.step s.manager a.background = some m) :
      Effect w s a (s.advance a.background m)
  | led (created : Int) (c : TaskId) (r : Int) (l : Led.State π) (m : Manager.State)
      (hl : (s.manager.worker .led).loop = .running c)
      (hr : runLed w ((s.manager.worker .led).heap c) created s.led = some (r, l))
      (hm : Manager.step s.manager (.worker .led (.runReturn r)) = some m) :
      Effect w s (.led created) { s.advance (.worker .led (.runReturn r)) m with led := l }
  | light (reading : Int) (c : TaskId) (r : Int) (l : Light.State) (v : Int)
      (m : Manager.State) (hl : (s.manager.worker .light).loop = .running c)
      (hreading : reading = 0 ∨ reading = 1)
      (hr : runLight ((s.manager.worker .light).heap c) reading s.light = some (r, l, v))
      (hm : Manager.step s.manager (.worker .light (.runReturn r)) = some m) :
      Effect w s (.light reading) { s.advance (.worker .light (.runReturn r)) m with
        light := l
        lightValue := v
        readings := reading :: s.readings }

theorem managerStep_eq {a : Manager.Action} (h : managerStep s a = some t) :
    ∃ m, Manager.step s.manager a = some m ∧ t = s.advance a m := by
  obtain ⟨m, hm, rfl⟩ := Option.map_eq_some_iff.mp h
  exact ⟨m, hm, rfl⟩

theorem mainStep_effect {mallocOk : Bool} (h : mainStep s mallocOk = some t) :
    Effect w s (.main mallocOk) t := by
  obtain ⟨u, hu, ht⟩ := Option.map_eq_some_iff.mp h
  obtain ⟨m, hm, rfl⟩ := managerStep_eq hu
  cases ha : answered m with
  | some result =>
    simp only [State.advance, ha] at ht
    exact ht ▸ .answer mallocOk m result hm ha
  | none =>
    simp only [State.advance, ha] at ht
    exact ht ▸ .main mallocOk m hm ha

theorem execStep_effect (h : execStep s = some t) : Effect w s .exec t := by
  have henter : ∀ {p : ExecProgram}, s.exec = .at p →
      (p.request.bind fun r =>
        (managerStep s (.request r)).map fun t => { t with exec := .inside p }) = some t →
      Effect w s .exec t := by
    intro p hpc hp
    obtain ⟨r, hr, hp⟩ := Option.bind_eq_some_iff.mp hp
    obtain ⟨u, hu, rfl⟩ := Option.map_eq_some_iff.mp hp
    obtain ⟨m, hm, rfl⟩ := managerStep_eq hu
    exact .enter p r m hpc hr hm
  unfold execStep at h
  split at h
  · cases h
  · cases h
  · next text hpc =>
    cases h
    exact .reply text hpc
  · next next hpc =>
    cases h
    exact .pluginStatus next hpc
  · next p _ _ hpc => exact henter hpc h

theorem ledStep_effect {created : Int} (h : ledStep w s created = some t) :
    Effect w s (.led created) t := by
  unfold ledStep at h
  split at h
  · next c hl =>
    obtain ⟨⟨r, l⟩, hr, h⟩ := Option.bind_eq_some_iff.mp h
    obtain ⟨u, hu, rfl⟩ := Option.map_eq_some_iff.mp h
    obtain ⟨m, hm, rfl⟩ := managerStep_eq hu
    exact .led created c r l m hl hr hm
  · cases h

theorem lightStep_effect {reading : Int} (h : lightStep s reading = some t) :
    Effect w s (.light reading) t := by
  unfold lightStep at h
  split at h
  · next c hl =>
    obtain ⟨hreading, h⟩ := Option.ite_none_right_eq_some.mp h
    obtain ⟨⟨r, l, v⟩, hr, h⟩ := Option.bind_eq_some_iff.mp h
    obtain ⟨u, hu, rfl⟩ := Option.map_eq_some_iff.mp h
    obtain ⟨m, hm, rfl⟩ := managerStep_eq hu
    exact .light reading c r l v m hl hreading hr hm
  · cases h

theorem background_of_not_returns {v : Manager.WorkerId} {a : Manager.WorkerAction}
    (h : pluginReturns v a = false) : (Manager.Action.worker v a).background = true := by
  cases a <;> first | rfl | (cases v <;> first | rfl | cases h)

theorem step_effect (h : step w s act = some t) : Effect w s act t := by
  have hmanager : ∀ {a : Manager.Action}, act.background = a → a.background = true →
      managerStep s a = some t → Effect w s act t := by
    rintro a rfl hact ht
    obtain ⟨m, hm, rfl⟩ := managerStep_eq ht
    exact .background act m hact hm
  cases act with
  | request text =>
    simp only [step] at h
    split at h
    · next hpc =>
      cases h
      exact .request text hpc
    · cases h
  | exec => exact execStep_effect h
  | main mallocOk => exact mainStep_effect h
  | beeper | refresh | tune => exact hmanager rfl rfl h
  | worker v a =>
    simp only [step] at h
    split at h
    · cases h
    · next hreturns => exact hmanager rfl (background_of_not_returns (by simpa using hreturns)) h
  | led created => exact ledStep_effect h
  | light reading => exact lightStep_effect h

/-! ## The event-loop thread between `exec_command` and the manager -/

def ExecPc.request : ExecPc → Option Request
  | .inside p => p.request
  | _ => none

structure Attending (s : State π) (x : Option (Job × Place)) : Prop where
  serving : Serving s.manager
  request : s.manager.main.request = s.exec.request
  inside : ∀ p, s.exec = .inside p → p.request.isSome = true
  site : Site s.manager x

def Answered (mallocOk : Bool) (r : Request) (result : Int) : Option (Job × Place) → Prop
  | none => ∀ j, r = .submit j → j.worker ≠ .buzzer → Rejected j mallocOk result
  | some (j, p) =>
    r = .submit j ∧ (p = .settled result ∨ p = .refused result ∧ result ≠ DeviceResult.ok)

inductive Onward (t : State π) : Option (Job × Place) → Option (Job × Place) → Prop
  | same (x : Option (Job × Place)) : Onward t x x
  | begin (j : Job) : Onward t none (some (j, .arriving))
  | next (j : Job) {p q : Place} (hresult : q.result = p.result)
      (hrefused : ∀ r, q = .refused r → p = .refused r ∨ t.starved = true) :
      Onward t (some (j, p)) (some (j, q))

inductive Turn (w : Led.WiringPi π) (s : State π) :
    State π → Option (Job × Place) → Option (Job × Place) → Prop
  | request (text : CText) (hpc : s.exec = .idle) : Turn w s (s.receive text) none none
  | reply (text : CText) (hpc : s.exec = .at (.reply text)) : Turn w s (s.reply text) none none
  | pluginStatus (next : PluginStatus → ExecProgram) (hpc : s.exec = .at (.pluginStatus next)) :
      Turn w s { s with exec := .at (next pluginGetStatus) } none none
  | enter (p : ExecProgram) (r : Request) (m : Manager.State) (hpc : s.exec = .at p)
      (hr : p.request = some r) :
      Turn w s { s.advance (.request r) m with exec := .inside p } none none
  | onward {x y : Option (Job × Place)} (a : Manager.Action) (m : Manager.State) (st : DeviceStatus)
      (h : Onward { s.advance a m with status := st } x y) :
      Turn w s { s.advance a m with status := st } x y
  | answer {x : Option (Job × Place)} (mallocOk : Bool) (m : Manager.State) (p : ExecProgram)
      (r : Request) (result : Int) (hpc : s.exec = .inside p) (hr : p.request = some r)
      (h : Answered mallocOk r result x) (hread : r = .getStatus → s.manager.main = .reading []) :
      Turn w s (s.answer mallocOk m result) x none
  | led (j : Job) (task : Worker.DeviceTask Manager.TaskFn Manager.Cleanup Manager.Context)
      (created : Int) (r : Int) (l : Led.State π) (m : Manager.State) (p : ExecProgram)
      (hpc : s.exec = .inside p) (hj : j.worker = .led) (hrun : task.run = j.args.run)
      (hcontext : task.context = j.args.context) (hr : runLed w task created s.led = some (r, l)) :
      Turn w s { s.advance (.worker .led (.runReturn r)) m with led := l }
        (some (j, .running)) (some (j, .ran r))
  | light (task : Worker.DeviceTask Manager.TaskFn Manager.Cleanup Manager.Context)
      (reading : Int) (r : Int) (l : Light.State) (v : Int) (m : Manager.State) (p : ExecProgram)
      (hpc : s.exec = .inside p) (hreading : reading = 0 ∨ reading = 1)
      (hr : runLight task reading s.light = some (r, l, v)) :
      Turn w s { s.advance (.worker .light (.runReturn r)) m with
        light := l
        lightValue := v
        readings := reading :: s.readings } (some (.lightRead, .running)) (some (.lightRead, .ran r))

theorem ExecPc.request_eq_some {pc : ExecPc} {r : Request} (h : pc.request = some r) :
    ∃ p, pc = .inside p ∧ p.request = some r := by
  cases pc with
  | idle | «at» p => cases h
  | inside p => exact ⟨p, rfl, h⟩

theorem returnTo_at {p : ExecProgram} (h : p.request.isSome = true) (v : Int) (st : DeviceStatus)
    (result : Int) : ∃ q, returnTo v st result (.inside p) = .at q := by
  cases p with
  | reply | pluginStatus => cases h
  | call | lightRead | getStatus => exact ⟨_, rfl⟩

theorem answered_eq {m : Manager.State} {r : Request} {result : Int} {log : List Manager.Entry}
    (hmain : m.main = .idle) (hlog : m.log = .returned r result :: log) :
    answered m = some result := by
  rw [answered, hmain, hlog]

theorem answered_eq_none {m : Manager.State} (h : m.main ≠ .idle) : answered m = none := by
  unfold answered
  split
  · exact absurd ‹_› h
  · rfl

theorem request_ne_cleanup {p : ExecProgram} : p.request ≠ some .cleanup := by
  cases p with
  | call c => cases c <;> exact fun h => by cases h
  | reply | lightRead | getStatus | pluginStatus => exact fun h => by cases h

theorem main_idle {m : Manager.State} (h : m.main.request = none) : m.main = .idle := by
  cases hm : m.main <;> rw [hm] at h <;> first | rfl | cases h

theorem Onward.of_next {m : Manager.State} {j : Job} {c : TaskId} {p q : Place}
    {a : Manager.WorkerAction} (hpc : m.main = .submitting j c) (hnext : Place.Next (m.worker j.worker) c a p q)
    (ha : ∀ r, a ≠ .runReturn r) (ht : starves m (.worker j.worker a) = true → t.starved = true) :
    Onward t (some (j, p)) (some (j, q)) := by
  cases hnext with
  | ran hrun => exact (ha _ hrun).elim
  | within _ hresult hrefused =>
    refine .next j hresult fun r hr => (hrefused r hr).imp_right fun hstarves => ht ?_
    simpa [starves, hpc] using hstarves

theorem background_main {a : Manager.Action} {m m' : Manager.State} (ha : a.background = true)
    (hm : Manager.step m a = some m') : m'.main = m.main := by
  cases Manager.step_effect hm with
  | beeperChecked | beeperSubmit | beeperReturn | refresh | worker | tune => rfl
  | _ => cases ha

theorem main_request {m m' : Manager.State} {mallocOk : Bool}
    (hm : Manager.step m (.main mallocOk) = some m') : ∃ r, m.main.request = some r := by
  refine Option.ne_none_iff_exists'.mp fun hnone => ?_
  rw [Manager.step, Manager.mainStep, main_idle hnone] at hm
  cases hm

theorem answer_returned {m : Manager.State} {r r' : Request} {result result' : Int}
    {log : List Manager.Entry} (h : (m.answer r' result').log = .returned r result :: log) :
    result = result' := by
  cases h
  rfl

variable {x : Option (Job × Place)}

theorem Attending.outside (h : Attending s x) (hpc : s.exec.request = none) :
    x = none ∧ s.manager.main = .idle := by
  have hidle := main_idle (h.request.trans hpc)
  exact ⟨(h.site.rest (by rw [hidle]; exact nofun)).1, hidle⟩

theorem Attending.submitting {j : Job} {p : Place} (h : Attending s (some (j, p))) :
    ∃ c, s.manager.main = .submitting j c := by
  cases h.site with
  | served _ c _ hpc => exact ⟨c, hpc⟩

theorem Attending.alone (h : Attending s x) (hpc : s.exec.request = none)
    (hmanager : t.manager = s.manager) (hexec : t.exec.request = none)
    (hinside : ∀ p, t.exec ≠ .inside p) : Attending t none := by
  obtain ⟨rfl, hidle⟩ := h.outside hpc
  refine ⟨?_, ?_, fun p hp => (hinside p hp).elim, ?_⟩
  · rw [hmanager]
    exact h.serving
  · rw [hmanager, hidle, hexec]
    rfl
  · rw [hmanager]
    exact h.site

theorem Attending.advance {m : Manager.State} {y : Option (Job × Place)} (h : Attending s x)
    (hserving : Serving m) (hsite : Site m y) (hmain : m.main.request = s.manager.main.request)
    (hmanager : t.manager = m) (hexec : t.exec = s.exec) : Attending t y := by
  refine ⟨hmanager ▸ hserving, ?_, fun p hp => h.inside p (hexec ▸ hp), hmanager ▸ hsite⟩
  rw [hmanager, hexec, hmain]
  exact h.request

theorem Attending.enter {p : ExecProgram} {r : Request} {m : Manager.State} (h : Attending s x)
    (hpc : s.exec = .at p) (hr : p.request = some r)
    (hm : Manager.step s.manager (.request r) = some m) :
    ∃ y, Attending { s.advance (.request r) m with exec := .inside p } y ∧
      Turn w s { s.advance (.request r) m with exec := .inside p } x y := by
  obtain ⟨y, hsite, hmove⟩ := h.site.step h.serving hm
  have hserving := h.serving.move hm hmove fun hact => by
    cases hact
    exact request_ne_cleanup hr
  cases hmove with
  | thread hmain hact => cases hact
  | request _ hidle hmain =>
    refine ⟨none, ⟨hserving, ?_, ?_, hsite⟩, .enter p r m hpc hr⟩
    · exact (congrArg Manager.MainPc.request hmain).trans hr.symm
    · rintro q ⟨⟩
      rw [hr]
      rfl

theorem Attending.main {mallocOk : Bool} {m : Manager.State} (h : Attending s x)
    (hm : Manager.step s.manager (.main mallocOk) = some m) (ha : answered m = none) :
    ∃ y, Attending { s.advance (.main mallocOk) m with status := observe s } y ∧
      Turn w s { s.advance (.main mallocOk) m with status := observe s } x y := by
  obtain ⟨y, hsite, hmove⟩ := h.site.step h.serving hm
  have hserving := h.serving.move hm hmove (by rintro ⟨⟩)
  cases hmove with
  | thread hmain hact => cases hact
  | answer r result log hpc hmain hlog => cases ha.symm.trans (answered_eq hmain hlog)
  | finish j p result log hmain hlog => cases ha.symm.trans (answered_eq hmain hlog)
  | onward hidle hmain =>
    exact ⟨none, h.advance hserving hsite hmain rfl rfl, .onward _ m _ (.same none)⟩
  | begin j c hpc hmain =>
    exact ⟨_, h.advance hserving hsite (by rw [hmain, hpc]; rfl) rfl rfl, .onward _ m _ (.begin j)⟩

theorem reading_done {m m' : Manager.State} {mallocOk : Bool}
    (hm : Manager.step m (.main mallocOk) = some m') (hr : m.main.request = some .getStatus)
    (hidle : m'.main = .idle) (hi : m.initialized = true) : m.main = .reading [] := by
  cases Manager.step_effect hm with
  | gotStatus hpc => exact hpc
  | uninitialized r hpc hi' => cases hi'.symm.trans hi
  | join y hpc => cases hpc.symm.trans hidle
  | getStatus => cases hidle
  | read => cases hidle
  | _ => cases hr.symm.trans (congrArg Manager.MainPc.request ‹m.main = _›)

theorem Attending.answer {mallocOk : Bool} {m : Manager.State} {result : Int} (h : Attending s x)
    (hm : Manager.step s.manager (.main mallocOk) = some m) (ha : answered m = some result) :
    ∃ y, Attending (s.answer mallocOk m result) y ∧ Turn w s (s.answer mallocOk m result) x y := by
  obtain ⟨y, hsite, hmove⟩ := h.site.step h.serving hm
  have hserving := h.serving.move hm hmove (by rintro ⟨⟩)
  have hidle : m.main = .idle := by
    by_contra hne
    cases ha.symm.trans (answered_eq_none hne)
  -- whichever call it was, the program goes on behind it
  have hreturn : ∀ {r}, s.manager.main.request = some r → Site m none →
      Answered mallocOk r result x → Attending (s.answer mallocOk m result) none ∧
        Turn w s (s.answer mallocOk m result) x none := by
    intro r hr hsite hanswered
    obtain ⟨p, hpc, hp⟩ := ExecPc.request_eq_some (h.request.symm.trans hr)
    obtain ⟨q, hq⟩ : ∃ q, (s.answer mallocOk m result).exec = .at q := by
      simp only [State.answer, hpc]
      exact returnTo_at (by rw [hp]; rfl) ..
    refine ⟨⟨hserving, ?_, ?_, hsite⟩, .answer mallocOk m p r result hpc hp hanswered ?_⟩
    · rw [hq]
      exact congrArg Manager.MainPc.request hidle
    · rw [hq]
      rintro p' ⟨⟩
    · rintro rfl
      exact reading_done hm hr hidle h.serving.initialized
  cases hmove with
  | thread hmain hact => cases hact
  | onward hne => exact (hne hidle).elim
  | begin j c hpc hmain => cases hidle.symm.trans hmain
  | answer r result' log hpc hmain hlog hjob =>
    cases ha.symm.trans (answered_eq hmain hlog)
    exact ⟨none, hreturn hpc hsite hjob⟩
  | finish j p result' log hmain hlog hp =>
    cases ha.symm.trans (answered_eq hmain hlog)
    obtain ⟨c, hpc⟩ := h.submitting
    exact ⟨none, hreturn (congrArg Manager.MainPc.request hpc) hsite ⟨rfl, hp⟩⟩

theorem Attending.background {a : Manager.Action} {m : Manager.State} (h : Attending s x)
    (hact : a.background = true) (hm : Manager.step s.manager a = some m) :
    ∃ y, Attending (s.advance a m) y ∧ Turn w s (s.advance a m) x y := by
  obtain ⟨y, hsite, hmove⟩ := h.site.step h.serving hm
  have hserving := h.serving.move hm hmove (by rintro rfl; cases hact)
  cases hmove with
  | request | onward | answer | begin | finish => cases hact
  | thread hmain =>
    exact ⟨x, h.advance hserving hsite (by rw [hmain]) rfl rfl, .onward a m s.status (.same x)⟩
  | worker j c p q a hpc hj hmain hnext =>
    refine ⟨_, h.advance hserving hsite (by rw [hmain]) rfl rfl, .onward _ m s.status ?_⟩
    refine .of_next hpc hnext (fun r hr => ?_) fun hstarves => ?_
    · subst hr
      exact hj (of_decide_eq_true hact)
    · simp [State.advance, hstarves]

theorem Attending.running (h : Attending s x) {v : Manager.WorkerId} (hv : v ≠ .buzzer)
    {c : TaskId} (hl : (s.manager.worker v).loop = .running c) :
    ∃ j p, x = some (j, .running) ∧ j.worker = v ∧ s.exec = .inside p ∧
      ((s.manager.worker v).heap c).run = j.args.run ∧
      ((s.manager.worker v).heap c).context = j.args.context := by
  cases h.site with
  -- a worker at rest runs nothing
  | quiet hrest => exact ((hrest v hv).not_running c hl).elim
  | served j d p hpc hj hsolo hargs hrest =>
    by_cases hvj : v = j.worker
    · subst hvj
      obtain ⟨rfl, rfl, hrun, hcontext⟩ := hsolo.running hl
      obtain ⟨q, hq, -⟩ := ExecPc.request_eq_some
        (h.request.symm.trans (congrArg Manager.MainPc.request hpc))
      exact ⟨j, q, rfl, rfl, hq, by rw [hrun, hargs], by rw [hcontext, hargs]⟩
    · exact ((hrest v hv hvj).not_running c hl).elim

theorem Attending.returns (h : Attending s x) {v : Manager.WorkerId} (hv : v ≠ .buzzer)
    {r : Int} {j : Job} (hx : x = some (j, .running)) {m : Manager.State}
    (hm : Manager.step s.manager (.worker v (.runReturn r)) = some m)
    (hmanager : t.manager = m) (hexec : t.exec = s.exec) : Attending t (some (j, .ran r)) := by
  obtain ⟨y, hsite, hmove⟩ := h.site.step h.serving hm
  have hserving := h.serving.move hm hmove (by rintro ⟨⟩)
  subst hx
  generalize hact : Manager.Action.worker v (.runReturn r) = act at hmove
  cases hmove with
  | thread hmain hquiet =>
    subst hact
    exact (hv (of_decide_eq_true hquiet)).elim
  | finish => cases hact
  | worker j c p q a hpc hj hmain hnext =>
    cases hact
    cases hnext with
    -- the step is the return itself
    | within hne => exact (hne r rfl).elim
    | ran hrun =>
      cases hrun
      exact h.advance hserving hsite (by rw [hmain]) hmanager hexec

theorem Attending.turn (h : Attending s x) (he : Effect w s act t) :
    ∃ y, Attending t y ∧ Turn w s t x y := by
  cases he with
  | request text hpc =>
    have hnone : s.exec.request = none := by rw [hpc]; rfl
    obtain ⟨rfl, -⟩ := h.outside hnone
    exact ⟨none, h.alone hnone rfl rfl (by rintro p ⟨⟩), .request text hpc⟩
  | reply text hpc =>
    have hnone : s.exec.request = none := by rw [hpc]; rfl
    obtain ⟨rfl, -⟩ := h.outside hnone
    exact ⟨none, h.alone hnone rfl rfl (by rintro p ⟨⟩), .reply text hpc⟩
  | pluginStatus next hpc =>
    have hnone : s.exec.request = none := by rw [hpc]; rfl
    obtain ⟨rfl, -⟩ := h.outside hnone
    exact ⟨none, h.alone hnone rfl rfl (by rintro p ⟨⟩), .pluginStatus next hpc⟩
  | enter p r m hpc hr hm => exact h.enter hpc hr hm
  | main mallocOk m hm ha => exact h.main hm ha
  | answer mallocOk m result hm ha => exact h.answer hm ha
  | background a m hact hm => exact h.background hact hm
  | led created c r l m hl hr hm =>
    obtain ⟨j, p, rfl, hj, hpc, hrun, hcontext⟩ := h.running (by rintro ⟨⟩) hl
    exact ⟨_, h.returns (by rintro ⟨⟩) rfl hm rfl rfl,
      .led j _ created r l m p hpc hj hrun hcontext hr⟩
  | light reading c r l v m hl hreading hr hm =>
    obtain ⟨j, p, rfl, hj, hpc, hrun, hcontext⟩ := h.running (by rintro ⟨⟩) hl
    obtain rfl : j = .lightRead := by cases j <;> first | rfl | cases hj
    exact ⟨_, h.returns (by rintro ⟨⟩) rfl hm rfl rfl, .light _ reading r l v m p hpc hreading hr⟩

theorem attending_deviceInit (pin : π) : Attending (deviceInit w pin) none :=
  ⟨Manager.serving_deviceInit, rfl, by rintro p ⟨⟩, Manager.site_deviceInit⟩

theorem Reachable.attending (h : Reachable w s) : ∃ x, Attending s x := by
  refine h.invariant (P := fun s => ∃ x, Attending s x) ?_ ?_
  · rintro _ ⟨pin, -, rfl⟩
    exact ⟨none, attending_deviceInit pin⟩
  · rintro s a t ⟨x, hx⟩ hs
    obtain ⟨y, hy, -⟩ := hx.turn (step_effect hs)
    exact ⟨y, hy⟩

end RemoteDevice.System
