import RemoteDevice.System.Service

/-! The lamp and the light sensor as the clients see them: a switch and a last reading. Every reply
of the server is one of this machine, whatever the threads do meanwhile. -/

namespace RemoteDevice.System
open CText
open Manager (Request Job)
open Worker (Place)

/-! ## The abstract machine -/

structure Lamp where
  on : Bool := false
  reading : Int := -1
  deriving DecidableEq

def Lamp.dataLight (l : Lamp) : CText :=
  ascii "DATA LIGHT " ++ decimal l.reading ++ ascii " LED=" ++ onOff l.on ++ ascii "\n"

def Lamp.dataStatus (l : Lamp) (st : DeviceStatus) : CText :=
  statusText { st with ledOn := l.on, lightValue := l.reading }

/-- The lamp answers a command during which the sensor gave the readings, and becomes `l'`. -/
inductive Lamp.Serves (l : Lamp) (command : ParsedCommand) : List Int → CText → Lamp → Prop
  | ledOn (h : command.type = .ledOn) :
      Serves l command [] (ascii "OK LED ON\n") { l with on := true }
  | ledOff (h : command.type = .ledOff) :
      Serves l command [] (ascii "OK LED OFF\n") { l with on := false }
  | ledOnBright (h : command.type = .ledOnBright) :
      Serves l command [] (snprintf (ascii "OK LED BRIGHT " ++ decimal command.value ++ ascii "\n"))
        { l with on := 0 < command.value }
  | ledOnBrightFailed (result : Int) (h : command.type = .ledOnBright)
      (hresult : result ≠ DeviceResult.ok) : Serves l command [] (writeDeviceError result) l
  | lightRead (reading : Int) (h : command.type = .lightRead) (hreading : reading = 0 ∨ reading = 1) :
      Serves l command [reading] (snprintf (Lamp.dataLight ⟨reading = 0, reading⟩))
        ⟨reading = 0, reading⟩
  | status (st : DeviceStatus) (h : command.type = .status) :
      Serves l command [] (snprintf (l.dataStatus st)) l
  | other (reply : CText)
      (h : command.type ∉ [.ledOn, .ledOff, .ledOnBright, .lightRead, .status]) :
      Serves l command [] reply l

/-- The command is answered with an error because an allocation failed, `LIGHT READ` possibly after
its reading. -/
inductive Lamp.Falters (l : Lamp) (command : ParsedCommand) : List Int → CText → Lamp → Prop
  | unchanged (result : Int) (hresult : result ≠ DeviceResult.ok) :
      Falters l command [] (writeDeviceError result) l
  | read (result reading : Int) (h : command.type = .lightRead)
      (hresult : result ≠ DeviceResult.ok) (hreading : reading = 0 ∨ reading = 1) :
      Falters l command [reading] (writeDeviceError result) { l with reading := reading }

inductive Lamp.Explains : List Exchange → Lamp → Prop
  | start : Explains [] {}
  | serve {history : List Exchange} {e : Exchange} {l l' : Lamp} (h : Explains history l)
      (hserve : l.Serves (commandParse e.request) e.readings e.reply l') : Explains (e :: history) l'
  | falter {history : List Exchange} {e : Exchange} {l l' : Lamp} (h : Explains history l)
      (hstarved : e.starved = true)
      (hfalter : l.Falters (commandParse e.request) e.readings e.reply l') : Explains (e :: history) l'

/-! ## What the calls of the manager do to the lamp -/

inductive Lamp.Done (l : Lamp) : Job → List Int → Int → Lamp → Prop
  | ledOn : Done l .ledOn [] DeviceResult.ok { l with on := true }
  | ledOff : Done l .ledOff [] DeviceResult.ok { l with on := false }
  | ledOnBright (b : Int) : Done l (.ledOnBright b) [] DeviceResult.ok { l with on := 0 < b }
  | ledOnBrightFailed (b result : Int) (hresult : result ≠ DeviceResult.ok) :
      Done l (.ledOnBright b) [] result l
  | lightRead (reading : Int) (hreading : reading = 0 ∨ reading = 1) :
      Done l .lightRead [reading] DeviceResult.ok { l with reading := reading }

inductive Lamp.Returns (l : Lamp) (starved : Bool) : Request → List Int → Int → Lamp → Prop
  | done {j : Job} {readings : List Int} {result : Int} {l' : Lamp} (h : l.Done j readings result l') :
      Returns l starved (.submit j) readings result l'
  | starved {j : Job} (result : Int) (hstarved : starved = true)
      (hresult : result ≠ DeviceResult.ok) : Returns l starved (.submit j) [] result l
  | elsewhere {r : Request} (result : Int) (h : ∀ j, r = .submit j → j.worker = .buzzer) :
      Returns l starved r [] result l

/-- The exchange that began with `l` will be one of the lamp's, if what is left of the command is
the program, the lamp is now `now` and the readings so far are `taken`. -/
def Lamp.Owes (l : Lamp) (command : ParsedCommand) : ExecProgram → Lamp → List Int → Bool → Prop
  | .reply text, now, taken, starved =>
    l.Serves command taken text now ∨ starved = true ∧ l.Falters command taken text now
  | .call c next, now, taken, starved => ∀ readings result now' starved',
      (starved = true → starved' = true) → now.Returns starved' c.request readings result now' →
        Owes l command (next result) now' (readings ++ taken) starved'
  | .lightRead next, now, taken, starved => ∀ readings result v now' starved',
      (starved = true → starved' = true) →
        now.Returns starved' (.submit .lightRead) readings result now' →
          (result = DeviceResult.ok → v = now'.reading) →
            Owes l command (next result v) now' (readings ++ taken) starved'
  | .getStatus next, now, taken, starved => ∀ st starved', (starved = true → starved' = true) →
      st.ledOn = now.on → st.lightValue = now.reading → Owes l command (next st) now taken starved'
  | .pluginStatus next, now, taken, starved => ∀ st, Owes l command (next st) now taken starved

variable {l : Lamp} {command : ParsedCommand}

theorem Lamp.owes_mono {p : ExecProgram} {now : Lamp} {taken : List Int} {starved starved' : Bool}
    (h : starved = true → starved' = true) (hp : l.Owes command p now taken starved) :
    l.Owes command p now taken starved' := by
  induction p with
  | reply text => exact hp.imp_right fun ⟨hstarved, hfalter⟩ => ⟨h hstarved, hfalter⟩
  | call c next => exact fun readings result now' starved'' hs => hp readings result now' starved'' (hs ∘ h)
  | lightRead next =>
    exact fun readings result v now' starved'' hs => hp readings result v now' starved'' (hs ∘ h)
  | getStatus next => exact fun st starved'' hs => hp st starved'' (hs ∘ h)
  | pluginStatus next ih => exact fun st => ih st (hp st)

theorem respond_error {result : Int} (h : result ≠ DeviceResult.ok) (text : CText) :
    respond result text = writeDeviceError result := if_neg h

theorem Lamp.owes_respondTo {c : DeviceCall} {text : CText} {now : Lamp} {taken : List Int}
    {starved : Bool}
    (h : ∀ readings result now' starved', (starved = true → starved' = true) →
      now.Returns starved' c.request readings result now' →
        l.Serves command (readings ++ taken) (respond result text) now' ∨
          starved' = true ∧ l.Falters command (readings ++ taken) (respond result text) now') :
    l.Owes command (.respondTo c text) now taken starved := h

theorem Lamp.owes_elsewhere {c : DeviceCall} {text : CText} (starved : Bool)
    (hc : ∀ j, c.request = .submit j → j.worker = .buzzer)
    (hcommand : command.type ∉ [.ledOn, .ledOff, .ledOnBright, .lightRead, .status]) :
    l.Owes command (.respondTo c text) l [] starved := by
  refine owes_respondTo fun readings result now' starved' _ hreturns => ?_
  generalize hr : c.request = r at hreturns
  cases hreturns with
  | done hdone =>
    have hj := hc _ hr
    cases hdone <;> cases hj
  | starved | elsewhere => exact .inl (.other _ hcommand)

theorem Lamp.owes_led {c : DeviceCall} {j : Job} {text : CText} {now : Lamp} {taken : List Int}
    (starved : Bool) (hc : c.request = .submit j) (hj : j.worker = .led)
    (hdone : ∀ readings result now', now.Done j readings result now' →
      l.Serves command (readings ++ taken) (respond result text) now')
    (hfail : ∀ result : Int, result ≠ DeviceResult.ok →
      l.Falters command taken (writeDeviceError result) now) :
    l.Owes command (.respondTo c text) now taken starved := by
  refine owes_respondTo fun readings result now' starved' _ hreturns => ?_
  rw [hc] at hreturns
  cases hreturns with
  | done h => exact .inl (hdone readings result now' h)
  | starved _ hstarved hresult =>
    rw [respond_error hresult]
    exact .inr ⟨hstarved, hfail result hresult⟩
  | elsewhere _ h => cases hj.symm.trans (h j rfl)

theorem Lamp.owes_switchLamp (hcommand : command.type = .lightRead) :
    l.Owes command (.lightRead ExecProgram.switchLamp) l [] false := by
  intro readings result v now' starved _ hreturns hv
  cases hreturns with
  | done h =>
    cases h with
    | lightRead reading hreading =>
      -- the plugin has stored the reading, which now decides about the lamp
      obtain rfl : v = reading := hv rfl
      rcases hreading with rfl | rfl
      · have hfail := fun result hresult => Falters.read (l := l) result 0 hcommand hresult (.inl rfl)
        refine owes_led starved rfl rfl (fun readings result now' h => ?_) hfail
        cases h
        exact .lightRead 0 hcommand (.inl rfl)
      · have hfail := fun result hresult => Falters.read (l := l) result 1 hcommand hresult (.inr rfl)
        refine owes_led starved rfl rfl (fun readings result now' h => ?_) hfail
        cases h
        exact .lightRead 1 hcommand (.inr rfl)
  | starved _ hstarved hresult =>
    rw [ExecProgram.switchLamp, if_neg hresult]
    exact .inr ⟨hstarved, .unchanged result hresult⟩
  | elsewhere _ h => cases h .lightRead rfl

theorem Lamp.execProgram_owes : l.Owes command (execProgram command) l [] false := by
  unfold execProgram
  cases hcommand : command.type with
  | help | quit | empty | invalidValue | invalid => exact .inl (.other _ (by rw [hcommand]; decide))
  | pluginList => exact fun st => .inl (.other _ (by rw [hcommand]; decide))
  | status =>
    intro st starved _ hled hlight
    have hst : l.dataStatus st = statusText st := by rw [dataStatus, ← hled, ← hlight]
    exact .inl (hst ▸ .status st hcommand)
  | ledOn =>
    refine owes_led false rfl rfl (fun readings result now' h => ?_) fun result => .unchanged result
    cases h
    exact .ledOn hcommand
  | ledOff =>
    refine owes_led false rfl rfl (fun readings result now' h => ?_) fun result => .unchanged result
    cases h
    exact .ledOff hcommand
  | ledOnBright =>
    refine owes_led false rfl rfl (fun readings result now' h => ?_) fun result => .unchanged result
    cases h with
    | ledOnBright => exact .ledOnBright hcommand
    | ledOnBrightFailed _ _ hresult =>
      rw [respond_error hresult]
      exact .ledOnBrightFailed result hcommand hresult
  | lightRead => exact owes_switchLamp hcommand
  | buzzerMusic | buzzerOn | buzzerBeep =>
    exact owes_elsewhere false (by rintro j ⟨⟩; rfl) (by rw [hcommand]; decide)
  | buzzerOff | segDisplay | segClear =>
    exact owes_elsewhere false (by rintro j ⟨⟩) (by rw [hcommand]; decide)

/-! ## The plugins -/

variable {π : Type} {w : Led.WiringPi π} {s t : State π} {x y : Option (Job × Place)}

def State.lamp (s : State π) : Lamp := ⟨s.led.ledState, s.light.lastLightValue⟩

theorem runLed_done {j : Job} {task : Worker.DeviceTask Manager.TaskFn Manager.Cleanup Manager.Context}
    {created r : Int} {l led : Led.State π} (hj : j.worker = .led) (hrun : task.run = j.args.run)
    (hcontext : task.context = j.args.context) (h : runLed w task created l = some (r, led))
    (reading : Int) : (Lamp.mk l.ledState reading).Done j [] r ⟨led.ledState, reading⟩ := by
  unfold runLed at h
  rw [hrun, hcontext] at h
  cases j with
  | ledOn =>
    cases h
    exact .ledOn
  | ledOff =>
    cases h
    exact .ledOff
  | ledOnBright b =>
    obtain ⟨rfl, rfl⟩ := Prod.ext_iff.mp (Option.some.inj h)
    rcases Led.ledOnBright_eq w b created l with ⟨hr, hstate⟩ | ⟨hr, hstate⟩
    · rw [hr, hstate]
      exact .ledOnBright b
    · rw [hstate]
      exact .ledOnBrightFailed b _ hr
  | buzzerMusic | buzzerOn | buzzerBeep | lightRead => cases hj

theorem runLed_consistent (hw : w.Documented)
    {task : Worker.DeviceTask Manager.TaskFn Manager.Cleanup Manager.Context}
    {created r : Int} {l led : Led.State π} (hl : Led.Consistent w l)
    (h : runLed w task created l = some (r, led)) : Led.Consistent w led := by
  have hsnd : ∀ {u : Int × Led.State π}, some u = some (r, led) → Led.Consistent w u.2 →
      Led.Consistent w led := by
    rintro u ⟨⟩ hu
    exact hu
  unfold runLed at h
  split at h
  · exact hsnd h (Led.ledOn_consistent hw hl)
  · exact hsnd h (Led.ledOnBright_consistent hw hl _ _)
  · exact hsnd h (Led.ledOff_consistent hw hl)
  · cases h

theorem runLight_eq {task : Worker.DeviceTask Manager.TaskFn Manager.Cleanup Manager.Context}
    {reading r v : Int} {l light : Light.State} (h : runLight task reading l = some (r, light, v)) :
    r = DeviceResult.ok ∧ light.lastLightValue = reading ∧ v = reading := by
  unfold runLight at h
  split at h <;> cases h
  exact ⟨rfl, rfl, rfl⟩

theorem Reachable.consistent (hw : w.Documented) (h : Reachable w s) : Led.Consistent w s.led := by
  refine h.invariant (P := fun s => Led.Consistent w s.led) ?_ ?_
  · rintro _ ⟨pin, hpin, rfl⟩
    exact (Led.ledInit_consistent hw (by decide) hpin).1
  · intro s a t hs ht
    cases step_effect ht with
    | led created c r l m hl hr => exact runLed_consistent hw hs hr
    | _ => exact hs

/-! ## What `device_get_status` has read -/

def statusReads : List (Manager.PluginId × Manager.PluginFn) :=
  [(.led, .isOn), (.buzzer, .isOn), (.light, .getLastValue)]

def StatusRead (s : State π) : Prop := ∀ rest, s.manager.main = .reading rest →
  rest <:+ statusReads ∧ ((.led, .isOn) ∉ rest → s.status.ledOn = s.lamp.on) ∧
    ((.light, .getLastValue) ∉ rest → s.status.lightValue = s.lamp.reading)

theorem reading_from {m m' : Manager.State} {a : Manager.Action}
    {rest : List (Manager.PluginId × Manager.PluginFn)} (hm : Manager.step m a = some m')
    (hrest : m'.main = .reading rest) : m.main = .reading rest ∧ (∀ b, a ≠ .main b) ∨
      (∃ b, a = .main b) ∧ (m.main = .called .getStatus ∧ rest = statusReads ∨
        ∃ read, m.main = .reading (read :: rest)) := by
  cases Manager.step_effect hm with
  | getStatus hpc =>
    cases hrest
    exact .inr ⟨⟨_, rfl⟩, .inl ⟨hpc, rfl⟩⟩
  | read p f rest' hpc =>
    cases hrest
    exact .inr ⟨⟨_, rfl⟩, .inr ⟨_, hpc⟩⟩
  | beeperChecked | beeperSubmit | beeperReturn | refresh | worker | tune =>
    exact .inl ⟨hrest, by rintro b ⟨⟩⟩
  | join y hpc => cases hrest.symm.trans hpc
  | _ => cases hrest

theorem StatusRead.main (h : StatusRead s) {b : Bool} {m : Manager.State}
    (hm : Manager.step s.manager (.main b) = some m) :
    StatusRead { s.advance (.main b) m with status := observe s } := by
  intro rest hrest
  rcases reading_from hm hrest with ⟨hpc, hne⟩ | ⟨-, ⟨hpc, rfl⟩ | ⟨read, hpc⟩⟩
  · exact (hne b rfl).elim
  · exact ⟨List.suffix_rfl, fun hled => (hled (by decide)).elim, fun hlight => (hlight (by decide)).elim⟩
  obtain ⟨hsuffix, hled, hlight⟩ := h _ hpc
  -- the reads come in the order of `device_get_status`
  have hcases : read :: rest = statusReads ∨
      read :: rest = [(.buzzer, .isOn), (.light, .getLastValue)] ∨
        read :: rest = [(.light, .getLastValue)] := by
    simpa [statusReads, List.suffix_cons_iff] using hsuffix
  refine ⟨(List.suffix_cons _ _).trans hsuffix, ?_⟩
  rcases hcases with hc | hc | hc <;> cases hc
  · have hobserve : observe s = { s.status with ledOn := s.led.ledState } := by
      simp only [observe, hpc, Led.ledIsOn]
    exact ⟨fun _ => by rw [hobserve]; rfl, fun hlight => (hlight (by decide)).elim⟩
  · have hobserve : observe s = { s.status with buzzerOn := s.manager.output.buzzerState } := by
      simp only [observe, hpc]
    exact ⟨fun _ => by rw [hobserve]; exact hled (by decide), fun hlight => (hlight (by decide)).elim⟩
  · have hobserve : observe s = { s.status with lightValue := s.light.lastLightValue } := by
      simp only [observe, hpc, Light.lightGetLastValue]
    exact ⟨fun _ => by rw [hobserve]; exact hled (by decide), fun _ => by rw [hobserve]; rfl⟩

theorem StatusRead.keep (h : StatusRead s) {a : Manager.Action} {m : Manager.State}
    (hm : Manager.step s.manager a = some m) (ha : ∀ b, a ≠ .main b) (hmanager : t.manager = m)
    (hstatus : t.status = s.status)
    (hlamp : (∃ j c, s.manager.main = .submitting j c) ∨ t.lamp = s.lamp) : StatusRead t := by
  intro rest hrest
  rw [hmanager] at hrest
  rcases reading_from hm hrest with ⟨hpc, -⟩ | ⟨⟨b, hb⟩, -⟩
  · rcases hlamp with ⟨j, c, hjob⟩ | hlamp
    · cases hjob.symm.trans hpc
    · rw [hstatus, hlamp]
      exact h rest hpc
  · exact (ha b hb).elim

theorem StatusRead.effect {act : Action} (h : StatusRead s) (hx : Attending s x)
    (he : Effect w s act t) : StatusRead t := by
  cases he with
  | request | reply | pluginStatus => exact h
  | enter p r m hpc hr hm => exact h.keep hm (by rintro b ⟨⟩) rfl rfl (.inr rfl)
  | main mallocOk m hm ha => exact h.main hm
  | answer mallocOk m result hm ha => exact h.main hm
  | background a m hact hm => exact h.keep hm (by rintro b hb; rw [hb] at hact; cases hact) rfl rfl (.inr rfl)
  | led created c r l m hl hr hm =>
    obtain ⟨j, p, rfl, -⟩ := hx.running (by rintro ⟨⟩) hl
    exact h.keep hm (by rintro b ⟨⟩) rfl rfl (.inl ⟨j, hx.submitting⟩)
  | light reading c r l v m hl hreading hr hm =>
    obtain ⟨j, p, rfl, -⟩ := hx.running (by rintro ⟨⟩) hl
    exact h.keep hm (by rintro b ⟨⟩) rfl rfl (.inl ⟨j, hx.submitting⟩)

/-! ## The lamp behind the exchanges -/

def Underway (s : State π) (now : Lamp) (taken : List Int) : Option (Job × Place) → Prop
  | none => s.lamp = now ∧ s.readings = taken
  | some (j, p) =>
    match p.result with
    | some r => ∃ readings, now.Done j readings r s.lamp ∧ s.readings = readings ++ taken ∧
        (j = .lightRead → s.lightValue = s.lamp.reading)
    | none => (s.lamp = now ∧ s.readings = taken) ∧ ∀ r, p = .refused r → s.starved = true

def Tracks (s : State π) (x : Option (Job × Place)) : Prop :=
  match s.exec with
  | .idle => Lamp.Explains s.history s.lamp
  | .at p => ∃ l, Lamp.Explains s.history l ∧
      l.Owes (commandParse s.request) p s.lamp s.readings s.starved
  | .inside p => ∃ l now taken, Lamp.Explains s.history l ∧
      l.Owes (commandParse s.request) p now taken s.starved ∧ Underway s now taken x

theorem Underway.onward {now : Lamp} {taken : List Int} (h : Underway s now taken x)
    (hxy : Onward t x y) (hlamp : t.lamp = s.lamp) (hreadings : t.readings = s.readings)
    (hlight : t.lightValue = s.lightValue) (hstarved : s.starved = true → t.starved = true) :
    Underway t now taken y := by
  cases hxy with
  | same x =>
    cases x with
    | none => exact ⟨hlamp.trans h.1, hreadings.trans h.2⟩
    | some jp =>
      obtain ⟨j, p⟩ := jp
      simp only [Underway] at h ⊢
      rw [hlamp, hlight, hreadings]
      split at h
      · exact h
      · exact ⟨h.1, fun r hr => hstarved (h.2 r hr)⟩
  | begin j => exact ⟨⟨hlamp.trans h.1, hreadings.trans h.2⟩, by rintro r ⟨⟩⟩
  | @next j p q hresult hrefused =>
    simp only [Underway] at h ⊢
    rw [hlamp, hlight, hreadings, hresult]
    split at h
    · exact h
    · refine ⟨h.1, fun r hr => ?_⟩
      rcases hrefused r hr with hp | hstarves
      · exact hstarved (h.2 r hp)
      · exact hstarves

/-- A job is rejected only for its brightness or for want of memory, which only `device_led_on_bright`
asks for. -/
theorem Rejected.done {j : Job} {mallocOk : Bool} {result : Int} (l : Lamp)
    (h : Manager.Rejected j mallocOk result) (hj : j.worker ≠ .buzzer) :
    l.Done j [] result l ∧ j ≠ .lightRead := by
  have hne : result ≠ DeviceResult.ok := by
    rcases h with ⟨rfl, -⟩ | ⟨rfl, -⟩ <;> decide
  cases j with
  | ledOnBright b => exact ⟨.ledOnBrightFailed b result hne, by rintro ⟨⟩⟩
  | ledOn | ledOff | lightRead => rcases h with ⟨-, h⟩ | ⟨-, h, -⟩ <;> cases h
  | buzzerMusic | buzzerOn | buzzerBeep => exact (hj rfl).elim

theorem Underway.returns {now : Lamp} {taken : List Int} {mallocOk : Bool} {r : Request} {result : Int}
    {starved : Bool} (h : Underway s now taken x) (ha : Answered mallocOk r result x)
    (hstarved : s.starved = true → starved = true) :
    ∃ readings, now.Returns starved r readings result s.lamp ∧ s.readings = readings ++ taken ∧
      (r = .submit .lightRead → result = DeviceResult.ok → s.lightValue = s.lamp.reading) := by
  cases x with
  | none =>
    obtain ⟨rfl, rfl⟩ := h
    -- no task is in progress: the request was not for the two workers, or it was rejected
    by_cases hr : ∀ j, r = .submit j → j.worker = .buzzer
    · refine ⟨[], .elsewhere result hr, rfl, ?_⟩
      rintro rfl -
      cases hr .lightRead rfl
    · simp only [not_forall] at hr
      obtain ⟨j, rfl, hj⟩ := hr
      obtain ⟨hdone, hne⟩ := Rejected.done s.lamp (ha j rfl hj) hj
      refine ⟨[], .done hdone, rfl, ?_⟩
      rintro ⟨⟩
      exact (hne rfl).elim
  | some jp =>
    obtain ⟨j, p⟩ := jp
    obtain ⟨rfl, rfl | ⟨rfl, hresult⟩⟩ := ha
    · obtain ⟨readings, hdone, hreadings, hlight⟩ := h
      refine ⟨readings, .done hdone, hreadings, ?_⟩
      rintro ⟨⟩ -
      exact hlight rfl
    · obtain ⟨⟨rfl, rfl⟩, hrefused⟩ := h
      exact ⟨[], .starved result (hstarved (hrefused result rfl)) hresult, rfl,
        fun _ hok => (hresult hok).elim⟩

theorem Tracks.answer {mallocOk : Bool} {m : Manager.State} {p : ExecProgram} {r : Request}
    {result : Int} (h : Tracks s x) (hstatus : StatusRead s) (hpc : s.exec = .inside p)
    (hr : p.request = some r) (ha : Answered mallocOk r result x)
    (hread : r = .getStatus → s.manager.main = .reading []) :
    Tracks (s.answer mallocOk m result) none := by
  simp only [Tracks, hpc] at h
  obtain ⟨l, now, taken, hl, howes, hunder⟩ := h
  have hstarved : s.starved = true → (s.answer mallocOk m result).starved = true := fun hs => by
    simp [State.answer, State.advance, hs]
  obtain ⟨readings, hreturns, hreadings, hlight⟩ := hunder.returns ha hstarved
  have hexec : (s.answer mallocOk m result).exec =
      returnTo s.lightValue (observe s) result (.inside p) := by rw [State.answer, hpc]
  have htaken : (s.answer mallocOk m result).readings = readings ++ taken := hreadings
  simp only [Tracks, hexec, htaken]
  cases p with
  | reply | pluginStatus => cases hr
  | call c next =>
    cases hr
    exact ⟨l, hl, howes readings result s.lamp _ hstarved hreturns⟩
  | lightRead next =>
    cases hr
    exact ⟨l, hl, howes readings result s.lightValue s.lamp _ hstarved hreturns (hlight rfl)⟩
  | getStatus next =>
    cases hr
    have hmain := hread rfl
    obtain ⟨-, hled, hlast⟩ := hstatus [] hmain
    -- a status is read without a task, so the lamp has not changed since the call
    cases hreturns
    refine ⟨l, hl, howes (observe s) _ hstarved ?_ ?_⟩
    · simp only [observe, hmain]
      exact hled (by simp)
    · simp only [observe, hmain]
      exact hlast (by simp)

theorem Tracks.onward (h : Tracks s x) (hxy : Onward t x y) (hexec : t.exec = s.exec)
    (hhistory : t.history = s.history) (hrequest : t.request = s.request) (hlamp : t.lamp = s.lamp)
    (hreadings : t.readings = s.readings) (hlight : t.lightValue = s.lightValue)
    (hstarved : s.starved = true → t.starved = true) : Tracks t y := by
  unfold Tracks at h ⊢
  rw [hexec, hhistory, hrequest, hlamp, hreadings]
  cases hpc : s.exec with
  | idle =>
    rw [hpc] at h
    exact h
  | «at» p =>
    rw [hpc] at h
    obtain ⟨l, hl, howes⟩ := h
    exact ⟨l, hl, Lamp.owes_mono hstarved howes⟩
  | inside p =>
    rw [hpc] at h
    obtain ⟨l, now, taken, hl, howes, hunder⟩ := h
    exact ⟨l, now, taken, hl, Lamp.owes_mono hstarved howes,
      hunder.onward hxy hlamp hreadings hlight hstarved⟩

theorem Tracks.returns {j : Job} {p : ExecProgram} {r : Int} {readings : List Int}
    (h : Tracks s (some (j, .running))) (hpc : s.exec = .inside p) (hexec : t.exec = s.exec)
    (hhistory : t.history = s.history) (hrequest : t.request = s.request)
    (hstarved : s.starved = true → t.starved = true) (hdone : s.lamp.Done j readings r t.lamp)
    (hreadings : t.readings = readings ++ s.readings)
    (hlight : j = .lightRead → t.lightValue = t.lamp.reading) : Tracks t (some (j, .ran r)) := by
  unfold Tracks at h ⊢
  rw [hexec, hhistory, hrequest, hpc]
  rw [hpc] at h
  obtain ⟨l, now, taken, hl, howes, ⟨rfl, rfl⟩, -⟩ := h
  exact ⟨l, s.lamp, s.readings, hl, Lamp.owes_mono hstarved howes, readings, hdone, hreadings, hlight⟩

theorem starved_advance (s : State π) (a : Manager.Action) (m : Manager.State) :
    s.starved = true → (s.advance a m).starved = true := by
  intro h
  rw [State.advance, h]
  rfl

theorem Tracks.turn (h : Tracks s x) (hstatus : StatusRead s) (ht : Turn w s t x y) : Tracks t y := by
  cases ht with
  | request text hpc =>
    simp only [Tracks, hpc] at h
    exact ⟨s.lamp, h, Lamp.execProgram_owes⟩
  -- what the program still owed is this reply
  | reply text hpc =>
    simp only [Tracks, hpc] at h
    obtain ⟨l, hl, hserve | ⟨hstarved, hfalter⟩⟩ := h
    · exact .serve hl hserve
    · exact .falter hl hstarved hfalter
  | pluginStatus next hpc =>
    simp only [Tracks, hpc] at h
    obtain ⟨l, hl, howes⟩ := h
    exact ⟨l, hl, howes pluginGetStatus⟩
  | enter p r m hpc hr =>
    simp only [Tracks, hpc] at h
    obtain ⟨l, hl, howes⟩ := h
    exact ⟨l, s.lamp, s.readings, hl, Lamp.owes_mono (starved_advance s _ m) howes, rfl, rfl⟩
  | onward a m st honward => exact h.onward honward rfl rfl rfl rfl rfl rfl (starved_advance s a m)
  | answer mallocOk m p r result hpc hr ha hread => exact h.answer hstatus hpc hr ha hread
  | led j task created r l m p hpc hj hrun hcontext hr =>
    refine h.returns hpc rfl rfl rfl (starved_advance s _ m)
      (runLed_done hj hrun hcontext hr s.light.lastLightValue) rfl ?_
    rintro rfl
    cases hj
  | light task reading r l v m p hpc hreading hr =>
    obtain ⟨rfl, hlast, rfl⟩ := runLight_eq hr
    have hdone : s.lamp.Done .lightRead [v] DeviceResult.ok ⟨s.led.ledState, l.lastLightValue⟩ := by
      rw [hlast]
      exact .lightRead v hreading
    exact h.returns hpc rfl rfl rfl (starved_advance s _ m) hdone rfl fun _ => hlast.symm

theorem Reachable.tracks (h : Reachable w s) :
    StatusRead s ∧ ∃ x, Attending s x ∧ Tracks s x := by
  refine h.invariant (P := fun s => StatusRead s ∧ ∃ x, Attending s x ∧ Tracks s x) ?_ ?_
  · rintro _ ⟨pin, -, rfl⟩
    exact ⟨by rintro rest ⟨⟩, none, attending_deviceInit pin, .start⟩
  · rintro s a t ⟨hstatus, x, hx, htracks⟩ hs
    obtain ⟨y, hy, ht⟩ := hx.turn (step_effect hs)
    exact ⟨hstatus.effect hx (step_effect hs), y, hy, htracks.turn hstatus ht⟩

/-- The lamp that the replies show is the one that the flags and the pin show: between two commands
all agree. -/
theorem lamp_refined (hw : w.Documented) (h : Reachable w s) (hpc : s.exec = .idle) :
    ∃ lamp, Lamp.Explains s.history lamp ∧ s.led.ledState = lamp.on ∧
      s.light.lastLightValue = lamp.reading ∧ Led.lit w s.led.pin = lamp.on ∧
      s.led.pwmStarted = (w.duty s.led.pin).isSome := by
  obtain ⟨-, x, -, htracks⟩ := h.tracks
  have hconsistent := h.consistent hw
  simp only [Tracks, hpc] at htracks
  exact ⟨s.lamp, htracks, rfl, rfl, hconsistent.lit, hconsistent.pwm⟩

def servedTask (v : Manager.WorkerId) (c : Worker.TaskId) (plugin : Action) : List Action :=
  List.replicate 3 (.worker v (.submit c .ok)) ++ List.replicate 2 (.worker v .loop) ++ [plugin] ++
    [.worker v .loop] ++ List.replicate 3 (.worker v (.submit c .ok))

/-- It is bright at the first reading and dark at the second. -/
theorem lamp_refined_dark : ∃ s : State Led.Pin,
    s.history.map (fun e => (e.reply, e.readings)) =
      [(ascii "DATA STATUS INIT=ON LED=ON BUZZER=OFF LIGHT=0 SEG=OFF SEG_VALUE=0\n", []),
        (ascii "DATA LIGHT 0 LED=ON\n", [0]), (ascii "DATA LIGHT 1 LED=OFF\n", [1]),
        (ascii "OK LED BRIGHT 0\n", [])] ∧
      ∃ lamp, Lamp.Explains s.history lamp ∧ s.led.ledState = lamp.on ∧
        s.light.lastLightValue = lamp.reading ∧ Led.lit Led.simplePin s.led.pin = lamp.on ∧
        s.led.pwmStarted = (Led.simplePin.duty s.led.pin).isSome := by
  have hinit : Reachable Led.simplePin (deviceInit Led.simplePin ⟨false, false, none⟩) :=
    .start ⟨_, rfl, rfl⟩
  obtain ⟨s, hs, hrun⟩ := hinit.exists_of_run
    ([.request (ascii "LED BRIGHT 0"), .exec, .main true] ++ servedTask .led 0 (.led 0) ++
      [.main true, .exec, .request (ascii "LIGHT READ"), .exec, .main true] ++
      servedTask .light 1 (.light 1) ++ [.main true, .exec, .main true] ++
      servedTask .led 2 (.led 0) ++
      [.main true, .exec, .request (ascii "LIGHT READ"), .exec, .main true] ++
      servedTask .light 3 (.light 0) ++ [.main true, .exec, .main true] ++
      servedTask .led 4 (.led 0) ++ [.main true, .exec, .request (ascii "STATUS"), .exec] ++
      List.replicate 5 (.main true) ++ [.exec])
    (fun s => s.exec.isIdle && decide (s.history.map (fun e => (e.reply, e.readings)) =
      [(ascii "DATA STATUS INIT=ON LED=ON BUZZER=OFF LIGHT=0 SEG=OFF SEG_VALUE=0\n", []),
        (ascii "DATA LIGHT 0 LED=ON\n", [0]), (ascii "DATA LIGHT 1 LED=OFF\n", [1]),
        (ascii "OK LED BRIGHT 0\n", [])])) (by decide +kernel)
  obtain ⟨hidle, hhistory⟩ := Bool.and_eq_true_iff.mp hrun
  exact ⟨s, of_decide_eq_true hhistory,
    lamp_refined Led.simplePin_documented hs (ExecPc.isIdle_iff.mp hidle)⟩

end RemoteDevice.System
