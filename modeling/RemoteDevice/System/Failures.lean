import RemoteDevice.Manager.Returns
import RemoteDevice.System.Lamp
import RemoteDevice.System.Ranges

/-! What the clients see of a failure: every reply is the one that working devices give, or
`DEVICE_FAILED` for want of memory or of a PWM. -/

namespace RemoteDevice.System
open CText
open Manager (Job Request Sound PluginResult Ranged)

variable {π : Type} {w : Led.WiringPi π} {s t : State π} {act : Action}

/-! ## Working devices -/

def working (light : Int) (st : DeviceStatus) : DeviceApi Unit where
  deviceGetStatus := return st
  pluginGetStatus := return pluginGetStatus
  deviceLedOn := return DeviceResult.ok
  deviceLedOnBright := fun _ => return DeviceResult.ok
  deviceLedOff := return DeviceResult.ok
  deviceBuzzerMusic := fun _ => return DeviceResult.ok
  deviceBuzzerOn := return DeviceResult.ok
  deviceBuzzerOff := return DeviceResult.ok
  deviceBuzzerBeep := fun _ => return DeviceResult.ok
  deviceLightRead := return (DeviceResult.ok, light)
  deviceSegmentDisplay := fun _ => return DeviceResult.ok
  deviceSegmentClear := return DeviceResult.ok

/-- What a client can be told: the reply of working devices, or `DEVICE_FAILED` after an allocation
or, with `LED BRIGHT`, the start of the PWM has failed. -/
inductive Told (command : ParsedCommand) (starved : Bool) (reply : CText) : Prop
  | worked (light : Int) (st : DeviceStatus) (hlight : light = 0 ∨ light = 1)
      (hst : st.initialized = true)
      (h : reply = ((execParsed (working light st) command).run ()).1) : Told command starved reply
  | failed (h : reply = ascii "ERR DEVICE_ERROR DEVICE_FAILED\n")
      (hwhy : starved = true ∨ command.type = .ledOnBright) : Told command starved reply

def Outcome (starved : Bool) (r : Request) (result : Int) : Prop :=
  result = DeviceResult.ok ∨ result = DeviceResult.deviceFailed ∧
    (starved = true ∨ ∃ b, r = .submit (.ledOnBright b))

def ExecProgram.Tells (command : ParsedCommand) : ExecProgram → Bool → Prop
  | .reply text, starved => Told command starved text
  | .call c next, starved => ∀ result starved', (starved = true → starved' = true) →
      Outcome starved' c.request result → Tells command (next result) starved'
  | .lightRead next, starved => ∀ result v starved', (starved = true → starved' = true) →
      Outcome starved' (.submit .lightRead) result → v = 0 ∨ v = 1 →
      Tells command (next result v) starved'
  | .getStatus next, starved => ∀ st starved', (starved = true → starved' = true) →
      st.initialized = true → Tells command (next st) starved'
  | .pluginStatus next, starved => Tells command (next pluginGetStatus) starved

variable {command : ParsedCommand}

theorem Told.mono {starved starved' : Bool} {reply : CText} (h : starved = true → starved' = true)
    (ht : Told command starved reply) : Told command starved' reply := by
  cases ht with
  | worked light st hlight hst hreply => exact .worked light st hlight hst hreply
  | failed hreply hwhy => exact .failed hreply (hwhy.imp_left h)

theorem tells_mono {p : ExecProgram} {starved starved' : Bool} (h : starved = true → starved' = true)
    (hp : ExecProgram.Tells command p starved) : ExecProgram.Tells command p starved' := by
  induction p with
  | reply text => exact hp.mono h
  | call c next => exact fun result starved'' hs => hp result starved'' (hs ∘ h)
  | lightRead next => exact fun result v starved'' hs => hp result v starved'' (hs ∘ h)
  | getStatus next => exact fun st starved'' hs => hp st starved'' (hs ∘ h)
  | pluginStatus next ih => exact ih pluginGetStatus hp

theorem writeDeviceError_deviceFailed :
    writeDeviceError DeviceResult.deviceFailed = ascii "ERR DEVICE_ERROR DEVICE_FAILED\n" := by decide

theorem respond_deviceFailed (text : CText) :
    respond DeviceResult.deviceFailed text = ascii "ERR DEVICE_ERROR DEVICE_FAILED\n" :=
  (if_neg (by decide)).trans writeDeviceError_deviceFailed

theorem tells_respondTo {c : DeviceCall} {text : CText} {starved : Bool}
    (hworked : ∀ starved', Told command starved' (snprintf text))
    (hbright : ∀ b, c.request = .submit (.ledOnBright b) → command.type = .ledOnBright) :
    ExecProgram.Tells command (.respondTo c text) starved := by
  rintro result starved' - (rfl | ⟨rfl, hwhy⟩)
  · exact hworked starved'
  · refine .failed (respond_deviceFailed text) (hwhy.imp_right ?_)
    rintro ⟨b, hr⟩
    exact hbright b hr

def quietStatus : DeviceStatus := startStatus true

theorem tells_switchLamp {starved : Bool} (hcommand : command.type = .lightRead) :
    ExecProgram.Tells command (.lightRead ExecProgram.switchLamp) starved := by
  have htold : ∀ {v : Int} {starved' : Bool}, v = 0 ∨ v = 1 →
      Told command starved' (snprintf (ExecProgram.lightText v)) := by
    intro v starved' hv
    refine .worked v quietStatus hv rfl ?_
    rw [← execProgram_run, execProgram, hcommand]
    rcases hv with rfl | rfl <;> rfl
  rintro result v starved' - (rfl | ⟨rfl, hwhy⟩) hv
  · rcases hv with rfl | rfl
    · exact tells_respondTo (fun _ => htold (.inl rfl)) (by rintro b ⟨⟩)
    · exact tells_respondTo (fun _ => htold (.inr rfl)) (by rintro b ⟨⟩)
  · refine .failed writeDeviceError_deviceFailed (hwhy.imp_right ?_)
    rintro ⟨b, ⟨⟩⟩

theorem fst_run_pure (reply : CText) : reply = ((pure reply : StateM Unit CText).run ()).1 := rfl

theorem execProgram_tells (starved : Bool) :
    ExecProgram.Tells command (execProgram command) starved := by
  have htold : ∀ (st : DeviceStatus) {type : Command} {reply : CText} {starved' : Bool},
      st.initialized = true → command.type = type →
      reply = ((execParsed (working 0 st) { command with type := type }).run ()).1 →
      Told command starved' reply := by
    rintro st type reply starved' hst rfl hreply
    exact .worked 0 st (.inl rfl) hst hreply
  unfold execProgram
  cases hcommand : command.type with
  | help | quit | empty | invalidValue | invalid =>
    refine htold quietStatus rfl hcommand ?_
    simp only [execParsed]
    exact fst_run_pure _
  | pluginList => exact htold quietStatus rfl hcommand rfl
  | status => exact fun st starved' _ hst => htold st hst hcommand rfl
  | lightRead => exact tells_switchLamp hcommand
  | ledOnBright =>
    exact tells_respondTo (fun _ => htold quietStatus rfl hcommand rfl) fun _ _ => hcommand
  | ledOn | ledOff | buzzerMusic | buzzerOn | buzzerOff | buzzerBeep | segDisplay | segClear =>
    exact tells_respondTo (fun _ => htold quietStatus rfl hcommand rfl) (by rintro b ⟨⟩)

/-! ## The plugins -/

theorem runLed_result {task : Worker.DeviceTask Manager.TaskFn Manager.Cleanup Manager.Context}
    {args : Manager.Args} {j : Job} {created r : Int} {l led : Led.State π} (hargs : args = j.args)
    (hrange : j.inRange = true) (hrun : task.run = args.run) (hcontext : task.context = args.context)
    (h : runLed w task created l = some (r, led)) : PluginResult args r := by
  subst hargs
  unfold runLed at h
  rw [hrun, hcontext] at h
  cases j with
  | ledOn | ledOff =>
    cases h
    exact .inl rfl
  | ledOnBright b =>
    obtain ⟨rfl, -⟩ := Prod.ext_iff.mp (Option.some.inj h)
    simp only [Job.inRange, Bool.and_eq_true, decide_eq_true_eq] at hrange
    rw [Led.ledOnBright, if_neg (by omega)]
    split
    · exact .inr ⟨rfl, b, rfl⟩
    · exact .inl rfl
  | buzzerMusic | buzzerOn | buzzerBeep | lightRead => cases h

/-! ## Runs -/

def Starving (s : State π) : Prop :=
  ∀ j c r, s.manager.main = .submitting j c → Worker.Fails (s.manager.worker j.worker) c r →
    r = DeviceResult.deviceFailed ∧ s.starved = true

def ExecPc.Tells (command : ParsedCommand) (starved : Bool) : ExecPc → Prop
  | .idle => True
  | .at p | .inside p => ExecProgram.Tells command p starved

structure Honest (s : State π) : Prop where
  sound : Sound s.manager
  starving : Starving s
  lightValue : s.lightValue = 0 ∨ s.lightValue = 1
  status : ∀ rest, s.manager.main = .reading rest → s.status.initialized = true
  exec : s.exec.Tells (commandParse s.request) s.starved
  history : ∀ e ∈ s.history, Told (commandParse e.request) e.starved e.reply

theorem job_run (j : Job) : j.args.run.isSome = true := by cases j <;> rfl

theorem Starving.keep (h : Starving s) (hserving : Manager.Serving s.manager) {a : Manager.Action}
    {m : Manager.State} (hm : Manager.step s.manager a = some m)
    (hmain : m.main = s.manager.main) : Starving (s.advance a m) := by
  intro j c r hsubmitting hfails
  have hpc : s.manager.main = .submitting j c := hmain.symm.trans hsubmitting
  have hreach := hserving.reachable
  obtain ⟨-, hargs⟩ := hreach.submitsJob j c hpc
  have hold : Worker.Fails (s.manager.worker j.worker) c r →
      r = DeviceResult.deviceFailed ∧ (s.advance a m).starved = true := by
    intro hold
    obtain ⟨hr, hstarved⟩ := h j c r hpc hold
    exact ⟨hr, starved_advance s a m hstarved⟩
  rcases (Manager.step_effect hm).worker_action j.worker with heq | ⟨b, hx, hact⟩
  · exact hold (heq ▸ hfails)
  have hstop := hreach.orderly.stopIdle j.worker (by rw [hserving.phase]; exact Nat.zero_le _)
  rcases hfails.step (hreach.worker j.worker) hx hstop (hargs ▸ job_run j) with hfails | ⟨hr, hstarves⟩
  · exact hold hfails
  · -- the step is the failing allocation
    obtain ⟨rfl, -⟩ := hact.resolve_left fun hbegins => by cases b <;> cases hbegins <;> cases hstarves
    exact ⟨hr, by simp [State.advance, starves, hpc, hstarves]⟩

theorem Starving.main {mallocOk : Bool} {m : Manager.State}
    (hm : Manager.step s.manager (.main mallocOk) = some m) :
    Starving (s.advance (.main mallocOk) m) := by
  intro j c r hpc hfails
  have hpc : m.main = .submitting j c := hpc
  cases Manager.step_effect hm with
  | submit j' x hcalled hi hx =>
    cases hpc
    have hcall : x.submits s.manager.calls = .called := by
      rw [Worker.submitCall_eq hx]
      exact Function.update_self ..
    have hx : ((s.manager.setWorker j.worker (.submitCall s.manager.calls j.args) x).worker
      j.worker).submits s.manager.calls = .called := by simpa using hcall
    exact (hfails.not_waiting.2 hx).elim
  | join x hjoin => cases hpc.symm.trans hjoin
  | _ => cases hpc

theorem Honest.outcome (h : Honest s) (hserving : Manager.Serving s.manager)
    {mallocOk : Bool} {m : Manager.State} (hm : Manager.step s.manager (.main mallocOk) = some m)
    {r r' : Request} {result : Int} {log : List Manager.Entry}
    (hr : s.manager.main.request = some r) (hrange : r.inRange = true)
    (hlog : m.log = .returned r' result :: log) (hidle : m.main = .idle) :
    Outcome (s.starved || starves s.manager (.main mallocOk)) r result := by
  cases Manager.step_effect hm with
  | uninitialized r'' hpc hi => cases hi.symm.trans hserving.initialized
  | rejected j result' hpc hi =>
    rw [Manager.step, Manager.mainStep, hpc] at hm
    obtain rfl : r = .submit j := Option.some.inj (hr.symm.trans (congrArg Manager.MainPc.request hpc))
    rcases Manager.enterRequest_submit hi hm with ⟨result'', heq, ⟨rfl, hbad⟩ | ⟨rfl, halloc, hmalloc⟩⟩ |
      ⟨x, -, -, heq⟩
    · cases hbad.symm.trans hrange
    · rw [heq] at hlog
      refine .inr ⟨answer_returned hlog, .inl ?_⟩
      simp [starves, hpc, halloc, hmalloc]
    · cases congrArg Manager.State.main heq
  | submitted j c result' hpc hc =>
    obtain rfl := answer_returned hlog
    obtain rfl : r = .submit j := Option.some.inj (hr.symm.trans (congrArg Manager.MainPc.request hpc))
    rcases h.sound.result hserving.reachable hpc hc with hfails | hok | ⟨hfailed, b, hargs⟩
    · obtain ⟨hfailed, hstarved⟩ := h.starving j c result hpc hfails
      exact .inr ⟨hfailed, .inl (by simp [hstarved])⟩
    · exact .inl hok
    · exact .inr ⟨hfailed, .inr ⟨b, congrArg _ (Manager.args_ledOnBright hargs)⟩⟩
  | display v x hpc =>
    obtain rfl : r = .segmentDisplay v :=
      Option.some.inj (hr.symm.trans (congrArg Manager.MainPc.request hpc))
    simp only [Request.inRange, Bool.and_eq_true, decide_eq_true_eq] at hrange
    rw [answer_returned hlog, Segment.deviceSegmentDisplay, if_neg (by omega)]
    exact .inl rfl
  | off | cleared | gotStatus | close => exact .inl (answer_returned hlog)
  | join y hpc => cases hpc.symm.trans hidle
  | _ => cases hidle

theorem observe_initialized (hi : s.manager.initialized = true)
    (hstatus : ∀ rest, s.manager.main = .reading rest → s.status.initialized = true)
    (hreading : s.manager.main = .called .getStatus ∨ ∃ rest, s.manager.main = .reading rest) :
    (observe s).initialized = true := by
  unfold observe
  split
  · exact hi
  · next hpc => exact hstatus _ hpc
  · next hpc => exact hstatus _ hpc
  · next hpc => exact hstatus _ hpc
  · next hpc => exact hstatus _ hpc
  · next hcalled _ _ _ _ =>
    rcases hreading with hpc | ⟨rest, hpc⟩
    · exact (hcalled hpc).elim
    · exact hstatus rest hpc

theorem tells_returnTo {p : ExecProgram} {r : Request} {starved starved' : Bool} {v result : Int}
    {st : DeviceStatus} (hp : ExecProgram.Tells command p starved) (hr : p.request = some r)
    (hstarved : starved = true → starved' = true) (hresult : Outcome starved' r result)
    (hv : v = 0 ∨ v = 1) (hst : r = .getStatus → st.initialized = true) :
    (returnTo v st result (.inside p)).Tells command starved' := by
  cases p with
  | reply | pluginStatus => cases hr
  | call c next =>
    cases hr
    exact hp result starved' hstarved hresult
  | lightRead next =>
    cases hr
    exact hp result v starved' hstarved hresult hv
  | getStatus next =>
    cases hr
    exact hp st starved' hstarved (hst rfl)

theorem ExecPc.tells_mono {pc : ExecPc} {starved starved' : Bool}
    (h : starved = true → starved' = true) (hpc : pc.Tells command starved) :
    pc.Tells command starved' := by
  cases pc with
  | idle => trivial
  | «at» p | inside p => exact System.tells_mono h hpc

theorem Honest.beside (h : Honest s) (hserving : Manager.Serving s.manager) (hagreed : Agreed s)
    {a : Manager.Action} {m : Manager.State} (hm : Manager.step s.manager a = some m)
    (hmain : m.main = s.manager.main) {led : Led.State π} {light : Light.State} {v : Int}
    {readings : List Int} (hv : v = 0 ∨ v = 1)
    (hreturn : ∀ v c r, a = .worker v (.runReturn r) → v ≠ .buzzer →
      (s.manager.worker v).loop = .running c → PluginResult ((s.manager.worker v).args c) r) :
    Honest { s.advance a m with led, light, lightValue := v, readings } where
  sound := h.sound.step hserving.reachable hagreed.ranged hm hreturn
  starving := h.starving.keep hserving hm hmain
  lightValue := hv
  status := fun rest hpc => h.status rest (hmain.symm.trans hpc)
  exec := ExecPc.tells_mono (starved_advance s a m) h.exec
  history := h.history

-- between the calls the event-loop thread waits for no task
theorem Attending.starving {x : Option (Job × Worker.Place)} (hx : Attending s x)
    (hpc : s.exec.request = none) (hmanager : t.manager = s.manager) : Starving t := by
  intro j c r hsubmitting
  rw [hmanager, (hx.outside hpc).2] at hsubmitting
  cases hsubmitting

theorem Honest.effect (h : Honest s) {x : Option (Job × Worker.Place)} (hx : Attending s x)
    (hagreed : Agreed s) (he : Effect w s act t) : Honest t := by
  have hserving := hx.serving
  have hreach := hserving.reachable
  cases he with
  | request text hpc =>
    have hnone : s.exec.request = none := by rw [hpc]; rfl
    exact ⟨h.sound, hx.starving hnone rfl, h.lightValue, h.status, execProgram_tells false, h.history⟩
  | reply text hpc =>
    have htold := h.exec
    rw [hpc] at htold
    have hnone : s.exec.request = none := by rw [hpc]; rfl
    exact ⟨h.sound, hx.starving hnone rfl, h.lightValue, h.status, trivial, List.forall_mem_cons.mpr ⟨htold, h.history⟩⟩
  | pluginStatus next hpc =>
    have htells := h.exec
    rw [hpc] at htells
    have hnone : s.exec.request = none := by rw [hpc]; rfl
    exact ⟨h.sound, hx.starving hnone rfl, h.lightValue, h.status, htells, h.history⟩
  | enter p r m hpc hr hm =>
    have htells := h.exec
    rw [hpc] at htells
    have hmain : m.main = .called r := by
      cases Manager.step_effect hm
      rfl
    refine ⟨h.sound.step hreach hagreed.ranged hm (by rintro v c r' ⟨⟩), ?_, h.lightValue, ?_,
      System.tells_mono (starved_advance s _ m) htells, h.history⟩
    · rintro j c r' hsubmitting
      cases hmain.symm.trans hsubmitting
    · rintro rest hreading
      cases hmain.symm.trans hreading
  | main mallocOk m hm ha =>
    refine ⟨h.sound.step hreach hagreed.ranged hm (by rintro v c r' ⟨⟩), .main hm, h.lightValue, ?_,
      ExecPc.tells_mono (starved_advance s _ m) h.exec, h.history⟩
    intro rest hreading
    refine observe_initialized hserving.initialized h.status ?_
    -- the read has just begun, or it goes on behind another field
    rcases reading_from hm hreading with ⟨-, hne⟩ | ⟨-, ⟨hpc, -⟩ | ⟨read, hpc⟩⟩
    · exact (hne mallocOk rfl).elim
    · exact .inl hpc
    · exact .inr ⟨_, hpc⟩
  | answer mallocOk m result hm ha =>
    obtain ⟨hidle, r', log, hlog⟩ := answered_log ha
    obtain ⟨r, hr⟩ := main_request hm
    obtain ⟨p, hpc, hp⟩ := ExecPc.request_eq_some (hx.request.symm.trans hr)
    have hrange : r.inRange = true := by
      have haccepts := hagreed.exec
      rw [hpc] at haccepts
      exact request_inRange haccepts hp
    have htells := h.exec
    rw [hpc] at htells
    refine ⟨h.sound.step hreach hagreed.ranged hm (by rintro v c r' ⟨⟩), ?_, h.lightValue, ?_, ?_, h.history⟩
    · intro j c r'' hsubmitting
      cases hidle.symm.trans hsubmitting
    · intro rest hreading
      cases hidle.symm.trans hreading
    · simp only [State.answer, hpc]
      -- the program goes on with the outcome of its call
      refine tells_returnTo htells hp (starved_advance s _ m)
        (h.outcome hserving hm hr hrange hlog hidle) h.lightValue ?_
      rintro rfl
      exact observe_initialized hserving.initialized h.status
        (.inr ⟨_, reading_done hm hr hidle hserving.initialized⟩)
  | background a m hact hm =>
    refine h.beside hserving hagreed hm (background_main hact hm) h.lightValue ?_
    rintro v c r hv hne
    rw [hv] at hact
    exact (hne (of_decide_eq_true hact)).elim
  | led created c r l m hl hr hm =>
    refine h.beside hserving hagreed hm (by cases Manager.step_effect hm; rfl) h.lightValue ?_
    rintro v c' r' ⟨⟩ - hl'
    cases hl.symm.trans hl'
    obtain ⟨hmade, hrun, hcontext, -⟩ := (hreach.worker .led).running_task hl
    obtain ⟨j, -, hrange, hargs⟩ := hagreed.ranged.args .led c hmade
    exact runLed_result hargs hrange hrun hcontext hr
  | light reading c r l v m hl hreading hr hm =>
    obtain ⟨rfl, -, rfl⟩ := runLight_eq hr
    refine h.beside hserving hagreed hm (by cases Manager.step_effect hm; rfl) hreading ?_
    rintro v c' r' ⟨⟩ - -
    exact .inl rfl

theorem Reachable.honest (h : Reachable w s) : Honest s := by
  refine h.invariant_of_reachable (P := Honest) ?_ ?_
  · rintro _ ⟨pin, -, rfl⟩
    exact ⟨Manager.sound_deviceInit, by rintro j c r ⟨⟩, .inl rfl, by rintro rest ⟨⟩, trivial,
      by rintro e ⟨⟩⟩
  · intro s a t (hreach : Reachable w s) hs ht
    obtain ⟨x, hx⟩ := hreach.attending
    exact hs.effect hx hreach.agreed (step_effect ht)

/-- No client is told of a failure but want of memory or of a PWM: every other reply is the one of
working devices, whatever the other threads do or are told to stop. -/
theorem failures_told (h : Reachable w s) :
    ∀ e ∈ s.history, Told (commandParse e.request) e.starved e.reply := h.honest.history

/-- A queued melody is cancelled, `softPwmCreate` fails, and then an allocation. -/
theorem failures_told_cancelled : ∃ s : State Led.Pin,
    (s.history.map Exchange.reply =
      [ascii "ERR DEVICE_ERROR DEVICE_FAILED\n", ascii "ERR DEVICE_ERROR DEVICE_FAILED\n",
        ascii "OK BUZZER OFF\n", ascii "OK BUZZER MUSIC\n", ascii "OK BUZZER MUSIC\n"] ∧
      .cancel 2 1 DeviceResult.cancelled ∈ (s.manager.worker .buzzer).log) ∧
      ∀ e ∈ s.history, Told (commandParse e.request) e.starved e.reply := by
  have hinit : Reachable Led.simplePin (deviceInit Led.simplePin ⟨false, false, none⟩) :=
    .start ⟨_, rfl, rfl⟩
  obtain ⟨s, hs, hrun⟩ := hinit.exists_of_run
    ([.request (ascii "BUZZER MUSIC a"), .exec, .main true] ++
      List.replicate 3 (.worker .buzzer (.submit 0 .ok)) ++
      [.main true, .exec, .worker .buzzer .loop, .request (ascii "BUZZER MUSIC b"), .exec,
        .main true] ++ List.replicate 3 (.worker .buzzer (.submit 1 .ok)) ++
      [.main true, .exec, .request (ascii "BUZZER OFF"), .exec, .main true] ++
      List.replicate 5 (.worker .buzzer (.cancel 2)) ++
      [.main true, .main true, .exec, .request (ascii "LED BRIGHT 5"), .exec, .main true] ++
      servedTask .led 3 (.led (-1)) ++
      [.main true, .exec, .request (ascii "BUZZER BEEP 100"), .exec, .main false, .exec])
    (fun s => decide (s.history.map Exchange.reply =
      [ascii "ERR DEVICE_ERROR DEVICE_FAILED\n", ascii "ERR DEVICE_ERROR DEVICE_FAILED\n",
        ascii "OK BUZZER OFF\n", ascii "OK BUZZER MUSIC\n", ascii "OK BUZZER MUSIC\n"] ∧
      .cancel 2 1 DeviceResult.cancelled ∈ (s.manager.worker .buzzer).log)) (by decide +kernel)
  exact ⟨s, of_decide_eq_true hrun, failures_told hs⟩

end RemoteDevice.System
