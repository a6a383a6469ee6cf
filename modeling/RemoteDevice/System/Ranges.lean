import RemoteDevice.Command.Language
import RemoteDevice.Manager.Ranges
import RemoteDevice.Segment.Blank
import RemoteDevice.System.Service

/-! The range checks of the parser, of the device manager and of the plugins: what the first lets
through the other two accept. -/

namespace RemoteDevice.System
open CText
open Manager (Job Valid Ranged)

variable {π : Type} {w : Led.WiringPi π} {s t : State π} {act : Action}

/-! ## What the parser lets through -/

theorem mem_lineTokens_ne_nil {line token : CText} (h : token ∈ lineTokens line) : token ≠ [] := by
  simpa using (List.mem_filter.mp h).2

def CommandSpec.Bounds (spec : CommandSpec) (command : ParsedCommand) : Prop :=
  match spec.argType with
  | .none => True
  | .int => spec.minValue ≤ command.value ∧ command.value ≤ spec.maxValue
  | .string => command.str ≠ []

theorem parseIntArg_bounds {token : Option CText} {lo hi n : Int} (h : parseIntArg token lo hi = some n) :
    lo ≤ n ∧ n ≤ hi := by
  unfold parseIntArg at h
  split at h
  · cases h
  · cases h
  · simp only [Option.ite_none_left_eq_some, Option.some.injEq] at h
    omega

theorem parseArg_bounds (spec : CommandSpec) {value : Option CText} (extra : Option CText)
    (hvalue : ∀ token, value = some token → token ≠ []) :
    (parseArg spec value extra).type ∈ [.empty, .invalid, .invalidValue] ∨
      (parseArg spec value extra).type = spec.command ∧
        CommandSpec.Bounds spec (parseArg spec value extra) := by
  unfold parseArg CommandSpec.Bounds
  cases spec.argType with
  | none =>
    simp only
    split
    · exact .inl (by decide)
    · exact .inr ⟨rfl, trivial⟩
  | int =>
    simp only
    split
    · exact .inl (by decide)
    · next number hnumber =>
      split at hnumber
      · cases hnumber
      · exact .inr ⟨rfl, parseIntArg_bounds hnumber⟩
  | string =>
    cases value with
    | none => exact .inl (by simp)
    | some token =>
      refine .inr ⟨rfl, fun hnil => ?_⟩
      rcases List.take_eq_nil_iff.mp hnil with hzero | htoken
      · exact absurd hzero (by decide)
      · exact hvalue token rfl htoken

theorem commandParse_bounds (line : CText) :
    (commandParse line).type ∈ [.empty, .invalid, .invalidValue] ∨
      ∃ spec ∈ commandSpecs, (commandParse line).type = spec.command ∧
        CommandSpec.Bounds spec (commandParse line) := by
  by_cases hlong : commandLineMax ≤ line.length
  · rw [commandParse_long hlong]
    exact .inl (by decide)
  rw [commandParse_eq (Nat.not_le.mp hlong)]
  cases htokens : lineTokens line with
  | nil => exact .inl (by decide)
  | cons device words =>
    have hvalue : ∀ token, words[1]? = some token → token ≠ [] := fun token htoken =>
      mem_lineTokens_ne_nil (htokens ▸ List.mem_cons_of_mem _ (List.mem_of_getElem? htoken))
    rw [parseTokens, parseWords]
    cases hfind : commandSpecs.find? (·.Names device words[0]?) with
    | none =>
      left
      simp only
      split <;> decide
    | some spec =>
      have hspec := List.mem_of_find?_eq_some hfind
      exact (parseArg_bounds spec words[2]? hvalue).imp_right fun h => ⟨spec, hspec, h⟩

/-! ## What a command can answer -/

def invalidValueReply : CText := writeDeviceError DeviceResult.invalidValue

theorem invalidValueReply_eq :
    invalidValueReply = ascii "ERR DEVICE_ERROR INVALID_VALUE\n" := by decide

theorem writeDeviceError_ne {result : Int} (h : Valid result) :
    writeDeviceError result ≠ invalidValueReply := by
  unfold writeDeviceError deviceResultMessage
  split_ifs with _ _ _ _ hinvalid <;> first | exact absurd hinvalid h | decide

theorem snprintf_ne {text : CText} (h : text.head? ≠ some 69) : snprintf text ≠ invalidValueReply := by
  intro heq
  have hhead : (snprintf text).head? = text.head? := by
    cases text <;> rfl
  rw [heq] at hhead
  exact h (hhead.symm.trans (by decide))

theorem respond_ne {result : Int} {text : CText} (h : Valid result) (htext : text.head? ≠ some 69) :
    respond result text ≠ invalidValueReply := by
  unfold respond
  split
  · exact snprintf_ne htext
  · exact writeDeviceError_ne h

def ExecProgram.Accepts : ExecProgram → Prop
  | .reply text => text ≠ invalidValueReply
  | .call c next => c.request.inRange = true ∧ ∀ result, Valid result → Accepts (next result)
  | .lightRead next => ∀ result v, Valid result → Accepts (next result v)
  | .getStatus next => ∀ st, Accepts (next st)
  | .pluginStatus next => ∀ st, Accepts (next st)

theorem respondTo_accepts {c : DeviceCall} {text : CText} (hc : c.request.inRange = true)
    (htext : text.head? ≠ some 69) : ExecProgram.Accepts (.respondTo c text) :=
  ⟨hc, fun _ h => respond_ne h htext⟩

theorem switchLamp_accepts {result : Int} (v : Int) (h : Valid result) :
    ExecProgram.Accepts (.switchLamp result v) := by
  have htext : (ExecProgram.lightText v).head? ≠ some 69 := by
    have hhead : (ExecProgram.lightText v).head? = some 68 := rfl
    rw [hhead]
    decide
  unfold ExecProgram.switchLamp
  split
  · split
    · exact respondTo_accepts rfl htext
    split
    · exact respondTo_accepts rfl htext
    · exact respond_ne h htext
  · exact writeDeviceError_ne h

theorem commandSpecs_int : ∀ spec ∈ commandSpecs,
    (spec.command = .ledOnBright → spec.argType = .int ∧ spec.minValue = 0 ∧ spec.maxValue = 255) ∧
    (spec.command = .buzzerBeep →
      spec.argType = .int ∧ spec.minValue = 1 ∧ spec.maxValue = 10000) ∧
    (spec.command = .segDisplay → spec.argType = .int ∧ spec.minValue = 0 ∧ spec.maxValue = 9) ∧
    (spec.command = .buzzerMusic → spec.argType = .string) := by
  decide

theorem commandParse_entry {line : CText} {type : Command} (htype : (commandParse line).type = type)
    (herror : type ∉ [.empty, .invalid, .invalidValue]) :
    ∃ spec ∈ commandSpecs, spec.command = type ∧ CommandSpec.Bounds spec (commandParse line) := by
  subst htype
  obtain ⟨spec, hspec, hcommand, hbounds⟩ := (commandParse_bounds line).resolve_left herror
  exact ⟨spec, hspec, hcommand.symm, hbounds⟩

theorem commandParse_int {line : CText} {type : Command} {lo hi : Int}
    (htype : (commandParse line).type = type) (herror : type ∉ [.empty, .invalid, .invalidValue])
    (htable : ∀ spec ∈ commandSpecs, spec.command = type →
      spec.argType = .int ∧ spec.minValue = lo ∧ spec.maxValue = hi) :
    lo ≤ (commandParse line).value ∧ (commandParse line).value ≤ hi := by
  obtain ⟨spec, hspec, hcommand, hbounds⟩ := commandParse_entry htype herror
  obtain ⟨hint, rfl, rfl⟩ := htable spec hspec hcommand
  rw [CommandSpec.Bounds, hint] at hbounds
  exact hbounds

theorem commandParse_music {line : CText} (htype : (commandParse line).type = .buzzerMusic) :
    (commandParse line).str ≠ [] := by
  obtain ⟨spec, hspec, hcommand, hbounds⟩ := commandParse_entry htype (by decide)
  rw [CommandSpec.Bounds, (commandSpecs_int spec hspec).2.2.2 hcommand] at hbounds
  exact hbounds

theorem helpText_head : helpText.head? = some 79 := by decide +kernel

theorem head_ne {text : CText} {b : UInt8} (h : text.head? = some b) (hb : b ≠ 69) :
    text.head? ≠ some 69 := by
  rw [h]
  exact fun heq => hb (Option.some.inj heq)

theorem execProgram_accepts (line : CText) : ExecProgram.Accepts (execProgram (commandParse line)) := by
  have hbright : (commandParse line).type = .ledOnBright →
      0 ≤ (commandParse line).value ∧ (commandParse line).value ≤ 255 := fun htype =>
    commandParse_int htype (by decide) fun spec hspec => (commandSpecs_int spec hspec).1
  have hbeep : (commandParse line).type = .buzzerBeep →
      1 ≤ (commandParse line).value ∧ (commandParse line).value ≤ 10000 := fun htype =>
    commandParse_int htype (by decide) fun spec hspec => (commandSpecs_int spec hspec).2.1
  have hdigit : (commandParse line).type = .segDisplay →
      0 ≤ (commandParse line).value ∧ (commandParse line).value ≤ 9 := fun htype =>
    commandParse_int htype (by decide) fun spec hspec => (commandSpecs_int spec hspec).2.2.1
  have hmusic := @commandParse_music line
  generalize commandParse line = command at hbright hbeep hdigit hmusic ⊢
  unfold execProgram
  cases htype : command.type with
  | help => exact snprintf_ne (head_ne helpText_head (by decide))
  | quit => exact snprintf_ne (by decide)
  | empty | invalidValue | invalid =>
    -- the parser's own errors have other texts
    show snprintf _ ≠ invalidValueReply
    decide
  | pluginList =>
    intro st
    have hhead : (pluginsText st).head? = some 68 := rfl
    exact snprintf_ne (head_ne hhead (by decide))
  | status =>
    intro st
    have hhead : (statusText st).head? = some 68 := rfl
    exact snprintf_ne (head_ne hhead (by decide))
  | ledOn | ledOff | buzzerOn | buzzerOff | segClear => exact respondTo_accepts rfl (by decide)
  | ledOnBright =>
    have hrange := hbright htype
    have htext : (ascii "OK LED BRIGHT " ++ decimal command.value ++ ascii "\n").head? = some 79 := rfl
    refine respondTo_accepts ?_ (head_ne htext (by decide))
    simpa [DeviceCall.request, Manager.Request.inRange, Job.inRange] using hrange
  | buzzerBeep =>
    have hrange := hbeep htype
    have htext : (ascii "OK BUZZER BEEP " ++ decimal command.value ++ ascii "\n").head? = some 79 := rfl
    refine respondTo_accepts ?_ (head_ne htext (by decide))
    simp only [DeviceCall.request, Manager.Request.inRange, Job.inRange, Bool.and_eq_true,
      decide_eq_true_eq]
    omega
  | segDisplay =>
    have hrange := hdigit htype
    have htext : (ascii "OK SEG DISPLAY " ++ decimal command.value ++ ascii "\n").head? = some 79 := rfl
    refine respondTo_accepts ?_ (head_ne htext (by decide))
    simpa [DeviceCall.request, Manager.Request.inRange] using hrange
  | buzzerMusic =>
    have hpath := hmusic htype
    refine respondTo_accepts ?_ (by decide)
    simpa [DeviceCall.request, Manager.Request.inRange, Job.inRange] using hpath
  | lightRead => exact fun result v h => switchLamp_accepts v h

/-! ## Runs -/

def ExecPc.Accepts : ExecPc → Prop
  | .idle => True
  | .at p | .inside p => ExecProgram.Accepts p

structure Agreed (s : State π) : Prop where
  ranged : Ranged s.manager
  exec : s.exec.Accepts
  history : ∀ e ∈ s.history, e.reply ≠ invalidValueReply

theorem request_inRange {p : ExecProgram} {r : Manager.Request} (h : ExecProgram.Accepts p)
    (hr : p.request = some r) : r.inRange = true := by
  cases p with
  | reply | pluginStatus => cases hr
  | call c next =>
    cases hr
    exact h.1
  | lightRead | getStatus =>
    cases hr
    rfl

theorem returnTo_accepts {p : ExecProgram} {result v : Int} {st : DeviceStatus}
    (h : ExecProgram.Accepts p) (hresult : Valid result) :
    (returnTo v st result (.inside p)).Accepts := by
  cases p with
  | reply | pluginStatus => exact h
  | call c next => exact h.2 result hresult
  | lightRead next => exact h result v hresult
  | getStatus next => exact h st

theorem answered_log {m : Manager.State} {result : Int} (h : answered m = some result) :
    m.main = .idle ∧ ∃ r log, m.log = .returned r result :: log := by
  unfold answered at h
  split at h <;> cases h
  exact ⟨‹_›, _, _, ‹_›⟩

theorem runLed_valid {task : Worker.DeviceTask Manager.TaskFn Manager.Cleanup Manager.Context} {j : Job}
    {created r : Int} {l led : Led.State π} (hrange : j.inRange = true) (hrun : task.run = j.args.run)
    (hcontext : task.context = j.args.context) (h : runLed w task created l = some (r, led)) :
    Valid r := by
  unfold runLed at h
  rw [hrun, hcontext] at h
  cases j with
  | ledOn | ledOff =>
    cases h
    exact Manager.ownCodes_valid.ok
  | ledOnBright b =>
    obtain ⟨rfl, -⟩ := Prod.ext_iff.mp (Option.some.inj h)
    simp only [Job.inRange, Bool.and_eq_true, decide_eq_true_eq] at hrange
    rw [Led.ledOnBright, if_neg (by omega)]
    split
    · exact Manager.ownCodes_valid.deviceFailed
    · exact Manager.ownCodes_valid.ok
  | buzzerMusic | buzzerOn | buzzerBeep | lightRead => cases h

theorem runLight_valid {task : Worker.DeviceTask Manager.TaskFn Manager.Cleanup Manager.Context}
    {reading r v : Int} {l light : Light.State} (h : runLight task reading l = some (r, light, v)) :
    Valid r := by
  unfold runLight at h
  split at h <;> cases h
  exact Manager.ownCodes_valid.ok

theorem Ranged.held {m : Manager.State} (h : Ranged m) (hreach : Manager.Reachable m)
    {v : Manager.WorkerId} {c : Worker.TaskId}
    (hl : (m.worker v).loop = .taken c ∨ (m.worker v).loop = .running c) :
    ∃ j : Job, j.inRange = true ∧ ((m.worker v).heap c).run = j.args.run ∧
      ((m.worker v).heap c).context = j.args.context := by
  obtain ⟨hmade, hrun, hcontext⟩ : (m.worker v).submits c ≠ .idle ∧
      ((m.worker v).heap c).run = ((m.worker v).args c).run ∧
        ((m.worker v).heap c).context = ((m.worker v).args c).context := by
    rcases hl with hl | hl
    · exact (hreach.worker v).taken_task hl
    · obtain ⟨hmade, hrun, hcontext, -⟩ := (hreach.worker v).running_task hl
      exact ⟨hmade, hrun, hcontext⟩
  obtain ⟨j, -, hrange, hargs⟩ := h.args v c hmade
  exact ⟨j, hrange, hrun.trans (congrArg _ hargs), hcontext.trans (congrArg _ hargs)⟩

theorem Agreed.effect (h : Agreed s) {x : Option (Job × Worker.Place)} (hx : Attending s x)
    (he : Effect w s act t) : Agreed t := by
  obtain ⟨hranged, hexec, hhistory⟩ := h
  have hreach := hx.serving.reachable
  cases he with
  | request text hpc => exact ⟨hranged, execProgram_accepts text, hhistory⟩
  | reply text hpc =>
    rw [hpc] at hexec
    exact ⟨hranged, trivial, List.forall_mem_cons.mpr ⟨hexec, hhistory⟩⟩
  | pluginStatus next hpc =>
    rw [hpc] at hexec
    exact ⟨hranged, hexec pluginGetStatus, hhistory⟩
  | enter p r m hpc hr hm =>
    rw [hpc] at hexec
    exact ⟨hranged.step hreach hm (by rintro v r' ⟨⟩), hexec, hhistory⟩
  | main mallocOk m hm ha => exact ⟨hranged.step hreach hm (by rintro v r' ⟨⟩), hexec, hhistory⟩
  | answer mallocOk m result hm ha =>
    refine ⟨hranged.step hreach hm (by rintro v r' ⟨⟩), ?_, hhistory⟩
    obtain ⟨hidle, r', log, hlog⟩ := answered_log ha
    -- an idle event-loop thread makes no step
    obtain ⟨r, hr⟩ : ∃ r, s.manager.main.request = some r := by
      refine Option.ne_none_iff_exists'.mp fun hnone => ?_
      rw [Manager.step, Manager.mainStep, main_idle hnone] at hm
      cases hm
    obtain ⟨p, hpc, hp⟩ := ExecPc.request_eq_some (hx.request.symm.trans hr)
    rw [hpc] at hexec
    have hvalid := hranged.answer_valid hx.serving hm hr (request_inRange hexec hp) hlog hidle
    simp only [State.answer, hpc]
    exact returnTo_accepts hexec hvalid
  | background a m hact hm =>
    refine ⟨hranged.step hreach hm ?_, hexec, hhistory⟩
    rintro v r hv hne
    rw [hv] at hact
    exact (hne (of_decide_eq_true hact)).elim
  | led created c r l m hl hr hm =>
    refine ⟨hranged.step hreach hm ?_, hexec, hhistory⟩
    rintro v r' ⟨⟩ -
    obtain ⟨j, hrange, hrun, hcontext⟩ := Ranged.held hranged hreach (.inr hl)
    exact runLed_valid hrange hrun hcontext hr
  | light reading c r l v m hl hreading hr hm =>
    refine ⟨hranged.step hreach hm ?_, hexec, hhistory⟩
    rintro v' r' ⟨⟩ -
    exact runLight_valid hr

theorem Reachable.agreed (h : Reachable w s) : Agreed s := by
  refine h.invariant_of_reachable (P := Agreed) ?_ ?_
  · rintro _ ⟨pin, -, rfl⟩
    exact ⟨Manager.ranged_deviceInit, trivial, by rintro e ⟨⟩⟩
  · intro s a t hreach hs ht
    obtain ⟨x, hx⟩ := Reachable.attending hreach
    exact hs.effect hx (step_effect ht)

/-! ## The plugin functions with an argument -/

inductive PluginCall
  | ledOnBright (brightness : Int)
  | buzzerBeep (durationMs : Int)
  | buzzerMusic (filePath : CText)
  | segmentDisplay (value : Int)
  deriving DecidableEq

/-- A thread is about to make the call or inside it: a worker holds the task, or the segment thread
has the value to show. -/
inductive Calls (s : State π) : PluginCall → Prop
  | ledOnBright (c : Worker.TaskId) (b : Int)
      (hl : (s.manager.worker .led).loop = .taken c ∨ (s.manager.worker .led).loop = .running c)
      (hrun : ((s.manager.worker .led).heap c).run = some .ledOnBright)
      (hcontext : ((s.manager.worker .led).heap c).context = some (.int b)) :
      Calls s (.ledOnBright b)
  | buzzerBeep (c : Worker.TaskId) (d : Int)
      (hl : (s.manager.worker .buzzer).loop = .taken c ∨
        (s.manager.worker .buzzer).loop = .running c)
      (hrun : ((s.manager.worker .buzzer).heap c).run = some .buzzerBeep)
      (hcontext : ((s.manager.worker .buzzer).heap c).context = some (.int d)) :
      Calls s (.buzzerBeep d)
  | buzzerMusic (c : Worker.TaskId) (filePath : CText)
      (hl : (s.manager.worker .buzzer).loop = .taken c ∨
        (s.manager.worker .buzzer).loop = .running c)
      (hrun : ((s.manager.worker .buzzer).heap c).run = some .buzzerMusic)
      (hcontext : ((s.manager.worker .buzzer).heap c).context = some (.path filePath)) :
      Calls s (.buzzerMusic filePath)
  | segmentDisplay (v : Int) (hpc : s.manager.seg.refresh = .showing v) :
      Calls s (.segmentDisplay v)

def PluginCall.Rejected (w : Led.WiringPi π) : PluginCall → Prop
  | .ledOnBright b => ∃ created l, (Led.ledOnBright w b created l).1 = DeviceResult.invalidValue
  | .buzzerBeep d => Buzzer.buzzerBeep d = .done DeviceResult.invalidValue
  | .buzzerMusic filePath => Buzzer.buzzerMusic filePath = .done DeviceResult.invalidValue
  | .segmentDisplay v => ∃ plugin, (Segment.segmentDisplay plugin v).2 = DeviceResult.invalidValue

theorem ledOnBright_accepted {j : Job} {b : Int} (hrange : j.inRange = true)
    (hrun : j.args.run = some .ledOnBright) (hcontext : j.args.context = some (.int b)) :
    ¬ (PluginCall.ledOnBright b).Rejected w := by
  cases j with
  | ledOnBright b' =>
    cases hcontext
    simp only [Job.inRange, Bool.and_eq_true, decide_eq_true_eq] at hrange
    rintro ⟨created, l, hr⟩
    rw [Led.ledOnBright, if_neg (by omega)] at hr
    split at hr
    · exact Manager.ownCodes_valid.deviceFailed hr
    · exact Manager.ownCodes_valid.ok hr
  | ledOn | ledOff | buzzerMusic | buzzerOn | buzzerBeep | lightRead => cases hrun

theorem buzzerBeep_accepted {j : Job} {d : Int} (hrange : j.inRange = true)
    (hrun : j.args.run = some .buzzerBeep) (hcontext : j.args.context = some (.int d)) :
    ¬ (PluginCall.buzzerBeep d).Rejected w := by
  cases j with
  | buzzerBeep d' =>
    cases hcontext
    simp only [Job.inRange, Bool.and_eq_true, decide_eq_true_eq] at hrange
    intro hr
    rw [PluginCall.Rejected, Buzzer.buzzerBeep, if_neg (by omega)] at hr
    cases hr
  | ledOn | ledOnBright | ledOff | buzzerMusic | buzzerOn | lightRead => cases hrun

theorem buzzerMusic_accepted {j : Job} {filePath : CText} (hrange : j.inRange = true)
    (hrun : j.args.run = some .buzzerMusic) (hcontext : j.args.context = some (.path filePath)) :
    ¬ (PluginCall.buzzerMusic filePath).Rejected w := by
  cases j with
  | buzzerMusic path =>
    cases hcontext
    have hne : filePath ≠ [] := of_decide_eq_true hrange
    intro hr
    rw [PluginCall.Rejected, Buzzer.buzzerMusic, if_neg hne] at hr
    cases hr
  | ledOn | ledOnBright | ledOff | buzzerOn | buzzerBeep | lightRead => cases hrun

theorem segmentDisplay_accepted {v : Int} (h : 0 ≤ v ∧ v ≤ 9) :
    ¬ (PluginCall.segmentDisplay v).Rejected w := by
  rintro ⟨plugin, hr⟩
  rw [Segment.segmentDisplay, if_neg (by omega)] at hr
  exact Manager.ownCodes_valid.ok hr

/-- The parser, the device manager and the plugins agree on their ranges: no command is answered
with `INVALID_VALUE` by the manager, and no plugin function is called out of range. -/
theorem range_checks_agree (h : Reachable w s) :
    (∀ e ∈ s.history, e.reply ≠ ascii "ERR DEVICE_ERROR INVALID_VALUE\n") ∧
      ∀ call, Calls s call → ¬ call.Rejected w := by
  obtain ⟨x, hx⟩ := h.attending
  obtain ⟨hranged, -, hhistory⟩ := h.agreed
  have hreach := hx.serving.reachable
  refine ⟨fun e he => invalidValueReply_eq ▸ hhistory e he, fun call hcall => ?_⟩
  cases hcall with
  | ledOnBright c b hl hrun hcontext =>
    obtain ⟨j, hrange, hrun', hcontext'⟩ := Ranged.held hranged hreach hl
    exact ledOnBright_accepted hrange (hrun'.symm.trans hrun) (hcontext'.symm.trans hcontext)
  | buzzerBeep c d hl hrun hcontext =>
    obtain ⟨j, hrange, hrun', hcontext'⟩ := Ranged.held hranged hreach hl
    exact buzzerBeep_accepted hrange (hrun'.symm.trans hrun) (hcontext'.symm.trans hcontext)
  | buzzerMusic c filePath hl hrun hcontext =>
    obtain ⟨j, hrange, hrun', hcontext'⟩ := Ranged.held hranged hreach hl
    exact buzzerMusic_accepted hrange (hrun'.symm.trans hrun) (hcontext'.symm.trans hcontext)
  | segmentDisplay v hpc => exact segmentDisplay_accepted (hreach.segment.inRange.snapshot v hpc)

theorem range_checks_agree_brightest : ∃ s : State Led.Pin,
    (s.history.map Exchange.reply = [ascii "ERR INVALID_VALUE\n"] ∧
      (s.manager.worker .led).loop = .running 0) ∧
      (∀ e ∈ s.history, e.reply ≠ ascii "ERR DEVICE_ERROR INVALID_VALUE\n") ∧
        ∀ call, Calls s call → ¬ call.Rejected Led.simplePin := by
  have hinit : Reachable Led.simplePin (deviceInit Led.simplePin ⟨false, false, none⟩) :=
    .start ⟨_, rfl, rfl⟩
  obtain ⟨s, hs, hrun⟩ := hinit.exists_of_run
    ([.request (ascii "BUZZER BEEP 0"), .exec, .request (ascii "LED BRIGHT 255"), .exec,
      .main true] ++ List.replicate 3 (.worker .led (.submit 0 .ok)) ++
      List.replicate 2 (.worker .led .loop))
    (fun s => decide (s.history.map Exchange.reply = [ascii "ERR INVALID_VALUE\n"] ∧
      (s.manager.worker .led).loop = .running 0)) (by decide +kernel)
  exact ⟨s, of_decide_eq_true hrun, range_checks_agree hs⟩

end RemoteDevice.System
