import RemoteDevice.Manager.Threads
import RemoteDevice.Segment.Countdown
import RemoteDevice.System.Lamp
import RemoteDevice.System.Ranges

/-! The countdown as the clients see it: a digit that goes down by one with every tick of the refresh
thread and is dark after 0, until the next `SEG` command. -/

namespace RemoteDevice.System
open CText
open Manager (Request)

variable {π : Type} {w : Led.WiringPi π} {s : State π} {act : Action}

/-! ## The abstract countdown -/

abbrev Timer := Option Nat

def Timer.enabled (t : Timer) : Bool := t.isSome

def Timer.value (t : Timer) : Int := Int.ofNat (t.getD 0)

def Timer.after (t : Timer) (ticks : Nat) : Timer :=
  t.bind fun n => if ticks ≤ n then some (n - ticks) else none

/-- A timer that was set after `since` ticks. -/
structure Countdown where
  timer : Timer := none
  since : Nat := 0

def Countdown.at (c : Countdown) (ticks : Nat) : Timer := c.timer.after (ticks - c.since)

def Timer.dataStatus (t : Timer) (st : DeviceStatus) : CText :=
  statusText { st with segmentEnabled := t.enabled, segmentValue := t.value }

/-- The countdown answers a command between these ticks and becomes `c'`. -/
inductive Countdown.Serves (c : Countdown) (command : ParsedCommand) (began ended : Nat) :
    CText → Countdown → Prop
  | display (n ticks : Nat) (h : command.type = .segDisplay) (hn : command.value = n) (hle : n ≤ 9)
      (hticks : began ≤ ticks ∧ ticks ≤ ended) : Serves c command began ended
        (snprintf (ascii "OK SEG DISPLAY " ++ decimal n ++ ascii "\n")) ⟨some n, ticks⟩
  | clear (ticks : Nat) (h : command.type = .segClear) (hticks : began ≤ ticks ∧ ticks ≤ ended) :
      Serves c command began ended (ascii "OK SEG CLEAR\n") ⟨none, ticks⟩
  | status (ticks : Nat) (st : DeviceStatus) (h : command.type = .status)
      (hticks : began ≤ ticks ∧ ticks ≤ ended) :
      Serves c command began ended (snprintf ((c.at ticks).dataStatus st)) c
  | other (reply : CText) (h : command.type ∉ [.segDisplay, .segClear, .status]) :
      Serves c command began ended reply c

inductive Countdown.Explains : List Exchange → Countdown → Prop
  | start : Explains [] {}
  | serve {history : List Exchange} {e : Exchange} {c c' : Countdown} (h : Explains history c)
      (hsince : c.since ≤ e.began)
      (hserve : c.Serves (commandParse e.request) e.began e.ended e.reply c') :
      Explains (e :: history) c'

def Countdown.Returns (c : Countdown) (r : Request) (ticks : Nat) (result : Int) (c' : Countdown) :
    Prop :=
  match r with
  | .segmentDisplay v =>
    result = DeviceResult.ok ∧ ∃ n : Nat, v = n ∧ n ≤ 9 ∧ c' = ⟨some n, ticks⟩
  | .segmentClear => result = DeviceResult.ok ∧ c' = ⟨none, ticks⟩
  | _ => c' = c

def Countdown.Owes (c : Countdown) (command : ParsedCommand) (began : Nat) :
    ExecProgram → Countdown → Nat → Prop
  | .reply text, now, ticks => ∀ ended, ticks ≤ ended → c.Serves command began ended text now
  | .call k next, now, ticks => ∀ result now' ticks', ticks ≤ ticks' →
      now.Returns k.request ticks' result now' → Owes c command began (next result) now' ticks'
  | .lightRead next, now, ticks => ∀ result v ticks', ticks ≤ ticks' →
      Owes c command began (next result v) now ticks'
  | .getStatus next, now, ticks => ∀ st ticks', ticks ≤ ticks' →
      st.segmentEnabled = (now.at ticks').enabled → st.segmentValue = (now.at ticks').value →
        Owes c command began (next st) now ticks'
  | .pluginStatus next, now, ticks => ∀ st, Owes c command began (next st) now ticks

variable {t : Timer} {c now : Countdown} {command : ParsedCommand} {began ticks ticks' : Nat}

@[simp] theorem Timer.after_zero (t : Timer) : t.after 0 = t := by
  cases t <;> rfl

@[simp] theorem Timer.after_none (k : Nat) : Timer.after none k = none := rfl

theorem Timer.after_after (t : Timer) (j k : Nat) : (t.after j).after k = t.after (j + k) := by
  cases t with
  | none => rfl
  | some n =>
    by_cases hj : j ≤ n
    · simp only [after, Option.bind_some, if_pos hj]
      by_cases hk : k ≤ n - j
      · rw [if_pos hk, if_pos (by omega), Nat.sub_sub]
      · rw [if_neg hk, if_neg (by omega)]
    · simp only [after, Option.bind_some, if_neg hj, Option.bind_none]
      rw [if_neg (by omega)]

theorem Countdown.at_since (t : Timer) (ticks : Nat) : (Countdown.mk t ticks).at ticks = t := by
  simp [Countdown.at]

theorem Countdown.at_add (h : c.since ≤ ticks) (k : Nat) : c.at (ticks + k) = (c.at ticks).after k := by
  rw [Countdown.at, Countdown.at, Timer.after_after, Nat.sub_add_comm h]

theorem Countdown.owes_mono {p : ExecProgram} (h : ticks ≤ ticks')
    (hp : c.Owes command began p now ticks) : c.Owes command began p now ticks' := by
  induction p generalizing now ticks with
  | reply text => exact fun ended hle => hp ended (h.trans hle)
  | call k next => exact fun result now' ticks'' hle => hp result now' ticks'' (h.trans hle)
  | lightRead next => exact fun result v ticks'' hle => hp result v ticks'' (h.trans hle)
  | getStatus next => exact fun st ticks'' hle => hp st ticks'' (h.trans hle)
  | pluginStatus next ih => exact fun st => ih st h (hp st)

theorem Countdown.owes_elsewhere {k : DeviceCall} {text : CText}
    (hk : ∀ v, k.request ≠ .segmentDisplay v) (hclear : k.request ≠ .segmentClear)
    (hcommand : command.type ∉ [.segDisplay, .segClear, .status]) :
    c.Owes command began (.respondTo k text) c ticks := by
  intro result now' ticks' _ hr ended _
  have hnow : now' = c := by
    cases k with
    | segmentDisplay v => exact (hk v rfl).elim
    | segmentClear => exact (hclear rfl).elim
    | _ => exact hr
  exact hnow ▸ .other _ hcommand

theorem respond_ok (text : CText) : respond DeviceResult.ok text = snprintf text := if_pos rfl

theorem Countdown.execProgram_owes : c.Owes command began (execProgram command) c began := by
  unfold execProgram
  cases hcommand : command.type with
  | help | quit | empty | invalidValue | invalid =>
    exact fun ended _ => .other _ (by rw [hcommand]; decide)
  | pluginList => exact fun st ended _ => .other _ (by rw [hcommand]; decide)
  | status =>
    intro st ticks hbegan henabled hvalue ended hended
    have hst : (c.at ticks).dataStatus st = statusText st := by
      rw [Timer.dataStatus, ← henabled, ← hvalue]
    exact hst ▸ .status ticks st hcommand ⟨hbegan, hended⟩
  | ledOn | ledOnBright | ledOff | buzzerMusic | buzzerOn | buzzerOff | buzzerBeep =>
    exact owes_elsewhere (by rintro v ⟨⟩) (by rintro ⟨⟩) (by rw [hcommand]; decide)
  | lightRead =>
    have hother : command.type ∉ [.segDisplay, .segClear, .status] := by rw [hcommand]; decide
    intro result v ticks _
    unfold ExecProgram.switchLamp
    split_ifs
    · exact owes_elsewhere (by rintro v ⟨⟩) (by rintro ⟨⟩) hother
    · exact owes_elsewhere (by rintro v ⟨⟩) (by rintro ⟨⟩) hother
    · exact fun ended _ => .other _ hother
    · exact fun ended _ => .other _ hother
  | segDisplay =>
    rintro result now ticks hbegan ⟨rfl, n, hn, hnine, rfl⟩ ended hended
    rw [respond_ok, show command.value = n from hn]
    exact .display n ticks hcommand hn hnine ⟨hbegan, hended⟩
  | segClear =>
    rintro result now ticks hbegan ⟨rfl, rfl⟩ ended hended
    exact .clear ticks hcommand ⟨hbegan, hended⟩

/-! ## The countdown of the manager -/

variable {x y : Segment.State}

def segTimer (x : Segment.State) : Timer := if x.enabled then some x.value.toNat else none

structure Settled (x : Segment.State) : Prop where
  off : x.running = true → x.enabled = false → x.value = 0
  clearing : x.caller = .clearing → x.enabled = false

theorem Settled.refresh (h : Settled x) (hs : Segment.segmentRefreshLoop x = some y) : Settled y := by
  cases Segment.refresh_branch hs with
  | expires _ _ _ hvalue => exact ⟨fun _ _ => hvalue, fun _ => rfl⟩
  | counts _ _ henabled =>
    refine ⟨fun _ hoff => ?_, fun hc => h.clearing hc⟩
    cases hoff.symm.trans henabled
  | _ => exact ⟨h.off, h.clearing⟩

theorem settled (h : Segment.Reachable x) : Settled x := by
  refine h.invariant (P := Settled) (by rintro _ rfl; exact ⟨fun _ _ => rfl, by rintro ⟨⟩⟩) ?_
  intro x a y hx hs
  cases a <;> simp only [Segment.step] at hs
  case refresh => exact hx.refresh hs
  case displayCall v =>
    split at hs <;> cases hs
    next hidle =>
    unfold Segment.deviceSegmentDisplay
    split
    · exact hx
    · refine ⟨fun _ hoff => (Bool.noConfusion hoff), fun hc => ?_⟩
      cases hidle.symm.trans hc
  case clearCall => split at hs <;> cases hs; exact ⟨fun _ _ => rfl, fun _ => rfl⟩
  case clearPlugin => split at hs <;> cases hs; exact ⟨hx.off, by rintro ⟨⟩⟩
  case stopCall =>
    split at hs <;> cases hs
    refine ⟨by rintro ⟨⟩, fun _ => rfl⟩
  case join => split at hs <;> cases hs; exact ⟨hx.off, by rintro ⟨⟩⟩

theorem segTimer_off (h : x.enabled = false) : segTimer x = none := by
  simp [segTimer, h]

theorem segTimer_refresh (h : Segment.Reachable x) (hrunning : x.running = true)
    (hs : Segment.segmentRefreshLoop x = some y) :
    segTimer y = (segTimer x).after (decide (x.refresh = .tick)).toNat := by
  have hquiet : ∀ {pc : Segment.RefreshPc}, x.refresh = pc → pc ≠ .tick → segTimer y = segTimer x →
      segTimer y = (segTimer x).after (decide (x.refresh = .tick)).toNat := by
    rintro pc rfl hpc heq
    rw [decide_eq_false hpc, Bool.toNat_false, Timer.after_zero, heq]
  obtain ⟨hzero, -⟩ := h.inRange.value
  cases Segment.refresh_branch hs with
  | expires hpc _ henabled hvalue =>
    rw [decide_eq_true hpc, segTimer_off rfl, segTimer, henabled, if_pos rfl, hvalue]
    rfl
  | counts hpc _ henabled hvalue =>
    have hone : 1 ≤ x.value.toNat := by omega
    have hdown : (x.value - 1).toNat = x.value.toNat - 1 := by omega
    simp only [decide_eq_true hpc, segTimer, henabled, if_true, Timer.after, Option.bind_some,
      Bool.toNat_true, hone, hdown]
  | passes hpc hoff =>
    rw [segTimer_off (hoff hrunning), segTimer_off (x := { x with refresh := .snapshot }) (hoff hrunning),
      Timer.after_none]
  | stops hpc | idles hpc | takes hpc | blanks hpc | dozes hpc | displays v hpc | holds hpc
  | clears hpc | beeps hpc | leaves hpc => exact hquiet hpc (by rintro ⟨⟩) rfl

theorem segTimer_shown (h : Segment.Reachable x) (hrunning : x.running = true) :
    x.enabled = (segTimer x).enabled ∧ x.value = (segTimer x).value := by
  obtain ⟨hzero, -⟩ := h.inRange.value
  cases henabled : x.enabled with
  | true =>
    simp only [segTimer, henabled, if_true, Timer.enabled, Timer.value]
    exact ⟨rfl, (Int.toNat_of_nonneg hzero).symm⟩
  | false =>
    rw [segTimer_off henabled]
    exact ⟨rfl, (settled h).off hrunning henabled⟩

theorem segTimer_display {v : Int} (hv : 0 ≤ v ∧ v ≤ 9) (hs : Segment.step x (.displayCall v) = some y) :
    segTimer y = some v.toNat := by
  simp only [Segment.step, Option.ite_none_right_eq_some] at hs
  obtain ⟨-, rfl⟩ := hs.imp_right Option.some.inj
  rw [Segment.deviceSegmentDisplay, if_neg (by omega)]
  rfl

theorem segment_serving {m : Manager.State} (h : Manager.Serving m) : m.seg.running = true ∧
    (m.main = .segmentClearing → m.seg.caller = .clearing) := by
  have hcaller := h.reachable.engaged.caller
  have hclearing : m.main = .segmentClearing → m.seg.caller = .clearing := by
    intro hpc
    unfold Manager.State.CallerAt at hcaller
    rw [hpc] at hcaller
    exact hcaller
  refine ⟨h.reachable.segment.started.running ?_, hclearing⟩
  by_cases hpc : m.main = .segmentClearing
  · exact .inr (hclearing hpc)
  · refine .inl ((Manager.callerAt_iff ?_).mp hcaller h.initialized)
    cases hm : m.main with
    | segmentClearing => exact (hpc hm).elim
    | cleanup stage => exact (h.request (congrArg Manager.MainPc.request hm)).elim
    | _ => rfl

theorem segTimer_background {a : Manager.Action} {m m' : Manager.State} (hserving : Manager.Serving m)
    (ha : a.background = true) (hm : Manager.step m a = some m') :
    segTimer m'.seg = (segTimer m.seg).after (countsDown m a).toNat := by
  have hquiet : segTimer m'.seg = segTimer m.seg → countsDown m a = false →
      segTimer m'.seg = (segTimer m.seg).after (countsDown m a).toNat := by
    rintro heq hno
    rw [hno, Bool.toNat_false, Timer.after_zero, heq]
  obtain ⟨hrunning, -⟩ := segment_serving hserving
  have hreach := hserving.reachable.segment
  cases Manager.step_effect hm with
  | beeperReturn y hr _ hy =>
    refine hquiet ?_ rfl
    have hticks := segTimer_refresh hreach hrunning hy
    rw [hr] at hticks
    exact hticks.trans (Timer.after_zero _)
  | refresh y _ hy =>
    have hticks := segTimer_refresh hreach hrunning hy
    rwa [show countsDown m .refresh = decide (m.seg.refresh = .tick) by simp [countsDown]]
  | beeperChecked | beeperSubmit | worker | tune => exact hquiet rfl rfl
  | _ => cases ha

theorem not_countsDown {m : Manager.State} {a : Manager.Action} (h : a ≠ .refresh) :
    countsDown m a = false := by
  simp [countsDown, h]

theorem segTimer_main {m m' : Manager.State} {b : Bool} (hserving : Manager.Serving m)
    (hm : Manager.step m (.main b) = some m') (ha : answered m' = none) :
    m'.main = .segmentClearing ∨ m.main ≠ .segmentClearing ∧ segTimer m'.seg = segTimer m.seg := by
  have hcleanup : ∀ stage, m.main ≠ .cleanup stage := fun stage hpc =>
    hserving.request (congrArg Manager.MainPc.request hpc)
  have hother : ∀ {pc : Manager.MainPc}, m.main = pc → pc ≠ .segmentClearing →
      m'.seg = m.seg → m'.main = .segmentClearing ∨
        m.main ≠ .segmentClearing ∧ segTimer m'.seg = segTimer m.seg := by
    rintro pc rfl hpc hseg
    exact .inr ⟨hpc, congrArg segTimer hseg⟩
  cases Manager.step_effect hm with
  | clear => exact .inl rfl
  | display | cleared => cases ha
  | stopSegment y hpc | join y hpc => exact (hcleanup _ hpc).elim
  | _ => exact hother ‹m.main = _› (by rintro ⟨⟩) rfl

theorem segTimer_answer {m m' : Manager.State} {b : Bool} {r r' : Request} {result : Int}
    {log : List Manager.Entry} (hserving : Manager.Serving m)
    (hm : Manager.step m (.main b) = some m') (hr : m.main.request = some r)
    (hrange : r.inRange = true) (hlog : m'.log = .returned r' result :: log)
    (hidle : m'.main = .idle) (hsince : now.since ≤ ticks)
    (hnow : m.main = .segmentClearing ∨ segTimer m.seg = now.at ticks) :
    ∃ now' : Countdown, now.Returns r ticks result now' ∧ now'.since ≤ ticks ∧
      segTimer m'.seg = now'.at ticks := by
  have hrequest : ∀ {pc : Manager.MainPc}, m.main = pc → pc.request = some r := by
    rintro pc rfl
    exact hr
  have hsame : ∀ {pc : Manager.MainPc}, m.main = pc → pc ≠ .segmentClearing → segTimer m.seg = now.at ticks := by
    rintro pc rfl hpc
    exact hnow.resolve_left hpc
  cases Manager.step_effect hm with
  | uninitialized r'' hpc hi => cases hi.symm.trans hserving.initialized
  | rejected j result' hpc | submitted j c result' hpc =>
    cases hrequest hpc
    exact ⟨now, rfl, hsince, hsame hpc (by rintro ⟨⟩)⟩
  | off hpc | gotStatus hpc =>
    cases hrequest hpc
    exact ⟨now, rfl, hsince, hsame hpc (by rintro ⟨⟩)⟩
  | display v y hpc hi hy =>
    cases hrequest hpc
    simp only [Request.inRange, Bool.and_eq_true, decide_eq_true_eq] at hrange
    have hok : result = DeviceResult.ok := by
      rw [answer_returned hlog, Segment.deviceSegmentDisplay, if_neg (by omega)]
    refine ⟨⟨some v.toNat, ticks⟩, ⟨hok, v.toNat, by omega, by omega, rfl⟩, le_rfl, ?_⟩
    rw [Countdown.at_since]
    exact segTimer_display hrange hy
  | cleared y hpc hy =>
    cases hrequest hpc
    refine ⟨⟨none, ticks⟩, ⟨answer_returned hlog, rfl⟩, le_rfl, ?_⟩
    rw [Countdown.at_since]
    have hoff := (settled hserving.reachable.segment).clearing ((segment_serving hserving).2 hpc)
    simp only [Segment.step, Option.ite_none_right_eq_some] at hy
    cases hy.2
    exact segTimer_off hoff
  | join y hpc => cases hpc.symm.trans hidle
  | close hpc => cases hserving.request (congrArg Manager.MainPc.request hpc)
  -- no other step answers the request
  | _ => cases hidle

/-! ## Runs -/

def State.timer (s : State π) : Timer := segTimer s.manager.seg

/-- The countdown has given the replies and keeps to the command that is executed. While the plugin call
of `device_segment_clear` is still to come the display is dark already. -/
def Displays (s : State π) : Prop :=
  ∃ c : Countdown, Countdown.Explains s.history c ∧ c.since ≤ s.ticks ∧
    match s.exec with
    | .idle => s.timer = c.at s.ticks
    | .at p | .inside p => c.since ≤ s.began ∧ ∃ now : Countdown, now.since ≤ s.ticks ∧
        c.Owes (commandParse s.request) s.began p now s.ticks ∧
          (s.manager.main = .segmentClearing ∨ s.timer = now.at s.ticks)

theorem Displays.executing (h : Displays s) {p : ExecProgram} (hpc : s.exec = .at p ∨ s.exec = .inside p) :
    ∃ c now : Countdown, Countdown.Explains s.history c ∧ c.since ≤ s.ticks ∧ c.since ≤ s.began ∧
      now.since ≤ s.ticks ∧ c.Owes (commandParse s.request) s.began p now s.ticks ∧
        (s.manager.main = .segmentClearing ∨ s.timer = now.at s.ticks) := by
  obtain ⟨c, hc, hsince, hstate⟩ := h
  rcases hpc with hpc | hpc
  all_goals
    rw [hpc] at hstate
    obtain ⟨hbegan, now, hnow, howes, hclear⟩ := hstate
    exact ⟨c, now, hc, hsince, hbegan, hnow, howes, hclear⟩

theorem Attending.not_clearing {x : Option (Manager.Job × Worker.Place)} (hx : Attending s x)
    (hnone : s.exec.request = none) : s.manager.main ≠ .segmentClearing := by
  rw [(hx.outside hnone).2]
  rintro ⟨⟩

theorem Displays.later (h : Displays s) {a : Manager.Action} {m : Manager.State} {t : State π}
    (hidle : s.exec = .idle → m.main ≠ .segmentClearing)
    (hturn : m.main = .segmentClearing ∨ s.manager.main ≠ .segmentClearing ∧
      segTimer m.seg = (segTimer s.manager.seg).after (countsDown s.manager a).toNat)
    (hmanager : t.manager = m) (hticks : t.ticks = s.ticks + (countsDown s.manager a).toNat)
    (hexec : t.exec = s.exec) (hrequest : t.request = s.request) (hbegan : t.began = s.began)
    (hhistory : t.history = s.history) : Displays t := by
  have hle : s.ticks ≤ t.ticks := hticks ▸ Nat.le_add_right ..
  have htimer : ∀ {c : Countdown}, c.since ≤ s.ticks → s.timer = c.at s.ticks →
      m.main ≠ .segmentClearing → t.timer = c.at t.ticks := by
    intro c hc heq hne
    rw [hticks, Countdown.at_add hc, ← heq, State.timer, hmanager]
    exact (hturn.resolve_left hne).2
  obtain ⟨c, hc, hsince, hstate⟩ := h
  refine ⟨c, hhistory ▸ hc, hsince.trans hle, ?_⟩
  rw [hexec, hrequest, hbegan, hmanager]
  split at hstate
  · next hpc => exact htimer hsince hstate (hidle hpc)
  all_goals
    obtain ⟨hcbegan, now, hnow, howes, hclear⟩ := hstate
    refine ⟨hcbegan, now, hnow.trans hle, Countdown.owes_mono hle howes, ?_⟩
    refine or_iff_not_imp_left.mpr fun hne => ?_
    exact htimer hnow (hclear.resolve_left (hturn.resolve_left hne).1) hne

theorem Displays.beside (h : Displays s) {x : Option (Manager.Job × Worker.Place)}
    (hx : Attending s x) {a : Manager.Action} {m : Manager.State} {t : State π}
    (hmain : m.main = s.manager.main)
    (htimer : segTimer m.seg = (segTimer s.manager.seg).after (countsDown s.manager a).toNat)
    (hmanager : t.manager = m) (hticks : t.ticks = s.ticks + (countsDown s.manager a).toNat)
    (hexec : t.exec = s.exec) (hrequest : t.request = s.request) (hbegan : t.began = s.began)
    (hhistory : t.history = s.history) : Displays t := by
  refine h.later (fun hpc => ?_) ?_ hmanager hticks hexec hrequest hbegan hhistory
  · rw [hmain]
    exact hx.not_clearing (by rw [hpc]; rfl)
  · by_cases hclearing : s.manager.main = .segmentClearing
    · exact .inl (hmain.trans hclearing)
    · exact .inr ⟨hclearing, htimer⟩

theorem segTimer_worker {v : Manager.WorkerId} {a : Manager.WorkerAction} {m m' : Manager.State}
    (hm : Manager.step m (.worker v a) = some m') : m'.main = m.main ∧
      segTimer m'.seg = (segTimer m.seg).after (countsDown m (.worker v a)).toNat := by
  cases Manager.step_effect hm with
  | worker =>
    refine ⟨rfl, ?_⟩
    rw [not_countsDown (by rintro ⟨⟩)]
    exact (Timer.after_zero _).symm

theorem Countdown.owes_returnTo {now' : Countdown} {p q : ExecProgram} {r : Request} {v result : Int}
    {st : DeviceStatus} (hp : c.Owes command began p now ticks) (hr : p.request = some r)
    (hq : returnTo v st result (.inside p) = .at q) (hreturns : now.Returns r ticks result now')
    (hst : r = .getStatus → st.segmentEnabled = (now.at ticks).enabled ∧
      st.segmentValue = (now.at ticks).value) : c.Owes command began q now' ticks := by
  cases p with
  | reply | pluginStatus => cases hr
  | call k next =>
    cases hr
    cases hq
    exact hp result now' ticks le_rfl hreturns
  | lightRead next =>
    cases hr
    cases hq
    obtain rfl : now' = now := hreturns
    exact hp result v ticks le_rfl
  | getStatus next =>
    cases hr
    cases hq
    obtain rfl : now' = now := hreturns
    exact hp st ticks le_rfl (hst rfl).1 (hst rfl).2

theorem Displays.answer (h : Displays s) {x : Option (Manager.Job × Worker.Place)}
    (hx : Attending s x) (hagreed : Agreed s) {mallocOk : Bool} {m : Manager.State} {result : Int}
    (hm : Manager.step s.manager (.main mallocOk) = some m) (ha : answered m = some result) :
    Displays (s.answer mallocOk m result) := by
  have hserving := hx.serving
  obtain ⟨hidle, r', log, hlog⟩ := answered_log ha
  obtain ⟨r, hr⟩ := main_request hm
  obtain ⟨p, hpc, hp⟩ := ExecPc.request_eq_some (hx.request.symm.trans hr)
  obtain ⟨c, now, hc, hsince, hbegan, hnow, howes, hclear⟩ := h.executing (.inr hpc)
  have haccepts := hagreed.exec
  rw [hpc] at haccepts
  obtain ⟨now', hreturns, hnow', htimer⟩ :=
    segTimer_answer hserving hm hr (request_inRange haccepts hp) hlog hidle hnow hclear
  obtain ⟨q, hq⟩ := returnTo_at (hx.inside p hpc) s.lightValue (observe s) result
  have hexec : (s.answer mallocOk m result).exec = .at q := by
    simp only [State.answer, hpc]
    exact hq
  have hticks : (s.answer mallocOk m result).ticks = s.ticks := by
    simp [State.answer, State.advance, not_countsDown]
  refine ⟨c, hc, hticks ▸ hsince, ?_⟩
  rw [hexec, hticks]
  refine ⟨hbegan, now', hnow', Countdown.owes_returnTo howes hp hq hreturns ?_, .inr htimer⟩
  rintro rfl
  have hreading := reading_done hm hr hidle hserving.initialized
  have hshown : s.timer = now.at s.ticks := hclear.resolve_left (by rw [hreading]; rintro ⟨⟩)
  rw [← hshown]
  simp only [observe, hreading]
  exact segTimer_shown hserving.reachable.segment (segment_serving hserving).1

theorem Displays.effect {t : State π} (h : Displays s) {x : Option (Manager.Job × Worker.Place)}
    (hx : Attending s x) (hagreed : Agreed s) (he : Effect w s act t) : Displays t := by
  cases he with
  | request text hpc =>
    obtain ⟨c, hc, hsince, htimer⟩ := h
    rw [hpc] at htimer
    exact ⟨c, hc, hsince, hsince, c, hsince, Countdown.execProgram_owes, .inr htimer⟩
  | reply text hpc =>
    obtain ⟨c, now, hc, -, hbegan, hnow, howes, hclear⟩ := h.executing (.inl hpc)
    -- between two calls no clear is under way, so the display agrees with the timer
    have htimer := hclear.resolve_left (hx.not_clearing (by rw [hpc]; rfl))
    exact ⟨now, .serve hc hbegan (howes s.ticks le_rfl), hnow, htimer⟩
  | pluginStatus next hpc =>
    obtain ⟨c, now, hc, hsince, hbegan, hnow, howes, hclear⟩ := h.executing (.inl hpc)
    exact ⟨c, hc, hsince, hbegan, now, hnow, howes pluginGetStatus, hclear⟩
  | enter p r m hpc hr hm =>
    obtain ⟨c, now, hc, hsince, hbegan, hnow, howes, hclear⟩ := h.executing (.inl hpc)
    have htimer := hclear.resolve_left (hx.not_clearing (by rw [hpc]; rfl))
    have hseg : m.seg = s.manager.seg := by
      cases Manager.step_effect hm
      rfl
    have hticks : (s.advance (.request r) m).ticks = s.ticks := by
      simp [State.advance, not_countsDown]
    refine ⟨c, hc, hticks.symm ▸ hsince, hbegan, now, hticks.symm ▸ hnow, ?_, .inr ?_⟩
    · exact Countdown.owes_mono hticks.ge howes
    · show segTimer m.seg = now.at (s.advance (.request r) m).ticks
      rw [hseg, hticks]
      exact htimer
  | main mallocOk m hm ha =>
    obtain ⟨r, hr⟩ := main_request hm
    obtain ⟨p, hpc, -⟩ := ExecPc.request_eq_some (hx.request.symm.trans hr)
    have hno : countsDown s.manager (.main mallocOk) = false := not_countsDown (by rintro ⟨⟩)
    refine h.later (a := .main mallocOk) (fun hidle => ?_) ?_ rfl rfl rfl rfl rfl rfl
    · cases hidle.symm.trans hpc
    · rw [hno]
      exact (segTimer_main hx.serving hm ha).imp_right (.imp_right fun h => h.trans (Timer.after_zero _).symm)
  | answer mallocOk m result hm ha => exact h.answer hx hagreed hm ha
  | background a m hact hm =>
    exact h.beside hx (background_main hact hm) (segTimer_background hx.serving hact hm)
      rfl rfl rfl rfl rfl rfl
  | led created c r l m hl hr hm =>
    obtain ⟨hmain, htimer⟩ := segTimer_worker hm
    exact h.beside hx hmain htimer rfl rfl rfl rfl rfl rfl
  | light reading c r l v m hl hreading hr hm =>
    obtain ⟨hmain, htimer⟩ := segTimer_worker hm
    exact h.beside hx hmain htimer rfl rfl rfl rfl rfl rfl

theorem Reachable.displays (h : Reachable w s) : Displays s := by
  refine h.invariant_of_reachable (P := Displays) ?_ ?_
  · rintro _ ⟨pin, -, rfl⟩
    exact ⟨{}, .start, le_rfl, rfl⟩
  · intro s a t (hreach : Reachable w s) hs ht
    obtain ⟨x, hx⟩ := hreach.attending
    exact hs.effect hx hreach.agreed (step_effect ht)

/-- What `STATUS` shows of the display is a countdown from the digit of the last `SEG DISPLAY`, one
lower with every tick of the refresh thread and dark after 0 or a `SEG CLEAR`: it explains the
replies, and between two commands the manager's own stands where it does. -/
theorem countdown_refined (h : Reachable w s) (hpc : s.exec = .idle) :
    ∃ c : Countdown, Countdown.Explains s.history c ∧ c.since ≤ s.ticks ∧
      s.manager.seg.enabled = (c.at s.ticks).enabled ∧ s.manager.seg.value = (c.at s.ticks).value := by
  obtain ⟨c, hc, hsince, htimer⟩ := h.displays
  rw [hpc] at htimer
  obtain ⟨x, hx⟩ := h.attending
  refine ⟨c, hc, hsince, ?_⟩
  rw [← htimer]
  exact segTimer_shown hx.serving.reachable.segment (segment_serving hx.serving).1

/-- `STATUS` while the countdown from 2 stands at 1, and after its end. -/
theorem countdown_refined_expired : ∃ s : State Led.Pin,
    s.history.map (fun e => (e.reply, e.began, e.ended)) =
      [(ascii "DATA STATUS INIT=ON LED=OFF BUZZER=OFF LIGHT=-1 SEG=OFF SEG_VALUE=0\n", 3, 3),
        (ascii "DATA STATUS INIT=ON LED=OFF BUZZER=OFF LIGHT=-1 SEG=ON SEG_VALUE=1\n", 1, 1),
        (ascii "OK SEG DISPLAY 2\n", 0, 0)] ∧
      ∃ c : Countdown, Countdown.Explains s.history c ∧ c.since ≤ s.ticks ∧
        s.manager.seg.enabled = (c.at s.ticks).enabled ∧
          s.manager.seg.value = (c.at s.ticks).value := by
  have hinit : Reachable Led.simplePin (deviceInit Led.simplePin ⟨false, false, none⟩) :=
    .start ⟨_, rfl, rfl⟩
  obtain ⟨s, hs, hrun⟩ := hinit.exists_of_run
    ([.request (ascii "SEG DISPLAY 2"), .exec, .main true, .exec] ++ List.replicate 4 .refresh ++
      [.request (ascii "STATUS"), .exec] ++ List.replicate 5 (.main true) ++ [.exec] ++
      List.replicate 8 .refresh ++ [.request (ascii "STATUS"), .exec] ++
      List.replicate 5 (.main true) ++ [.exec])
    (fun s => s.exec.isIdle && decide (s.history.map (fun e => (e.reply, e.began, e.ended)) =
      [(ascii "DATA STATUS INIT=ON LED=OFF BUZZER=OFF LIGHT=-1 SEG=OFF SEG_VALUE=0\n", 3, 3),
        (ascii "DATA STATUS INIT=ON LED=OFF BUZZER=OFF LIGHT=-1 SEG=ON SEG_VALUE=1\n", 1, 1),
        (ascii "OK SEG DISPLAY 2\n", 0, 0)])) (by decide +kernel)
  obtain ⟨hidle, hhistory⟩ := Bool.and_eq_true_iff.mp hrun
  exact ⟨s, of_decide_eq_true hhistory, countdown_refined hs (ExecPc.isIdle_iff.mp hidle)⟩

end RemoteDevice.System
