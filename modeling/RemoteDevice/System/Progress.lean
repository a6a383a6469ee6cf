import RemoteDevice.Manager.Progress
import RemoteDevice.System.Ranges

/-! Every command gets its reply: from every reachable state a schedule of the threads brings
`exec_command` to its end, whatever the allocators, the plugins and the files answer. -/

namespace RemoteDevice.System
open CText (ascii)
open Manager (Thread)

variable {π : Type} {w : Led.WiringPi π} {s t : State π} {n : ℕ}

def owner (s : State π) : Action → Option Thread
  | .request _ => none
  | .exec => some .eventLoop
  | .main mallocOk => Manager.owner s.manager (.main mallocOk)
  | .beeper mallocOk => Manager.owner s.manager (.beeper mallocOk)
  | .refresh => Manager.owner s.manager .refresh
  | .worker v a => Manager.owner s.manager (.worker v a)
  | .tune x => Manager.owner s.manager (.tune x)
  | .led _ => some (.worker .led)
  | .light _ => some (.worker .light)

def hops : Action → ℕ
  | .tune x => Manager.hops (.tune x)
  | _ => 0

abbrev Forces (w : Led.WiringPi π) (P : State π × ℕ → Prop) : State π × ℕ → Prop :=
  Runs.Forces (fun x => owner x.1) (Runs.limited hops (step w)) P

theorem Forces.reachable {P : State π × ℕ → Prop} (h : Forces w P (s, n)) (hs : Reachable w s) :
    Forces w (fun x => Reachable w x.1 ∧ P x) (s, n) :=
  Runs.Forces.keep h (fun _ _ a _ hx _ _ hstep => .next a hx (Runs.limited_eq_some.mp hstep).2.1) hs

/-! ## The manager inside the server -/

theorem runLed_ready {j : Manager.Job}
    {task : Worker.DeviceTask Manager.TaskFn Manager.Cleanup Manager.Context} (created : Int)
    (l : Led.State π) (hj : j.worker = .led) (hrun : task.run = j.args.run)
    (hcontext : task.context = j.args.context) : ∃ y, runLed w task created l = some y := by
  unfold runLed
  rw [hrun, hcontext]
  cases j with
  | ledOn | ledOnBright b | ledOff => exact ⟨_, rfl⟩
  | buzzerMusic | buzzerOn | buzzerBeep | lightRead => cases hj

theorem runLight_ready {task : Worker.DeviceTask Manager.TaskFn Manager.Cleanup Manager.Context}
    (reading : Int) (l : Light.State) (hrun : task.run = Manager.Job.lightRead.args.run)
    (hcontext : task.context = Manager.Job.lightRead.args.context) :
    ∃ y, runLight task reading l = some y := by
  unfold runLight
  rw [hrun, hcontext]
  exact ⟨_, rfl⟩

theorem managerStep_ready {a : Manager.Action} {m : Manager.State}
    (hm : Manager.step s.manager a = some m) : managerStep s a = some (s.advance a m) := by
  rw [managerStep, hm]
  rfl

theorem Reachable.thread_ready (h : Reachable w s) {i : Thread} {b : Manager.Action}
    {m : Manager.State} (ho : Manager.owner s.manager b = some i)
    (hm : Manager.step s.manager b = some m) (hn : Manager.hops b ≤ n) :
    ∃ a t, owner s a = some i ∧ hops a ≤ n ∧ step w s a = some t := by
  obtain ⟨x, hx⟩ := h.attending
  cases b with
  | request r => cases ho
  | main mallocOk =>
    have hstep : ∃ t, mainStep s mallocOk = some t := by
      have hmanager : Manager.step ({ s with status := observe s } : State π).manager
        (.main mallocOk) = some m := hm
      rw [mainStep, managerStep_ready hmanager]
      exact ⟨_, rfl⟩
    obtain ⟨t, ht⟩ := hstep
    exact ⟨.main mallocOk, t, ho, Nat.zero_le n, ht⟩
  | beeper mallocOk => exact ⟨.beeper mallocOk, _, ho, Nat.zero_le n, managerStep_ready hm⟩
  | refresh => exact ⟨.refresh, _, ho, Nat.zero_le n, managerStep_ready hm⟩
  | tune y => exact ⟨.tune y, _, ho, hn, managerStep_ready hm⟩
  | worker v a =>
    cases hreturns : pluginReturns v a with
    | false =>
      have ht : step w s (.worker v a) = some (s.advance (.worker v a) m) := by
        simp only [step, hreturns, Bool.false_eq_true, if_false]
        exact managerStep_ready hm
      exact ⟨.worker v a, _, ho, Nat.zero_le n, ht⟩
    | true =>
      obtain ⟨r, rfl⟩ : ∃ r, a = .runReturn r := by
        unfold pluginReturns at hreturns
        split at hreturns <;> first | exact ⟨_, rfl⟩ | cases hreturns
      -- the plugin returns what it computes, and the worker takes any result
      have hrunning : ∃ c, (s.manager.worker v).loop = .running c := by
        simp only [Manager.step, Manager.workerStep, Option.ite_none_right_eq_some,
          Option.map_eq_some_iff] at hm
        obtain ⟨-, y, hy, -⟩ := hm
        obtain ⟨c, hl, -⟩ := Worker.runReturn_eq hy
        exact ⟨c, hl⟩
      obtain ⟨c, hl⟩ := hrunning
      have hreturn : ∀ r', v ≠ .buzzer →
          ∃ m, Manager.step s.manager (.worker v (.runReturn r')) = some m := by
        intro r' hv
        simp [Manager.step, Manager.ofThread, hv, Manager.workerStep, Worker.step,
          Worker.runReturn, hl]
      cases v with
      | buzzer => cases hreturns
      | led =>
        obtain ⟨j, p, -, hj, -, hrun, hcontext⟩ := hx.running (by decide) hl
        obtain ⟨⟨r', l⟩, hled⟩ := runLed_ready (w := w) 0 s.led hj hrun hcontext
        obtain ⟨m', hm'⟩ := hreturn r' (by decide)
        have ht : ledStep w s 0 = some { s.advance (.worker .led (.runReturn r')) m' with led := l } := by
          simp only [ledStep, hl, hled, Option.bind_some, managerStep_ready hm', Option.map_some]
        exact ⟨.led 0, _, ho, Nat.zero_le n, ht⟩
      | light =>
        obtain ⟨j, p, -, hj, -, hrun, hcontext⟩ := hx.running (by decide) hl
        obtain rfl : j = .lightRead := by cases j <;> first | rfl | cases hj
        obtain ⟨⟨r', l, v⟩, hlight⟩ := runLight_ready 0 s.light hrun hcontext
        obtain ⟨m', hm'⟩ := hreturn r' (by decide)
        have ht : lightStep s 0 = some
            { s.advance (.worker .light (.runReturn r')) m' with
              light := l
              lightValue := v
              readings := 0 :: s.readings } := by
          simp only [lightStep, hl, true_or, if_true, hlight, Option.bind_some,
            managerStep_ready hm', Option.map_some]
          rfl
        exact ⟨.light 0, _, ho, Nat.zero_le n, ht⟩

structure Within (s t : State π) : Prop where
  history : t.history = s.history
  request : t.request = s.request

theorem step_inside {p : ExecProgram} {a : Action} (hpc : s.exec = .inside p)
    (hs : step w s a = some t) :
    (∃ b, Manager.owner s.manager b = owner s a ∧ Manager.hops b = hops a ∧
      Manager.step s.manager b = some t.manager) ∧ Within s t ∧
    (t.exec = .inside p ∨ ∃ v st result, t.exec = returnTo v st result (.inside p)) := by
  have hmanager : ∀ {b : Manager.Action}, Manager.owner s.manager b = owner s a →
      Manager.hops b = hops a → managerStep s b = some t →
      (∃ b, Manager.owner s.manager b = owner s a ∧ Manager.hops b = hops a ∧
        Manager.step s.manager b = some t.manager) ∧ Within s t ∧
      (t.exec = .inside p ∨ ∃ v st result, t.exec = returnTo v st result (.inside p)) := by
    intro b howner hhops hb
    obtain ⟨m, hm, rfl⟩ := managerStep_eq hb
    exact ⟨⟨b, howner, hhops, hm⟩, ⟨rfl, rfl⟩, .inl hpc⟩
  -- every step is one of the manager: a plugin runs in the step of its return
  cases a with
  | request text => simp [step, hpc] at hs
  | exec => simp [step, execStep, hpc] at hs
  | beeper mallocOk => exact hmanager (b := .beeper mallocOk) rfl rfl hs
  | refresh => exact hmanager (b := .refresh) rfl rfl hs
  | tune x => exact hmanager (b := .tune x) rfl rfl hs
  | worker v a =>
    simp only [step] at hs
    split at hs
    · cases hs
    · exact hmanager (b := .worker v a) rfl rfl hs
  | main mallocOk =>
    obtain ⟨u, hu, ht⟩ := Option.map_eq_some_iff.mp hs
    obtain ⟨m, hm, rfl⟩ := managerStep_eq hu
    simp only [State.advance] at ht
    split at ht <;> subst ht
    · exact ⟨⟨.main mallocOk, rfl, rfl, hm⟩, ⟨rfl, rfl⟩, .inr ⟨_, _, _, congrArg (returnTo _ _ _) hpc⟩⟩
    · exact ⟨⟨.main mallocOk, rfl, rfl, hm⟩, ⟨rfl, rfl⟩, .inl hpc⟩
  | led created =>
    simp only [step, ledStep] at hs
    split at hs
    · obtain ⟨⟨r, l⟩, -, hs⟩ := Option.bind_eq_some_iff.mp hs
      obtain ⟨u, hu, rfl⟩ := Option.map_eq_some_iff.mp hs
      obtain ⟨m, hm, rfl⟩ := managerStep_eq hu
      exact ⟨⟨_, rfl, rfl, hm⟩, ⟨rfl, rfl⟩, .inl hpc⟩
    · cases hs
  | light reading =>
    simp only [step, lightStep] at hs
    split at hs
    · obtain ⟨-, hs⟩ := Option.ite_none_right_eq_some.mp hs
      obtain ⟨⟨r, l, v⟩, -, hs⟩ := Option.bind_eq_some_iff.mp hs
      obtain ⟨u, hu, rfl⟩ := Option.map_eq_some_iff.mp hs
      obtain ⟨m, hm, rfl⟩ := managerStep_eq hu
      exact ⟨⟨_, rfl, rfl, hm⟩, ⟨rfl, rfl⟩, .inl hpc⟩
    · cases hs

theorem Reachable.forces_return (h : Reachable w s) {p : ExecProgram} (hpc : s.exec = .inside p)
    (n : ℕ) : Forces w (fun x => Within s x.1 ∧
      ∃ v st result, x.1.exec = returnTo v st result (.inside p)) (s, n) := by
  obtain ⟨x, hx⟩ := h.attending
  refine Runs.Forces.lift (fun x : State π × ℕ => (x.1.manager, x.2))
    (hx.serving.reachable.forces_idle n)
    (I := fun x => Reachable w x.1 ∧ x.1.exec = .inside p ∧ Within s x.1)
    ⟨h, hpc, rfl, rfl⟩ ?_ ?_ ?_
  · -- inside a call the event-loop thread is not idle
    rintro ⟨t, m⟩ ⟨ht, (hexec : t.exec = .inside p), -⟩ (hidle : t.manager.main = .idle)
    obtain ⟨y, hy⟩ := Reachable.attending ht
    have hsome := hy.inside p hexec
    have hrequest := hy.request
    rw [hidle, hexec] at hrequest
    rw [show p.request = none from hrequest.symm] at hsome
    cases hsome
  · rintro ⟨t, m⟩ i b ⟨t', m'⟩ ⟨ht, hexec, -⟩ ho hb
    obtain ⟨hcost, hb, -⟩ := Runs.limited_eq_some.mp hb
    obtain ⟨a, u, hoa, hle, hu⟩ := Reachable.thread_ready ht ho hb hcost
    exact ⟨a, (u, m - hops a), hoa, Runs.limited_eq_some.mpr ⟨hle, hu, rfl⟩⟩
  · rintro ⟨t, m⟩ i a ⟨t', m'⟩ ⟨ht, hexec, hwithin⟩ ho hs
    obtain ⟨hcost, hs, hm'⟩ := Runs.limited_eq_some.mp hs
    obtain ⟨⟨b, howner, hhops, hb⟩, hwithin', hend⟩ := step_inside hexec hs
    have hsame : Within s t' :=
      ⟨hwithin'.history.trans hwithin.history, hwithin'.request.trans hwithin.request⟩
    rcases hend with hexec' | hreturn
    · refine .inr ⟨⟨.next a ht hs, hexec', hsame⟩, b, howner.trans ho, ?_⟩
      exact Runs.limited_eq_some.mpr ⟨hhops ▸ hcost, hb, by rw [hm', hhops]⟩
    · exact .inl ⟨hsame, hreturn⟩

/-! ## The program of the command -/

theorem Attending.exec_alone {x : Option (Manager.Job × Worker.Place)} (hx : Attending s x)
    (hpc : s.exec.request = none) {a : Action} (ho : owner s a = some .eventLoop)
    (hs : step w s a = some t) : a = .exec := by
  obtain ⟨-, hidle⟩ := hx.outside hpc
  have hreach := hx.serving.reachable
  cases a with
  | exec => rfl
  | request | led | light | beeper | refresh | tune => cases ho
  | main mallocOk =>
    obtain ⟨u, hu, -⟩ := Option.map_eq_some_iff.mp hs
    obtain ⟨m, hm, -⟩ := managerStep_eq hu
    simp [Manager.step, Manager.mainStep, hidle] at hm
  | worker v a =>
    simp only [step] at hs
    split at hs
    · cases hs
    obtain ⟨m, hm, -⟩ := managerStep_eq hs
    cases hreach.eventLoop_move ho hm with
    | submit j c o hmain => cases hidle.symm.trans hmain
    | cancel k hk => rcases hk.2 with hk | hk <;> cases hidle.symm.trans hk
    | stop v hmain => cases hidle.symm.trans hmain

theorem Reachable.forces_exec {P : State π × ℕ → Prop} (h : Reachable w s) (hpc : s.exec.request = none)
    (hready : ∃ t, execStep s = some t)
    (hP : ∀ t, Reachable w t → execStep s = some t → Forces w P (t, n)) : Forces w P (s, n) := by
  obtain ⟨x, hx⟩ := h.attending
  obtain ⟨t, ht⟩ := hready
  refine .turn .eventLoop ⟨.exec, (t, n), rfl, Runs.limited_eq_some.mpr ⟨Nat.zero_le n, ht, rfl⟩⟩ ?_
  rintro a ⟨u, m⟩ ho hu
  obtain ⟨-, hu, hm⟩ := Runs.limited_eq_some.mp hu
  obtain rfl := hx.exec_alone hpc ho hu
  obtain rfl : m = n := hm
  exact hP u (.next .exec h hu) hu

def Replied (s t : State π) : Prop :=
  t.exec = .idle ∧ ∃ e : Exchange, e.request = s.request ∧ t.history = e :: s.history

theorem Replied.of_within {u : State π} (hw : Within s t) (h : Replied t u) : Replied s u := by
  obtain ⟨hidle, e, hrequest, hhistory⟩ := h
  exact ⟨hidle, e, hrequest.trans hw.request, by rw [hhistory, hw.history]⟩

theorem Reachable.forces_call {p : ExecProgram} (h : Reachable w s) (hpc : s.exec = .at p)
    (hp : p.request.isSome = true)
    (ih : ∀ {t : State π} (n : ℕ), Reachable w t →
      (∃ v st result, t.exec = returnTo v st result (.inside p)) →
      Forces w (fun x => Replied t x.1) (t, n)) (n : ℕ) :
    Forces w (fun x => Replied s x.1) (s, n) := by
  have hnone : s.exec.request = none := by rw [hpc]; rfl
  obtain ⟨x, hx⟩ := h.attending
  obtain ⟨-, hidle⟩ := hx.outside hnone
  obtain ⟨r, hr⟩ := Option.isSome_iff_exists.mp hp
  let m := (s.manager.note (.called r)).goto (.called r)
  have hm : Manager.step s.manager (.request r) = some m := if_pos hidle
  have hs : execStep s = some { s.advance (.request r) m with exec := .inside p } := by
    cases p with
    | reply | pluginStatus => cases hp
    | call | lightRead | getStatus =>
      simp only [execStep, hpc, hr, Option.bind_some, managerStep_ready hm, Option.map_some]
  refine h.forces_exec hnone ⟨_, hs⟩ fun t ht hst => ?_
  cases hs.symm.trans hst
  refine ((ht.forces_return rfl n).reachable ht).bind ?_
  rintro ⟨u, k⟩ ⟨hu, hwithin, hend⟩
  refine (ih k hu hend).mono fun x hx => Replied.of_within ?_ hx
  exact ⟨hwithin.history, hwithin.request⟩

theorem Reachable.forces_reply (p : ExecProgram) : ∀ {s : State π} (n : ℕ), Reachable w s →
    s.exec = .at p → Forces w (fun x => Replied s x.1) (s, n) := by
  induction p with
  | reply text =>
    intro s n h hpc
    refine h.forces_exec (by rw [hpc]; rfl) ⟨_, by rw [execStep, hpc]⟩ fun t _ ht => ?_
    rw [execStep, hpc] at ht
    cases ht
    exact .now ⟨rfl, _, rfl, rfl⟩
  | pluginStatus next ih =>
    intro s n h hpc
    refine h.forces_exec (by rw [hpc]; rfl) ⟨_, by rw [execStep, hpc]⟩ fun t hreach ht => ?_
    rw [execStep, hpc] at ht
    cases ht
    exact ih _ n hreach rfl
  | call c next ih =>
    intro s n h hpc
    refine h.forces_call hpc rfl ?_ n
    rintro t k ht ⟨v, st, result, hend⟩
    exact ih result k ht hend
  | lightRead next ih =>
    intro s n h hpc
    refine h.forces_call hpc rfl ?_ n
    rintro t k ht ⟨v, st, result, hend⟩
    exact ih result v k ht hend
  | getStatus next ih =>
    intro s n h hpc
    refine h.forces_call hpc rfl ?_ n
    rintro t k ht ⟨v, st, result, hend⟩
    exact ih st k ht hend

/-- In every reachable state of the server there is a schedule of its threads under which the
command that is executed gets its one reply. -/
theorem command_answered (h : Reachable w s) (hpc : s.exec ≠ .idle) (n : ℕ) :
    Forces w (fun x => Replied s x.1) (s, n) := by
  cases hexec : s.exec with
  | idle => exact (hpc hexec).elim
  | «at» p => exact h.forces_reply p n hexec
  | inside p =>
    refine ((h.forces_return hexec n).reachable h).bind ?_
    rintro ⟨t, m⟩ ⟨(ht : Reachable w t), (hwithin : Within s t), v, st, result, hend⟩
    obtain ⟨q, hq⟩ : ∃ q, t.exec = .at q := by
      obtain ⟨x, hx⟩ := h.attending
      obtain ⟨q, hq⟩ := returnTo_at (hx.inside p hexec) v st result
      exact ⟨q, (show t.exec = _ from hend).trans hq⟩
    exact (ht.forces_reply q m hq).mono fun x hx => Replied.of_within hwithin hx

/-- The event-loop thread sleeps while the light worker reads the sensor. -/
theorem command_answered_reading : ∃ s : State Led.Pin,
    ((s.manager.worker .light).submits 0 = .asleep ∧
      (s.manager.worker .light).loop = .running 0) ∧
      Forces Led.simplePin (fun x => Replied s x.1) (s, 0) := by
  have hinit : Reachable Led.simplePin (deviceInit Led.simplePin ⟨false, false, none⟩) :=
    .start ⟨_, rfl, rfl⟩
  obtain ⟨s, hs, hrun⟩ := hinit.exists_of_run
    ([.request (ascii "LIGHT READ"), .exec, .main true] ++
      List.replicate 4 (.worker .light (.submit 0 .ok)) ++ List.replicate 2 (.worker .light .loop))
    (fun s => !s.exec.isIdle && decide ((s.manager.worker .light).submits 0 = .asleep ∧
      (s.manager.worker .light).loop = .running 0)) (by decide +kernel)
  obtain ⟨hbusy, hplaces⟩ := Bool.and_eq_true_iff.mp hrun
  exact ⟨s, of_decide_eq_true hplaces,
    command_answered hs (fun hidle => by simp [ExecPc.isIdle_iff.mpr hidle] at hbusy) 0⟩

end RemoteDevice.System
