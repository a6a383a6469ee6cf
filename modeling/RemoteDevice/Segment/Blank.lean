import Mathlib.Tactic.ByContra
import RemoteDevice.Segment.Model

/-! How long the display stays blank after `device_segment_clear`. -/

namespace RemoteDevice.Segment

def Event.effective : Event → Bool
  | .display v => 0 ≤ v ∧ v ≤ 9
  | .clear | .cleared => true
  | _ => false

def Event.isClear (e : Event) : Prop := e = .clear ∨ e = .cleared

def StaysBlank (s : State) : Prop :=
  ∀ as t, (∀ v : Int, 0 ≤ v → v ≤ 9 → .displayCall v ∉ as) → Runs.run step s as = some t →
    (∃ new, t.log = new ++ s.log ∧ ∀ v, .display v ∈ new → ¬ (0 ≤ v ∧ v ≤ 9)) ∧
    (∃ e, t.log.find? Event.effective = some e ∧ e.isClear) ∧ t.plugin = segmentClear

structure Quiet (s : State) : Prop where
  enabled : s.enabled = false
  refresh : ∀ v, s.refresh ≠ .showing v
  last : ∃ e, s.log.find? Event.effective = some e ∧ e.isClear
  plugin : s.plugin = segmentClear

theorem Quiet.refreshLoop {s t : State} (h : Quiet s) (hs : segmentRefreshLoop s = some t) :
    Quiet t ∧ ∃ new, t.log = new ++ s.log ∧ ∀ v, .display v ∉ new := by
  obtain ⟨hen, hpc, hlast, hplug⟩ := h
  cases refresh_branch hs with
  | takes _ _ hon | expires _ _ hon | counts _ _ hon => cases hon.symm.trans hen
  | displays v hpc' => exact (hpc v hpc').elim
  | stops | idles | passes => exact ⟨⟨hen, nofun, hlast, hplug⟩, [], rfl, nofun⟩
  | blanks | clears | leaves => exact ⟨⟨hen, nofun, ⟨_, rfl, .inl rfl⟩, rfl⟩, [.clear], rfl, by simp⟩
  | dozes | holds => exact ⟨⟨hen, nofun, hlast, hplug⟩, [.sleep _], rfl, by simp⟩
  | beeps => exact ⟨⟨hen, nofun, hlast, hplug⟩, [.beep 200], rfl, by simp⟩

theorem Quiet.step {s t : State} {a : Action} (h : Quiet s) (hs : step s a = some t)
    (ha : ∀ v : Int, 0 ≤ v → v ≤ 9 → a ≠ .displayCall v) :
    Quiet t ∧ ∃ new, t.log = new ++ s.log ∧ ∀ v, .display v ∉ new := by
  cases a <;> simp only [Segment.step] at hs
  case refresh => exact h.refreshLoop hs
  case displayCall v =>
    split at hs <;> cases hs
    have hv : v < 0 ∨ v > 9 := by
      by_contra hv
      exact ha v (by omega) (by omega) rfl
    rw [deviceSegmentDisplay, if_pos hv]
    exact ⟨h, [], rfl, nofun⟩
  case clearPlugin =>
    split at hs <;> cases hs
    exact ⟨⟨h.enabled, h.refresh, ⟨_, rfl, .inr rfl⟩, rfl⟩, [.cleared], rfl, by simp⟩
  case clearCall | stopCall =>
    split at hs <;> cases hs
    exact ⟨⟨rfl, h.refresh, h.last, h.plugin⟩, [], rfl, nofun⟩
  case join =>
    split at hs <;> cases hs
    exact ⟨⟨h.enabled, h.refresh, h.last, h.plugin⟩, [], rfl, nofun⟩

theorem Quiet.staysBlank {s : State} (h : Quiet s) : StaysBlank s := by
  intro as t has hr
  suffices Quiet t ∧ ∃ new, t.log = new ++ s.log ∧ ∀ v, .display v ∉ new from
    have ⟨hq, new, hlog, hnew⟩ := this
    ⟨⟨new, hlog, fun v hv => (hnew v hv).elim⟩, hq.last, hq.plugin⟩
  induction as generalizing s with
  | nil => cases hr; exact ⟨h, [], rfl, nofun⟩
  | cons a as ih =>
    obtain ⟨u, hu, hr⟩ := Option.bind_eq_some_iff.mp hr
    obtain ⟨hq, new, hlog, hnew⟩ := h.step hu fun v h0 h9 e => has v h0 h9 (e ▸ List.mem_cons_self ..)
    obtain ⟨hq', new', hlog', hnew'⟩ := ih hq
      (fun v h0 h9 hm => has v h0 h9 (List.mem_cons_of_mem _ hm)) hr
    refine ⟨hq', new' ++ new, by rw [hlog', hlog, List.append_assoc], fun v hm => ?_⟩
    exact (List.mem_append.mp hm).elim (hnew' v) (hnew v)

structure InRange (s : State) : Prop where
  value : 0 ≤ s.value ∧ s.value ≤ 9
  snapshot : ∀ v, s.refresh = .showing v → 0 ≤ v ∧ v ≤ 9

theorem InRange.refreshLoop {s t : State} (h : InRange s) (hs : segmentRefreshLoop s = some t) :
    InRange t := by
  obtain ⟨hval, -⟩ := h
  cases refresh_branch hs with
  | takes =>
    refine ⟨hval, fun v e => ?_⟩
    obtain rfl := RefreshPc.showing.inj e
    exact hval
  | counts =>
    refine ⟨?_, nofun⟩
    show 0 ≤ s.value - 1 ∧ s.value - 1 ≤ 9
    omega
  | _ => exact ⟨hval, nofun⟩

theorem Reachable.inRange {s : State} (h : Reachable s) : InRange s := by
  refine h.invariant ?_ fun s a t ih hs => ?_
  · rintro _ rfl
    exact ⟨by decide, nofun⟩
  · cases a <;> simp only [Segment.step] at hs
    case refresh => exact ih.refreshLoop hs
    case displayCall v =>
      split at hs <;> cases hs
      unfold deviceSegmentDisplay
      split
      · exact ih
      · next hv =>
        refine ⟨?_, ih.snapshot⟩
        show 0 ≤ v ∧ v ≤ 9
        omega
    case clearCall =>
      split at hs <;> cases hs
      exact ⟨(by decide : (0 : Int) ≤ 0 ∧ (0 : Int) ≤ 9), ih.snapshot⟩
    all_goals split at hs <;> cases hs; exact ⟨ih.value, ih.snapshot⟩

theorem Reachable.clearing_disabled {s : State} (h : Reachable s) (hc : s.caller = .clearing) :
    s.enabled = false := by
  refine h.invariant (P := fun s => s.caller = .clearing → s.enabled = false) ?_ ?_ hc
  · rintro _ rfl
    nofun
  · intro s a t ih hs
    cases a <;> simp only [Segment.step] at hs
    case refresh =>
      cases refresh_branch hs with
      | expires => exact fun _ => rfl
      | _ => exact ih
    case displayCall v =>
      split at hs <;> cases hs
      next hi =>
      unfold deviceSegmentDisplay
      split
      · exact ih
      · intro e; rw [show s.caller = .clearing from e] at hi; cases hi
    case clearCall => split at hs <;> cases hs; exact fun _ => rfl
    case stopCall => split at hs <;> cases hs; exact fun _ => rfl
    case clearPlugin | join => split at hs <;> cases hs; nofun

/-- After `device_segment_clear` returns, the display stays blank exactly when the refresh thread
held no snapshot of an enabled countdown at the plugin call. -/
theorem clear_staysBlank_iff {s t : State} (h : Reachable s) (hs : step s .clearPlugin = some t) :
    StaysBlank t ↔ ∀ v, s.refresh ≠ .showing v := by
  simp only [step] at hs
  split at hs <;> cases hs
  next hc =>
  constructor
  · intro hb v hv
    obtain ⟨⟨new, hnew, hno⟩, -⟩ := hb [.refresh] _ (by simp) (by
      rw [Runs.run_cons, Segment.step, segmentRefreshLoop]
      simp only [hv, Option.bind_some]
      rfl)
    have hone : new = [.display v] := List.append_cancel_right hnew.symm
    exact hno v (by simp [hone]) ((Reachable.inRange h).snapshot v hv)
  · intro hv
    have hdisabled : s.enabled = false := Reachable.clearing_disabled h hc
    exact Quiet.staysBlank ⟨hdisabled, hv, ⟨_, rfl, .inr rfl⟩, rfl⟩

/-- The display is cleared while digit 5 is held. -/
theorem clear_staysBlank_iff_hold : ∃ s t, Reachable s ∧ s.refresh = .hold ∧
    step s .clearPlugin = some t ∧ (StaysBlank t ↔ ∀ v, s.refresh ≠ .showing v) := by
  have hstart : Reachable startSegmentThread := .start rfl
  obtain ⟨s, hs, hrun⟩ := hstart.exists_of_run [.displayCall 5, .refresh, .refresh, .clearCall]
    (fun s => s.refresh = .hold ∧ (step s .clearPlugin).isSome) (by decide)
  obtain ⟨hhold, hnext⟩ := of_decide_eq_true hrun
  obtain ⟨t, ht⟩ := Option.isSome_iff_exists.mp hnext
  exact ⟨s, t, hs, hhold, ht, clear_staysBlank_iff hs ht⟩

/-- The refresh thread displays digit 5 after `device_segment_clear` has returned. -/
theorem stale_digit_after_clear :
    ∃ s t, Runs.run step startSegmentThread [.displayCall 5, .refresh, .clearCall] = some s ∧
      step s .clearPlugin = some t ∧ ¬ StaysBlank t := by
  refine ⟨_, _, rfl, rfl, fun hb => ?_⟩
  obtain ⟨⟨new, hnew, hno⟩, -⟩ := hb [.refresh] _ (by simp) rfl
  have hone : new = [.display 5] := List.append_cancel_right hnew.symm
  exact hno 5 (by simp [hone]) (by decide)

end RemoteDevice.Segment
