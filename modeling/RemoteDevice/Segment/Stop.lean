import RemoteDevice.Segment.Model

/-! `stop_segment_thread`: the refresh thread has ended when the call is over, and then nothing
calls the plugin any more. -/

namespace RemoteDevice.Segment

variable {s t : State} {a : Action}

def Event.callsPlugin : Event → Bool
  | .display _ | .clear | .cleared => true
  | _ => false

def Adds (s t : State) : Prop :=
  ∃ es, t.log = es ++ s.log ∧
    ∀ e ∈ es, e.callsPlugin = true → s.refresh ≠ .exited ∨ s.caller = .clearing

theorem segmentRefreshLoop_adds (hs : segmentRefreshLoop s = some t) : Adds s t := by
  have hpc : s.refresh ≠ .exited := fun h => by simp [segmentRefreshLoop, h] at hs
  have hadd : ∀ es, t.log = es ++ s.log → Adds s t := fun es h => ⟨es, h, fun _ _ _ => .inl hpc⟩
  cases refresh_branch hs with
  | stops | idles | takes | expires | counts | passes => exact hadd [] rfl
  | blanks | dozes | displays | holds | clears | beeps | leaves => exact hadd [_] rfl

theorem step_adds (hs : step s a = some t) : Adds s t := by
  cases a <;> simp only [step] at hs
  case refresh => exact segmentRefreshLoop_adds hs
  case displayCall v =>
    split at hs <;> cases hs
    unfold deviceSegmentDisplay
    split
    · exact ⟨[], rfl, nofun⟩
    · exact ⟨[.accept v], rfl, by simp [Event.callsPlugin]⟩
  case clearPlugin =>
    split at hs <;> cases hs
    next hc => exact ⟨[.cleared], rfl, fun _ _ _ => .inr hc⟩
  all_goals
    split at hs <;> cases hs
    exact ⟨[], rfl, nofun⟩

theorem step_refresh (hs : step s a = some t) (ha : a ≠ .refresh) : t.refresh = s.refresh := by
  cases a <;> simp only [step] at hs
  case refresh => exact (ha rfl).elim
  case displayCall v =>
    split at hs <;> cases hs
    unfold deviceSegmentDisplay
    split <;> rfl
  all_goals split at hs <;> cases hs; rfl

theorem segmentRefreshLoop_control (hs : segmentRefreshLoop s = some t) :
    t.caller = s.caller ∧ t.started = s.started := by
  cases refresh_branch hs <;> exact ⟨rfl, rfl⟩

theorem deviceSegmentDisplay_control (s : State) (v : Int) :
    (deviceSegmentDisplay s v).1.caller = s.caller ∧
      (deviceSegmentDisplay s v).1.started = s.started := by
  unfold deviceSegmentDisplay
  split <;> exact ⟨rfl, rfl⟩

theorem step_stopped (hs : step s a = some t) (hc : s.caller = .stopped) : t.caller = .stopped := by
  cases a <;> simp only [step, hc, reduceCtorEq, if_false, false_and] at hs
  exact (segmentRefreshLoop_control hs).1.trans hc

structure Joined (s : State) : Prop where
  started : s.caller = .idle ∨ s.caller = .clearing → s.started = true
  exited : s.caller = .stopped → s.refresh = .exited

theorem Joined.step (h : Joined s) (hs : step s a = some t) : Joined t := by
  cases a <;> simp only [Segment.step] at hs
  case refresh =>
    obtain ⟨hcaller, hstarted⟩ := segmentRefreshLoop_control hs
    refine ⟨by rw [hcaller, hstarted]; exact h.started, fun hc => ?_⟩
    -- an ended thread makes no step
    rw [segmentRefreshLoop, h.exited (hcaller ▸ hc)] at hs
    cases hs
  case displayCall v =>
    split at hs <;> cases hs
    next hc =>
    obtain ⟨hcaller, hstarted⟩ := deviceSegmentDisplay_control s v
    exact ⟨fun _ => hstarted.trans (h.started (.inl hc)),
      fun e => by rw [hcaller, hc] at e; cases e⟩
  case clearCall =>
    split at hs <;> cases hs
    next hc => exact ⟨fun _ => h.started (.inl hc), nofun⟩
  case clearPlugin =>
    split at hs <;> cases hs
    next hc => exact ⟨fun _ => h.started (.inr hc), nofun⟩
  case stopCall =>
    split at hs <;> cases hs
    next hc =>
    rw [h.started (.inl hc), if_pos rfl]
    exact ⟨by simp, nofun⟩
  case join =>
    split at hs <;> cases hs
    next hc => exact ⟨by simp, fun _ => hc.2⟩

theorem Reachable.joined (h : Reachable s) : Joined s :=
  h.invariant (by rintro _ rfl; exact ⟨fun _ => rfl, nofun⟩) fun _ _ _ => Joined.step

/-! ## The refresh thread after the stop -/

theorem Reachable.halted (h : Reachable s) :
    s.caller = .joining ∨ s.caller = .stopped → s.running = false := by
  refine h.invariant (P := fun s => s.caller = .joining ∨ s.caller = .stopped → s.running = false)
    (by rintro _ rfl hc; rcases hc with hc | hc <;> cases hc) fun s a t hs hst hc => ?_
  cases a <;> simp only [step] at hst
  case refresh =>
    rw [(segmentRefreshLoop_control hst).1] at hc
    cases refresh_branch hst <;> exact hs hc
  case displayCall v =>
    split at hst <;> cases hst
    next hidle =>
    rw [(deviceSegmentDisplay_control s v).1, hidle] at hc
    rcases hc with hc | hc <;> cases hc
  case clearCall | clearPlugin => split at hst <;> cases hst; rcases hc with hc | hc <;> cases hc
  case stopCall => split at hst <;> cases hst; rfl
  case join =>
    split at hst <;> cases hst
    next hjoin => exact hs (.inl hjoin.1)

def RefreshPc.left : RefreshPc → Nat
  | .showing _ => 5
  | .blank | .hold | .expire => 4
  | .doze | .tick | .alarm => 3
  | .snapshot => 2
  | .leave => 1
  | .exited => 0

theorem segmentRefreshLoop_ready (h : s.refresh ≠ .exited) : ∃ t, segmentRefreshLoop s = some t := by
  unfold segmentRefreshLoop
  cases hpc : s.refresh with
  | exited => exact (h hpc).elim
  | tick =>
    simp only
    split
    · split <;> exact ⟨_, rfl⟩
    · exact ⟨_, rfl⟩
  | _ => exact ⟨_, rfl⟩

theorem segmentRefreshLoop_left (hs : segmentRefreshLoop s = some t) (hstopped : s.running = false) :
    t.refresh.left < s.refresh.left := by
  cases refresh_branch hs with
  | idles _ hrunning | takes _ hrunning | expires _ hrunning | counts _ hrunning =>
    cases hrunning.symm.trans hstopped
  | stops hpc | blanks hpc | dozes hpc | displays v hpc | holds hpc | passes hpc | clears hpc
  | beeps hpc | leaves hpc => simp [hpc, State.pluginClear, State.emit, RefreshPc.left]

end RemoteDevice.Segment
