import Mathlib.Tactic.ByContra
import RemoteDevice.Segment.Model

/-! When an accepted request is counted down from its own digit. -/

namespace RemoteDevice.Segment

def countdown : Nat → List Event
  | 0 => [.display 0, .sleep segmentRefreshDelayMs, .clear, .beep 200]
  | n + 1 => .display (n + 1 : Nat) :: .sleep segmentRefreshDelayMs :: countdown n

/-- The end of a round of the loop: an idle one, one that displays a digit of an older snapshot, or one
whose countdown has expired. -/
def Leftover (es : List Event) : Prop :=
  es <:+ [.clear, .sleep segmentIdleDelayMs] ∨
    (∃ v, es <:+ [.display v, .sleep segmentRefreshDelayMs]) ∨ es <:+ [.clear, .beep 200]

def CountsDown (s : State) (n : Nat) : Prop :=
  ∃ left k t, Leftover left ∧ Runs.run step s (List.replicate k .refresh) = some t ∧
    t.log = (left ++ countdown n).reverse ++ s.log

/-- The request `n` cannot be taken for the digit the refresh thread is busy with: no digit is
being held, and a snapshot not shown yet has the same digit. -/
def RefreshPc.Ready (pc : RefreshPc) (n : Int) : Prop :=
  pc ≠ .hold ∧ pc ≠ .tick ∧ ∀ v, pc = .showing v → v = n

/-! ## The countdown is performed -/

def Performs (s : State) (es : List Event) (t : State) : Prop :=
  ∃ k, Runs.run step s (List.replicate k .refresh) = some t ∧ t.log = es.reverse ++ s.log

theorem Performs.step {s t : State} {es : List Event} (h : segmentRefreshLoop s = some t)
    (hlog : t.log = es.reverse ++ s.log) : Performs s es t :=
  ⟨1, by rw [List.replicate_one, Runs.run_cons, Segment.step, h]; rfl, hlog⟩

theorem Performs.trans {s t u : State} {es es' : List Event} (h : Performs s es t)
    (h' : Performs t es' u) : Performs s (es ++ es') u := by
  obtain ⟨k, hk, hlog⟩ := h
  obtain ⟨k', hk', hlog'⟩ := h'
  refine ⟨k + k', Runs.run_replicate_add hk hk', ?_⟩
  rw [hlog', hlog, List.reverse_append, List.append_assoc]

section
variable {s : State}

theorem performs_blank (h : s.refresh = .blank) : Performs s [.clear] (s.pluginClear .doze) :=
  .step (by simp only [segmentRefreshLoop, h]) rfl

theorem performs_doze (h : s.refresh = .doze) :
    Performs s [.sleep segmentIdleDelayMs] (s.emit (.sleep segmentIdleDelayMs) .snapshot) :=
  .step (by simp only [segmentRefreshLoop, h]) rfl

theorem performs_showing {v : Int} (h : s.refresh = .showing v) : Performs s [.display v]
    { s.emit (.display v) .hold with plugin := (segmentDisplay s.plugin v).1 } :=
  .step (by simp only [segmentRefreshLoop, h]) rfl

theorem performs_hold (h : s.refresh = .hold) :
    Performs s [.sleep segmentRefreshDelayMs] (s.emit (.sleep segmentRefreshDelayMs) .tick) :=
  .step (by simp only [segmentRefreshLoop, h]) rfl

theorem performs_expire (h : s.refresh = .expire) : Performs s [.clear] (s.pluginClear .alarm) :=
  .step (by simp only [segmentRefreshLoop, h]) rfl

theorem performs_alarm (h : s.refresh = .alarm) :
    Performs s [.beep 200] (s.emit (.beep 200) .snapshot) :=
  .step (by simp only [segmentRefreshLoop, h]) rfl

end

structure Counting (s : State) (pc : RefreshPc) (n : Nat) : Prop where
  running : s.running = true
  enabled : s.enabled = true
  value : s.value = n
  refresh : s.refresh = pc

theorem Counting.snapshot {s : State} {n : Nat} (h : Counting s .snapshot n) :
    ∃ t, Performs s [] t ∧ Counting t (.showing n) n := by
  have hstep : segmentRefreshLoop s = some { s with refresh := .showing n } := by
    simp [segmentRefreshLoop, h.refresh, h.running, h.enabled, h.value]
  exact ⟨_, .step hstep rfl, h.running, h.enabled, h.value, rfl⟩

theorem Counting.showing {s : State} {v : Int} {n : Nat} (h : Counting s (.showing v) n) :
    ∃ t, Performs s [.display v, .sleep segmentRefreshDelayMs] t ∧ Counting t .tick n :=
  ⟨_, (performs_showing h.refresh).trans (performs_hold rfl), h.running, h.enabled, h.value, rfl⟩

theorem Counting.tick_succ {s : State} {n : Nat} (h : Counting s .tick (n + 1)) :
    ∃ t, Performs s [] t ∧ Counting t .snapshot n := by
  have hne : s.value ≠ 0 := by rw [h.value]; omega
  have hstep : segmentRefreshLoop s = some { s with value := s.value - 1, refresh := .snapshot } := by
    simp [segmentRefreshLoop, h.refresh, h.running, h.enabled, hne]
  refine ⟨_, .step hstep rfl, h.running, h.enabled, ?_, rfl⟩
  show s.value - 1 = n
  rw [h.value]; omega

theorem Counting.tick_zero {s : State} (h : Counting s .tick 0) :
    ∃ t, Performs s [.clear, .beep 200] t := by
  have hexpire : segmentRefreshLoop s = some { s with enabled := false, refresh := .expire } := by
    simp [segmentRefreshLoop, h.refresh, h.running, h.enabled, h.value]
  have hnone : Performs s [] _ := .step hexpire rfl
  exact ⟨_, hnone.trans ((performs_expire rfl).trans (performs_alarm rfl))⟩

theorem Counting.countdown {s : State} {n : Nat} (h : Counting s (.showing n) n) :
    ∃ t, Performs s (countdown n) t := by
  induction n generalizing s with
  | zero =>
    obtain ⟨t, hst, ht⟩ := h.showing
    obtain ⟨u, htu⟩ := ht.tick_zero
    exact ⟨u, hst.trans htu⟩
  | succ n ih =>
    obtain ⟨t, hst, ht⟩ := h.showing
    obtain ⟨u, htu, hu⟩ := ht.tick_succ
    obtain ⟨v, huv, hv⟩ := hu.snapshot
    obtain ⟨w, hvw⟩ := ih hv
    exact ⟨w, hst.trans (htu.trans (huv.trans hvw))⟩

theorem Counting.ready {s : State} {n : Nat} (h : Counting s s.refresh n)
    (hready : s.refresh.Ready n) (hleave : s.refresh ≠ .leave ∧ s.refresh ≠ .exited) :
    ∃ left t, Leftover left ∧ Performs s left t ∧ Counting t (.showing n) n := by
  have hround : ∀ {left : List Event} {t : State}, Leftover left → Performs s left t →
      Counting t .snapshot n → ∃ left t, Leftover left ∧ Performs s left t ∧ Counting t (.showing n) n :=
    fun {left t} hl hst ht => by
      obtain ⟨u, htu, hu⟩ := ht.snapshot
      exact ⟨left, u, hl, List.append_nil left ▸ hst.trans htu, hu⟩
  have hempty : Leftover [] := .inl (List.nil_suffix)
  have hzero : Performs s [] s := ⟨0, rfl, rfl⟩
  cases hpc : s.refresh with
  | snapshot => exact hround hempty hzero (hpc ▸ h)
  | blank =>
    exact hround (.inl (List.suffix_refl _)) ((performs_blank hpc).trans (performs_doze rfl))
      ⟨h.running, h.enabled, h.value, rfl⟩
  | doze =>
    exact hround (.inl (List.suffix_cons ..)) (performs_doze hpc) ⟨h.running, h.enabled, h.value, rfl⟩
  | showing v =>
    obtain rfl : v = n := hready.2.2 v hpc
    exact ⟨[], s, hempty, hzero, hpc ▸ h⟩
  | hold => exact (hready.1 hpc).elim
  | tick => exact (hready.2.1 hpc).elim
  -- the older countdown has reached its end, and its clear and beep still come
  | expire =>
    refine hround (.inr (.inr (List.suffix_refl _)))
      ((performs_expire hpc).trans (performs_alarm rfl)) ⟨h.running, h.enabled, h.value, rfl⟩
  | alarm =>
    refine hround (.inr (.inr (List.suffix_cons ..)))
      (performs_alarm hpc) ⟨h.running, h.enabled, h.value, rfl⟩
  | leave => exact (hleave.1 hpc).elim
  | exited => exact (hleave.2 hpc).elim

/-! ## The first digit is missed -/

structure Missed (n : Int) (s : State) : Prop where
  running : s.running = true
  refresh : s.refresh ≠ .showing n
  value : s.enabled = true → s.value < n ∨
    s.value = n ∧ (s.refresh = .hold ∨ s.refresh = .tick ∨ ∃ v, s.refresh = .showing v)

theorem Missed.step {n : Int} {s t : State} (h : Missed n s) (hs : segmentRefreshLoop s = some t) :
    Missed n t ∧ t.log.count (.display n) = s.log.count (.display n) := by
  obtain ⟨hrun, hshow, hval⟩ := h
  -- the value may equal `n` only between `showing` and the end of the tick
  have hbelow : ∀ {pc : RefreshPc}, s.refresh = pc → (∀ v, pc ≠ .showing v) → pc ≠ .hold → pc ≠ .tick →
      s.enabled = true → s.value < n := by
    rintro pc rfl h1 h2 h3 he
    exact (hval he).resolve_right fun ⟨_, h⟩ => h.elim h2 (·.elim h3 fun ⟨v, hv⟩ => h1 v hv)
  cases refresh_branch hs with
  | takes hpc _ henabled =>
    have hlt := hbelow hpc nofun nofun nofun
    refine ⟨⟨hrun, fun e => ?_, fun he => .inl (hlt he)⟩, rfl⟩
    exact Int.ne_of_lt (hlt henabled) (RefreshPc.showing.inj e)
  | displays v hpc =>
    refine ⟨⟨hrun, nofun, fun he => (hval he).imp_right fun h => ⟨h.1, .inl rfl⟩⟩, ?_⟩
    exact List.count_cons_of_ne fun e => hshow (hpc.trans (congrArg _ (Event.display.inj e)))
  | holds =>
    exact ⟨⟨hrun, nofun, fun he => (hval he).imp_right fun h => ⟨h.1, .inr (.inl rfl)⟩⟩,
      by simp [State.emit]⟩
  | expires => exact ⟨⟨hrun, nofun, nofun⟩, rfl⟩
  | counts _ _ henabled =>
    refine ⟨⟨hrun, nofun, fun _ => .inl ?_⟩, rfl⟩
    show s.value - 1 < n
    rcases hval henabled with hv | ⟨hv, -⟩ <;> omega
  | passes _ hoff =>
    refine ⟨⟨hrun, nofun, fun he => ?_⟩, rfl⟩
    cases he.symm.trans (hoff hrun)
  | stops _ hstopped => cases hstopped.symm.trans hrun
  | idles hpc | blanks hpc | dozes hpc | clears hpc | beeps hpc | leaves hpc =>
    have hlt := hbelow hpc nofun nofun nofun
    exact ⟨⟨hrun, nofun, fun he => .inl (hlt he)⟩, by simp [State.emit, State.pluginClear]⟩

theorem Missed.run {n : Int} {s t : State} {k : Nat} (h : Missed n s)
    (hr : Runs.run Segment.step s (List.replicate k .refresh) = some t) :
    t.log.count (.display n) = s.log.count (.display n) := by
  induction k generalizing s with
  | zero => cases hr; rfl
  | succ k ih =>
    obtain ⟨u, hu, hr⟩ := Option.bind_eq_some_iff.mp hr
    obtain ⟨hm, hlog⟩ := h.step hu
    exact (ih hm hr).trans hlog

theorem Missed.not_countsDown {n : Nat} {s : State} (h : Missed n s) : ¬ CountsDown s n := by
  rintro ⟨left, k, t, -, hr, hlog⟩
  have hcount := h.run hr
  have hmem : .display (n : Int) ∈ countdown n := by cases n <;> exact List.mem_cons_self ..
  have hpos : 0 < (countdown n).count (.display n) := List.count_pos_iff.mpr hmem
  rw [hlog, List.count_append, List.count_reverse, List.count_append] at hcount
  omega

/-! ## The request -/

structure Started (s : State) : Prop where
  running : s.caller = .idle ∨ s.caller = .clearing → s.running = true
  alive : s.running = true → s.refresh ≠ .leave ∧ s.refresh ≠ .exited

theorem segmentRefreshLoop_frame {s t : State} (hs : segmentRefreshLoop s = some t) :
    t.caller = s.caller ∧ t.running = s.running ∧
      (s.running = true → t.refresh ≠ .leave) ∧ (t.refresh = .exited → s.refresh = .leave) := by
  cases refresh_branch hs with
  | stops _ hstopped => exact ⟨rfl, rfl, fun hr => (Bool.false_ne_true (hstopped.symm.trans hr)).elim, nofun⟩
  | leaves hpc => exact ⟨rfl, rfl, nofun, fun _ => hpc⟩
  | _ => exact ⟨rfl, rfl, nofun, nofun⟩

theorem Started.step {s t : State} {a : Action} (h : Started s) (hs : step s a = some t) :
    Started t := by
  cases a <;> simp only [Segment.step] at hs
  case refresh =>
    obtain ⟨hcaller, hrunning, hleave, hexited⟩ := segmentRefreshLoop_frame hs
    refine ⟨by rw [hcaller, hrunning]; exact h.running, fun hr => ?_⟩
    rw [hrunning] at hr
    exact ⟨hleave hr, fun e => (h.alive hr).1 (hexited e)⟩
  case displayCall v =>
    split at hs <;> cases hs
    unfold deviceSegmentDisplay
    split <;> exact ⟨h.running, h.alive⟩
  case stopCall =>
    split at hs <;> cases hs
    refine ⟨fun e => ?_, nofun⟩
    simp only at e
    split at e <;> simp at e
  all_goals
    split at hs <;> cases hs
    next hc => exact ⟨fun e => by simp_all [h.running], h.alive⟩

theorem Reachable.started {s : State} (h : Reachable s) : Started s :=
  h.invariant (by rintro _ rfl; exact ⟨fun _ => rfl, fun _ => ⟨nofun, nofun⟩⟩) fun _ _ _ => Started.step

/-- An accepted request is counted down from its own digit exactly when the refresh thread is not
busy with a digit of its own: neither holding one nor about to display another one. -/
theorem request_countsDown_iff {s t : State} (h : Reachable s) {n : Nat} (hn : n ≤ 9)
    (hs : step s (.displayCall n) = some t) : CountsDown t n ↔ s.refresh.Ready n := by
  simp only [step] at hs
  split at hs <;> cases hs
  next hidle =>
  have hstart := Reachable.started h
  have hrun := hstart.running (.inl hidle)
  have hvalid : ¬ ((n : Int) < 0 ∨ (n : Int) > 9) := by omega
  rw [deviceSegmentDisplay, if_neg hvalid]
  show CountsDown { s with value := n, enabled := true, log := .accept n :: s.log } n ↔ _
  constructor
  · intro hc
    by_contra hready
    have hbusy : s.refresh = .hold ∨ s.refresh = .tick ∨ ∃ v, s.refresh = .showing v ∧ v ≠ n := by
      simp only [RefreshPc.Ready, not_and_or, not_not, not_forall] at hready
      rcases hready with hp | hp | ⟨v, hv, hne⟩
      exacts [.inl hp, .inr (.inl hp), .inr (.inr ⟨v, hv, hne⟩)]
    have hmissed : Missed n { s with value := n, enabled := true, log := .accept n :: s.log } := by
      refine ⟨hrun, fun e => ?_, fun _ => .inr ⟨rfl, hbusy.imp_right (.imp_right fun ⟨v, hv, _⟩ => ⟨v, hv⟩)⟩⟩
      have e : s.refresh = .showing n := e
      rcases hbusy with hp | hp | ⟨v, hv, hne⟩ <;> simp_all
    exact hmissed.not_countsDown hc
  · intro hready
    have hcount : Counting { s with value := n, enabled := true, log := .accept n :: s.log }
        s.refresh n := ⟨hrun, rfl, rfl, rfl⟩
    obtain ⟨left, u, hleft, hu, hshow⟩ := hcount.ready hready (hstart.alive hrun)
    obtain ⟨v, hv⟩ := hshow.countdown
    obtain ⟨k, hk, hlog⟩ := hu.trans hv
    exact ⟨left, k, v, hleft, hk, hlog⟩

/-- A request for 9 that comes when a countdown from 0 has just expired. -/
theorem request_countsDown_iff_expired : ∃ s t, Reachable s ∧ s.refresh = .expire ∧
    step s (.displayCall (9 : Nat)) = some t ∧ (CountsDown t 9 ↔ s.refresh.Ready 9) := by
  have hstart : Reachable startSegmentThread := .start rfl
  obtain ⟨s, hs, hrun⟩ := hstart.exists_of_run
    [.displayCall 0, .refresh, .refresh, .refresh, .refresh]
    (fun s => s.refresh = .expire ∧ (step s (.displayCall 9)).isSome) (by decide)
  obtain ⟨hexpire, hnext⟩ := of_decide_eq_true hrun
  obtain ⟨t, ht⟩ := Option.isSome_iff_exists.mp hnext
  exact ⟨s, t, hs, hexpire, ht, request_countsDown_iff hs (Nat.le_refl 9) ht⟩

/-- While digit 3 is held, a request for 7 is accepted, and 7 is never shown. -/
theorem request_lost_while_holding :
    ∃ s t, Runs.run step startSegmentThread [.displayCall 3, .refresh, .refresh] = some s ∧
      step s (.displayCall 7) = some t ∧ t.value = 7 ∧ t.enabled = true ∧ ¬ CountsDown t 7 :=
  ⟨_, _, rfl, rfl, rfl, rfl, Missed.not_countsDown ⟨rfl, nofun, fun _ => .inr ⟨rfl, .inl rfl⟩⟩⟩

end RemoteDevice.Segment
