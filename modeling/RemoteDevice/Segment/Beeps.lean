import Mathlib.Data.List.Basic
import RemoteDevice.Segment.Model

/-! The beeps of the countdown, with requests from any number of threads: each is that of a countdown
that has expired, and each of these is paid for by a request that was accepted after the last one and
not cancelled. -/

namespace RemoteDevice.Segment

/-- What the accounts are about: the requests that take effect, the sections that cancel one, and
what the refresh thread does to the end of a countdown. -/
inductive Mark
  | accepted (value : Int)
  | cancelled
  | displayed (value : Int)
  | expired
  | beeped
  deriving DecidableEq

def Mark.isAccepted : Mark → Bool
  | .accepted _ => true
  | _ => false

structure Watched where
  state : State
  history : List Mark

def watchedStart : Watched := ⟨startSegmentThread, []⟩

inductive Turn
  | refresh
  | display (value : Int)
  | clear
  | clearPlugin
  | stop
  deriving DecidableEq

def refreshMarks (s : State) : List Mark :=
  match s.refresh with
  | .showing v => [.displayed v]
  | .tick => if s.running && s.enabled && s.value = 0 then [.expired] else []
  | .alarm => [.beeped]
  | _ => []

def watchedStep (w : Watched) : Turn → Option Watched
  | .refresh => (segmentRefreshLoop w.state).map fun s => ⟨s, refreshMarks w.state ++ w.history⟩
  | .display v =>
    let (s, r) := deviceSegmentDisplay w.state v
    some ⟨s, if r = DeviceResult.ok then .accepted v :: w.history else w.history⟩
  | .clear => some ⟨{ w.state with enabled := false, value := 0 }, .cancelled :: w.history⟩
  | .clearPlugin => some { w with state := { w.state with plugin := segmentClear } }
  | .stop =>
    some ⟨{ w.state with running := false, enabled := false, started := false },
      .cancelled :: w.history⟩

def Watched.Reachable : Watched → Prop := Runs.Reachable (· = watchedStart) watchedStep

def RefreshPc.alarming : RefreshPc → Bool
  | .expire | .alarm => true
  | _ => false

/-! ## What a step of the refresh thread does -/

inductive RefreshEffect (s t : State) : List Mark → Prop
  | shows (v : Int) : s.refresh = .showing v → t.refresh.alarming = s.refresh.alarming →
      t.enabled = s.enabled → t.value = s.value → (∀ n, t.refresh ≠ .showing n) →
      RefreshEffect s t [.displayed v]
  | expires : s.refresh.alarming = false → s.enabled = true → t.refresh = .expire →
      t.enabled = false → t.value = s.value → RefreshEffect s t [.expired]
  | counts : s.refresh.alarming = false → s.value ≠ 0 → t.refresh = .snapshot →
      t.enabled = s.enabled → t.value = s.value - 1 → RefreshEffect s t []
  | beeps : s.refresh = .alarm → t.refresh = .snapshot → t.enabled = s.enabled →
      t.value = s.value → RefreshEffect s t [.beeped]
  | moves : t.enabled = s.enabled → t.value = s.value →
      t.refresh.alarming = s.refresh.alarming → (∀ n, t.refresh = .showing n → n = s.value) →
      RefreshEffect s t []

theorem refresh_effect {s t : State} (h : segmentRefreshLoop s = some t) :
    RefreshEffect s t (refreshMarks s) := by
  have hquiet : ∀ {pc : RefreshPc}, s.refresh = pc → pc.alarming = false →
      s.refresh.alarming = false := by
    rintro pc rfl
    exact id
  have hmarks : ∀ {pc : RefreshPc}, s.refresh = pc → refreshMarks s = refreshMarks { s with refresh := pc } := by
    rintro pc rfl
    rfl
  cases refresh_branch h with
  | stops hpc | idles hpc | blanks hpc | dozes hpc | holds hpc | clears hpc | leaves hpc =>
    rw [hmarks hpc]
    exact .moves rfl rfl (by rw [hpc]; rfl) nofun
  | takes hpc =>
    rw [hmarks hpc]
    exact .moves rfl rfl (by rw [hpc]; rfl) fun n hn => (RefreshPc.showing.inj hn).symm
  | displays v hpc =>
    rw [hmarks hpc]
    exact .shows v hpc (by rw [hpc]; rfl) rfl rfl nofun
  | expires hpc hrunning henabled hvalue =>
    have hlast : refreshMarks s = [.expired] := by simp [refreshMarks, hpc, hrunning, henabled, hvalue]
    rw [hlast]
    exact .expires (hquiet hpc rfl) henabled rfl rfl rfl
  | counts hpc hrunning henabled hvalue =>
    have hnone : refreshMarks s = [] := by simp [refreshMarks, hpc, hvalue]
    rw [hnone]
    exact .counts (hquiet hpc rfl) hvalue rfl rfl rfl
  | passes hpc hoff =>
    have hnone : refreshMarks s = [] := by
      simp only [refreshMarks, hpc]
      exact if_neg fun hon => by simp_all
    rw [hnone]
    exact .moves rfl rfl (by rw [hpc]; rfl) nofun
  | beeps hpc =>
    rw [hmarks hpc]
    exact .beeps hpc rfl rfl rfl

/-! ## The accounts -/

/-- The end of a countdown, or a cancellation: no countdown ends again without another request. -/
def Mark.ends : Mark → Prop
  | .expired | .cancelled => True
  | _ => False

def Since (history : List Mark) : Prop :=
  ∀ newer m older, history = newer ++ m :: older → m.ends → ∃ v, .accepted v ∈ newer

def Paid (history : List Mark) : Prop :=
  ∀ newer older, history = newer ++ .expired :: older → Since older

section
variable {history : List Mark} {m : Mark}

theorem Since.accept (v : Int) : Since (.accepted v :: history) := by
  intro newer m older hsplit hends
  obtain ⟨-, heq⟩ | ⟨newer, rfl, -⟩ := List.cons_eq_append_iff.mp hsplit
  · obtain rfl := (List.cons.inj heq).1
    exact hends.elim
  · exact ⟨v, List.mem_cons_self⟩

theorem Since.cons (h : Since history) (hm : ¬ m.ends) : Since (m :: history) := by
  intro newer n older hsplit hends
  obtain ⟨-, heq⟩ | ⟨newer, rfl, heq⟩ := List.cons_eq_append_iff.mp hsplit
  · obtain rfl := (List.cons.inj heq).1
    exact absurd hends hm
  · obtain ⟨v, hv⟩ := h newer n older heq hends
    exact ⟨v, List.mem_cons_of_mem _ hv⟩

theorem Paid.cons (h : Paid history) (hm : m ≠ .expired) : Paid (m :: history) := by
  intro newer older hsplit
  obtain ⟨-, heq⟩ | ⟨newer, rfl, heq⟩ := List.cons_eq_append_iff.mp hsplit
  · exact absurd (List.cons.inj heq).1.symm hm
  · exact h newer older heq

theorem Paid.expire (h : Paid history) (hsince : Since history) : Paid (.expired :: history) := by
  intro newer older hsplit
  obtain ⟨-, heq⟩ | ⟨newer, rfl, heq⟩ := List.cons_eq_append_iff.mp hsplit
  · obtain rfl := (List.cons.inj heq).2
    exact hsince
  · exact h newer older heq

end

structure Accounted (w : Watched) : Prop where
  range : 0 ≤ w.state.value ∧ w.state.value ≤ 9
  showing : ∀ n, w.state.refresh = .showing n → 0 ≤ n ∧ n ≤ 9
  displayed : ∀ n, .displayed n ∈ w.history → 0 ≤ n ∧ n ≤ 9
  beeps : w.history.count .beeped + w.state.refresh.alarming.toNat = w.history.count .expired
  balance : w.history.count .expired + w.state.enabled.toNat ≤ w.history.countP Mark.isAccepted
  since : w.state.enabled = true → Since w.history
  paid : Paid w.history

theorem Accounted.start : Accounted watchedStart where
  range := by decide
  showing := nofun
  displayed := nofun
  beeps := rfl
  balance := by decide
  since := nofun
  paid := by
    intro newer older hsplit
    exact absurd hsplit.symm (List.append_ne_nil_of_right_ne_nil _ (List.cons_ne_nil _ _))

theorem Accounted.displayed_cons {w : Watched} (h : Accounted w) {m : Mark}
    (hm : ∀ n, m = .displayed n → 0 ≤ n ∧ n ≤ 9) :
    ∀ n, .displayed n ∈ m :: w.history → 0 ≤ n ∧ n ≤ 9 := by
  intro n hn
  obtain hn | hn := List.mem_cons.mp hn
  · exact hm n hn.symm
  · exact h.displayed n hn

theorem Accounted.keep {w : Watched} (h : Accounted w) {t : State} (henabled : t.enabled = w.state.enabled)
    (halarming : t.refresh.alarming = w.state.refresh.alarming) (hrange : 0 ≤ t.value ∧ t.value ≤ 9)
    (hshowing : ∀ n, t.refresh = .showing n → 0 ≤ n ∧ n ≤ 9) : Accounted ⟨t, w.history⟩ := by
  refine ⟨hrange, hshowing, h.displayed, ?_, ?_, ?_, h.paid⟩
  · rw [halarming]
    exact h.beeps
  · rw [henabled]
    exact h.balance
  · rw [henabled]
    exact h.since

theorem Accounted.show {w : Watched} (h : Accounted w) {v : Int} (hv : 0 ≤ v ∧ v ≤ 9) :
    Accounted ⟨w.state, .displayed v :: w.history⟩ := by
  refine ⟨h.range, h.showing, h.displayed_cons ?_, ?_, ?_, fun henabled => (h.since henabled).cons id,
    h.paid.cons nofun⟩
  · rintro n ⟨⟩
    exact hv
  · simpa [List.count_cons] using h.beeps
  · simpa [List.count_cons, Mark.isAccepted] using h.balance

theorem Accounted.expire {w : Watched} (h : Accounted w) {t : State}
    (hquiet : w.state.refresh.alarming = false) (henabled : w.state.enabled = true)
    (hpc : t.refresh = .expire) (hoff : t.enabled = false) (hvalue : t.value = w.state.value) :
    Accounted ⟨t, .expired :: w.history⟩ := by
  have hbeeps := h.beeps
  have hbalance := h.balance
  rw [hquiet, Bool.toNat_false] at hbeeps
  rw [henabled, Bool.toNat_true] at hbalance
  refine ⟨hvalue ▸ h.range, by rw [hpc]; nofun, h.displayed_cons nofun, ?_, ?_, by rw [hoff]; nofun,
    h.paid.expire (h.since henabled)⟩
  · simp only [hpc, RefreshPc.alarming, Bool.toNat_true, List.count_cons, beq_iff_eq, reduceCtorEq,
      if_true, if_false]
    omega
  · simp only [hoff, Bool.toNat_false, List.count_cons, List.countP_cons, Mark.isAccepted, beq_iff_eq,
      Bool.false_eq_true, if_true, if_false]
    omega

theorem Accounted.beep {w : Watched} (h : Accounted w) {t : State} (hpc : w.state.refresh = .alarm)
    (henabled : t.enabled = w.state.enabled) (hvalue : t.value = w.state.value)
    (hpc' : t.refresh = .snapshot) : Accounted ⟨t, .beeped :: w.history⟩ := by
  have hbeeps := h.beeps
  rw [hpc] at hbeeps
  refine ⟨hvalue ▸ h.range, by rw [hpc']; nofun, h.displayed_cons nofun, ?_, ?_, ?_, h.paid.cons nofun⟩
  · simpa [hpc', RefreshPc.alarming, List.count_cons] using hbeeps
  · simpa [henabled, List.count_cons, Mark.isAccepted] using h.balance
  · rw [henabled]
    exact fun hon => (h.since hon).cons id

theorem Accounted.refresh {w : Watched} (h : Accounted w) {t : State}
    (hs : segmentRefreshLoop w.state = some t) : Accounted ⟨t, refreshMarks w.state ++ w.history⟩ := by
  have hrange := h.range
  have heffect := refresh_effect hs
  generalize refreshMarks w.state = marks at heffect ⊢
  cases heffect with
  | shows v hpc halarming henabled hvalue hnone =>
    have hkept := h.keep henabled halarming (hvalue ▸ hrange) fun n hn => absurd hn (hnone n)
    exact hkept.show (h.showing v hpc)
  | expires hquiet henabled hpc hoff hvalue => exact h.expire hquiet henabled hpc hoff hvalue
  | counts hquiet hpos hpc henabled hvalue =>
    have halarming : t.refresh.alarming = w.state.refresh.alarming := by rw [hquiet, hpc]; rfl
    exact h.keep henabled halarming (by omega) (by rw [hpc]; nofun)
  | beeps hpc hpc' henabled hvalue => exact h.beep hpc henabled hvalue hpc'
  | moves henabled hvalue halarming hshow =>
    refine h.keep henabled halarming (hvalue ▸ hrange) fun n hn => ?_
    rw [hshow n hn]
    exact hrange

theorem Accounted.display {w w' : Watched} {v : Int} (h : Accounted w)
    (hs : watchedStep w (.display v) = some w') : Accounted w' := by
  simp only [watchedStep, deviceSegmentDisplay] at hs
  split at hs
  · cases hs
    exact h
  · next hin =>
    cases hs
    refine ⟨by simp only; omega, h.showing, h.displayed_cons nofun, ?_, ?_, fun _ => .accept v,
      h.paid.cons nofun⟩
    · simpa [List.count_cons] using h.beeps
    -- the countdown that it replaces, if there is one, is never paid out
    · have hbalance := h.balance
      simp only [if_true, Mark.isAccepted, List.countP_cons, List.count_cons, Bool.toNat_true,
        beq_iff_eq, reduceCtorEq, if_false, Nat.add_zero]
      omega

theorem Accounted.cancel {w : Watched} (h : Accounted w) {s : State} (henabled : s.enabled = false)
    (hrange : 0 ≤ s.value ∧ s.value ≤ 9) (hrefresh : s.refresh = w.state.refresh) :
    Accounted ⟨s, .cancelled :: w.history⟩ := by
  refine ⟨hrange, by rw [hrefresh]; exact h.showing, h.displayed_cons nofun, ?_, ?_,
    by rw [henabled]; nofun, h.paid.cons nofun⟩
  · simpa [hrefresh, List.count_cons] using h.beeps
  · have hbalance := h.balance
    simp only [henabled, Mark.isAccepted, List.countP_cons, List.count_cons, Bool.toNat_false,
      beq_iff_eq, reduceCtorEq, if_false, Nat.add_zero, Bool.false_eq_true]
    omega

theorem Accounted.step {w w' : Watched} {turn : Turn} (h : Accounted w)
    (hs : watchedStep w turn = some w') : Accounted w' := by
  cases turn with
  | refresh =>
    obtain ⟨t, ht, rfl⟩ := Option.map_eq_some_iff.mp hs
    exact h.refresh ht
  | display v => exact h.display hs
  | clear =>
    cases hs
    exact h.cancel rfl (show (0 : Int) ≤ 0 ∧ (0 : Int) ≤ 9 by decide) rfl
  | clearPlugin =>
    cases hs
    exact h.keep rfl rfl h.range h.showing
  | stop =>
    cases hs
    exact h.cancel rfl h.range rfl

theorem Watched.Reachable.accounted {w : Watched} (h : w.Reachable) : Accounted w :=
  h.invariant (fun _ hinit => hinit ▸ Accounted.start) fun _ _ _ haccounted hs => haccounted.step hs

/-- The countdown stays between 0 and 9, and so does what is displayed, which the plugin accepts;
there is one beep for each countdown that has expired, the last one possibly still to come, and no
more of them than accepted requests; and one of these lies between the section that ends a countdown
and the end or the cancellation before it. -/
theorem countdown_accounted {w : Watched} (h : w.Reachable) :
    (0 ≤ w.state.value ∧ w.state.value ≤ 9) ∧
      (∀ n, .displayed n ∈ w.history →
        (0 ≤ n ∧ n ≤ 9) ∧ ∀ p, (segmentDisplay p n).2 = DeviceResult.ok) ∧
      w.history.count .beeped + w.state.refresh.alarming.toNat = w.history.count .expired ∧
      w.history.count .expired ≤ w.history.countP Mark.isAccepted ∧
      ∀ newer between m older, w.history = newer ++ .expired :: (between ++ m :: older) → m.ends →
        ∃ v, .accepted v ∈ between := by
  have haccounted := h.accounted
  refine ⟨haccounted.range, ?_, haccounted.beeps, (Nat.le_add_right ..).trans haccounted.balance, ?_⟩
  · intro n hn
    have hrange := haccounted.displayed n hn
    refine ⟨hrange, ?_⟩
    intro p
    rw [segmentDisplay, if_neg (by omega)]
  · intro newer between m older hsplit hends
    exact haccounted.paid newer _ hsplit between m older rfl hends

/-- A countdown from 1 is cleared while it is held, and one from 0 expires; the next request comes
before its beep. -/
theorem countdown_accounted_cleared : ∃ w : Watched, w.Reachable ∧
    w.history = [.beeped, .accepted 4, .expired, .displayed 0, .accepted 0, .cancelled, .displayed 1,
      .accepted 1] ∧ ∃ v, .accepted v ∈ [Mark.displayed 0, .accepted 0] := by
  have hstart : watchedStart.Reachable := .start rfl
  obtain ⟨w, hw, hrun⟩ := hstart.exists_of_run
    [.display 1, .refresh, .refresh, .clear, .refresh, .refresh, .display 0, .refresh, .refresh,
      .refresh, .refresh, .display 4, .refresh, .refresh]
    (fun w => decide (w.history = [.beeped, .accepted 4, .expired, .displayed 0, .accepted 0,
      .cancelled, .displayed 1, .accepted 1])) (by decide)
  have hhistory := of_decide_eq_true hrun
  obtain ⟨-, -, -, -, hbetween⟩ := countdown_accounted hw
  exact ⟨w, hw, hhistory,
    hbetween [.beeped, .accepted 4] [.displayed 0, .accepted 0] .cancelled _ hhistory trivial⟩

end RemoteDevice.Segment
