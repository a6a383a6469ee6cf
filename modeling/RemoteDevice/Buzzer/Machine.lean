import RemoteDevice.Buzzer.Plugin
import RemoteDevice.Lib.Runs

/-! The buzzer plugin with the two threads that use it: the worker, which runs one function after
the other, and the thread that calls `buzzer_off`. A call of `delay` is a step of its own. -/

namespace RemoteDevice.Buzzer

inductive Call
  | on
  | beep (durationMs : Int)
  | music (filePath : CText)
  deriving DecidableEq

def Call.start : Call → RunPc
  | .on => buzzerOn
  | .beep durationMs => buzzerBeep durationMs
  | .music filePath => buzzerMusic filePath

def Call.Admitted : Call → Prop
  | .on => True
  | .beep durationMs => 1 ≤ durationMs ∧ durationMs ≤ 10000
  | .music filePath => filePath ≠ []

instance (c : Call) : Decidable c.Admitted := by
  cases c <;> unfold Call.Admitted <;> infer_instance

inductive WorkerPc
  | idle
  | running (c : Call) (pc : RunPc)
  /-- Between the section of `is_stop_requested` and the end of the call of `delay` behind it. -/
  | delaying (c : Call) (ms : Nat) (pc : RunPc)
  deriving DecidableEq

/-- What a step is in the history: `cleared` is a section that clears the stop request, `ran` any
other step of the running function. -/
inductive Event
  | off
  | began (c : Call)
  | cleared
  | ran
  | delayed (ms : Nat)
  | returned (c : Call) (r : Int)
  deriving DecidableEq

/-- `writes` are the values given to `softToneWrite`, the last one first, and `log` is the history,
the last event first. -/
structure Machine where
  output : Output
  writes : List Int
  worker : WorkerPc
  log : List Event
  deriving DecidableEq

def softToneWrites (o : Output) (es : List RunEvent) (writes : List Int) : List Int :=
  match es with
  | [.tone hz] => if o.currentToneHz ≠ hz then hz :: writes else writes
  | _ => writes

def machineInit : Machine := ⟨buzzerInit, softToneWrites {} [.tone 0] [], .idle, []⟩

inductive Act
  | begin (c : Call)
  | run (x : Reading)
  | delay
  | finish
  | off
  deriving DecidableEq

def Machine.afterSection (s : Machine) (c : Call) (pc : RunPc) (o' : Output) (pc' : RunPc)
    (es : List RunEvent) : Machine where
  output := o'
  writes := softToneWrites s.output es s.writes
  worker :=
    match es with
    | [.delay ms] => .delaying c ms pc'
    | _ => .running c pc'
  log := (if pc.unstarted then .cleared else .ran) :: s.log

def machineStep (s : Machine) : Act → Option Machine
  | .begin c =>
    if s.worker = .idle ∧ c.Admitted then
      some { s with worker := .running c c.start, log := .began c :: s.log }
    else none
  | .run x =>
    match s.worker with
    | .running c pc =>
      match runStep s.output pc x with
      | none => none
      | some (o', pc', es) => some (s.afterSection c pc o' pc' es)
    | _ => none
  | .delay =>
    match s.worker with
    | .delaying c ms pc => some { s with worker := .running c pc, log := .delayed ms :: s.log }
    | _ => none
  | .finish =>
    match s.worker with
    | .running c (.done r) => some { s with worker := .idle, log := .returned c r :: s.log }
    | _ => none
  | .off =>
    some
      { s with
        output := stopOutput s.output true
        writes := softToneWrites s.output [.tone 0] s.writes
        log := .off :: s.log }

def Machine.Reachable : Machine → Prop := Runs.Reachable (· = machineInit) machineStep

/-! ## What a section does -/

def Output.behind (o : Output) (pc : RunPc) : Output :=
  { o with stopRequested := o.stopRequested && !pc.unstarted }

inductive SectionEffect (o : Output) (pc : RunPc) : Output → List RunEvent → Prop
  | tone (hz : Int) : (o.stopRequested = true → pc.unstarted = false → hz = 0) →
      SectionEffect o pc (writeOutputLocked (o.behind pc) hz (0 < hz)) [.tone hz]
  | silent : SectionEffect o pc (o.behind pc) []
  | waits (ms : Nat) : ms ≤ 10 → o.stopRequested = false → SectionEffect o pc (o.behind pc) [.delay ms]

theorem delayRound_slept {o : Output} {durationMs elapsedMs ms : Nat}
    (h : delayRound o durationMs elapsedMs = .slept ms) : ms ≤ 10 ∧ o.stopRequested = false := by
  unfold delayRound at h
  split at h <;> split at h <;> cases h
  next hstop => exact ⟨Nat.min_le_right .., Bool.not_eq_true _ ▸ hstop⟩

theorem Output.behind_of_started {o : Output} {pc : RunPc} (h : pc.unstarted = false) :
    o.behind pc = o := by
  rw [Output.behind, h, Bool.not_false, Bool.and_true]

theorem Output.behind_of_unstarted {o : Output} {pc : RunPc} (h : pc.unstarted = true) :
    o.behind pc = clearStopRequest o := by
  rw [Output.behind, h, Bool.not_true, Bool.and_false, clearStopRequest]

namespace SectionEffect

variable {o : Output} {pc : RunPc}

theorem ofSilent (h : pc.unstarted = false) : SectionEffect o pc o [] := by
  have hsilent := @SectionEffect.silent o pc
  rwa [Output.behind_of_started h] at hsilent

theorem ofClear (h : pc.unstarted = true) : SectionEffect o pc (clearStopRequest o) [] := by
  have hsilent := @SectionEffect.silent o pc
  rwa [Output.behind_of_unstarted h] at hsilent

theorem ofWaits (h : pc.unstarted = false) {ms : Nat} (hms : ms ≤ 10)
    (hstop : o.stopRequested = false) : SectionEffect o pc o [.delay ms] := by
  have hwaits := @SectionEffect.waits o pc ms hms hstop
  rwa [Output.behind_of_started h] at hwaits

theorem ofTone (h : pc.unstarted = false) {hz : Int} (hstop : o.stopRequested = true → hz = 0) :
    SectionEffect o pc (writeOutputLocked o hz (0 < hz)) [.tone hz] := by
  have htone := @SectionEffect.tone o pc hz fun hs _ => hstop hs
  rwa [Output.behind_of_started h] at htone

theorem ofStart (h : pc.unstarted = true) (hz : Int) :
    SectionEffect o pc (startOutput o hz) [.tone hz] := by
  have htone := @SectionEffect.tone o pc hz fun _ hs => by simp [h] at hs
  rwa [Output.behind_of_unstarted h] at htone

end SectionEffect

theorem stopOutput_false (o : Output) : stopOutput o false = writeOutputLocked o 0 (0 < (0 : Int)) := by
  rw [stopOutput, Bool.or_false]
  rfl

def RunPc.toneless : RunPc → Prop
  | .musicOpen | .building _ | .done _ => True
  | _ => False

def RunPc.left : RunPc → Nat
  | .musicSilence => 5
  | .musicOpen => 4
  | .building _ => 3
  | .playing _ | .playDelay .. | .beepDelay .. => 2
  | .stopping _ => 1
  | .musicClear | .beepStart _ | .onStart | .done _ => 0

structure SectionStep (o : Output) (pc : RunPc) (o' : Output) (pc' : RunPc) (es : List RunEvent) :
    Prop where
  effect : SectionEffect o pc o' es
  started : pc'.unstarted = false
  toneless : pc ≠ .onStart → pc'.toneless → pc.toneless ∧ o' = o ∨ o'.currentToneHz = 0
  left : o.stopRequested = true → pc.unstarted = false → pc'.left < pc.left

theorem runStep_section {o o' : Output} {pc pc' : RunPc} {x : Reading} {es : List RunEvent}
    (h : runStep o pc x = some (o', pc', es)) : SectionStep o pc o' pc' es := by
  cases pc with
  -- the one section that takes a stop back and writes no tone
  | musicClear =>
    cases h
    exact ⟨.ofClear rfl, rfl, fun _ => False.elim, by rintro - ⟨⟩⟩
  | musicSilence | stopping r =>
    cases h
    rw [stopOutput_false]
    exact ⟨.ofTone rfl fun _ => rfl, rfl, fun _ _ => .inr rfl, fun _ _ => Nat.lt_succ_self _⟩
  | musicOpen =>
    simp only [runStep] at h
    split at h <;> cases h <;>
      exact ⟨.ofSilent rfl, rfl, fun _ _ => .inl ⟨trivial, rfl⟩, fun _ _ => by simp [RunPc.left]⟩
  | building melody =>
    simp only [runStep] at h
    split at h
    · split at h
      · cases h
        exact ⟨.ofSilent rfl, rfl, fun _ => False.elim, fun _ _ => Nat.lt_succ_self _⟩
      · next hstop =>
        split at h <;> cases h <;>
          exact ⟨.ofSilent rfl, rfl, fun _ _ => .inl ⟨trivial, rfl⟩, fun hs => absurd hs hstop⟩
    · cases h
      exact ⟨.ofSilent rfl, rfl, fun _ => False.elim, fun _ _ => Nat.lt_succ_self _⟩
  | playing notes =>
    cases notes with
    | nil =>
      cases h
      exact ⟨.ofSilent rfl, rfl, fun _ => False.elim, fun _ _ => Nat.lt_succ_self _⟩
    | cons note notes =>
      simp only [runStep, writeOutputIfRunning] at h
      -- `write_output_if_running` writes silence once the stop is requested
      cases hstop : o.stopRequested with
      | true =>
        rw [hstop] at h
        cases h
        exact ⟨.ofTone rfl fun _ => rfl, rfl, fun _ => False.elim, fun _ _ => Nat.lt_succ_self _⟩
      | false =>
        rw [hstop] at h
        cases h
        exact ⟨.ofTone rfl (by simp [hstop]), rfl, fun _ => False.elim, by simp [hstop]⟩
  | playDelay durationMs elapsedMs notes =>
    simp only [runStep] at h
    split at h
    · next hround =>
      cases h
      refine ⟨.ofSilent rfl, rfl, fun _ => False.elim, fun hs => ?_⟩
      rw [delayRound, hs] at hround
      split at hround <;> cases hround
    · cases h
      exact ⟨.ofSilent rfl, rfl, fun _ => False.elim, fun _ _ => Nat.lt_succ_self _⟩
    · next hround =>
      cases h
      obtain ⟨hms, hstop⟩ := delayRound_slept hround
      exact ⟨.ofWaits rfl hms hstop, rfl, fun _ => False.elim, by simp [hstop]⟩
  | beepStart durationMs | onStart =>
    cases h
    exact ⟨.ofStart rfl _, rfl, by simp [RunPc.toneless], by rintro - ⟨⟩⟩
  | beepDelay durationMs elapsedMs =>
    simp only [runStep] at h
    split at h
    · cases h
      exact ⟨.ofSilent rfl, rfl, fun _ => False.elim, fun _ _ => Nat.lt_succ_self _⟩
    · cases h
      exact ⟨.ofSilent rfl, rfl, fun _ => False.elim, fun _ _ => Nat.lt_succ_self _⟩
    · next hround =>
      cases h
      obtain ⟨hms, hstop⟩ := delayRound_slept hround
      exact ⟨.ofWaits rfl hms hstop, rfl, fun _ => False.elim, by simp [hstop]⟩
  | done r => cases h

/-! ## The two threads together -/

def WorkerPc.At (w : WorkerPc) (c : Call) (pc : RunPc) : Prop :=
  w = .running c pc ∨ ∃ ms, w = .delaying c ms pc

def WorkerPc.pending : WorkerPc → Nat
  | .delaying .. => 1
  | _ => 0

def WorkerPc.left : WorkerPc → Nat
  | .idle => 0
  | .running _ pc | .delaying _ _ pc => pc.left

def delays : List Event → List Nat
  | [] => []
  | .delayed ms :: log => ms :: delays log
  | _ :: log => delays log

/-- The state while no section has cleared the stop request of a `buzzer_off`, where `after` has
happened since. -/
structure Hushed (s : Machine) (after : List Event) : Prop where
  stop : s.output.stopRequested = true
  tone : s.output.currentToneHz = 0
  delays : (delays after).length + s.worker.pending ≤ 1
  short : ∀ ms ∈ Buzzer.delays after, ms ≤ 10
  sections : after.count .ran + s.worker.left ≤ 5

def Hushes (s : Machine) : Prop :=
  ∀ after before, s.log = after ++ .off :: before → .cleared ∉ after → Hushed s after

structure Sound (s : Machine) : Prop where
  state : s.output.buzzerState = true ↔ 0 < s.output.currentToneHz
  written : s.writes.head? = some s.output.currentToneHz
  toneless : ∀ c pc, s.worker.At c pc → c ≠ .on →
    pc ≠ .onStart ∧ (pc.toneless → s.output.currentToneHz = 0)
  wait : ∀ c ms pc, s.worker = .delaying c ms pc → ms ≤ 10
  hushes : Hushes s

theorem At_running {c d : Call} {pc pc' : RunPc} (h : (WorkerPc.running c pc).At d pc') :
    c = d ∧ pc = pc' := by
  obtain h | ⟨ms, h⟩ := h
  · exact WorkerPc.running.inj h
  · cases h

theorem Hushes.cons {s t : Machine} {e : Event} (h : Hushes s) (hlog : t.log = e :: s.log)
    (hoff : e ≠ .off) (hkeep : ∀ after, Hushed s after → e ≠ .cleared → Hushed t (e :: after)) :
    Hushes t := by
  intro after before hsplit hclear
  rw [hlog, List.cons_eq_append_iff] at hsplit
  obtain ⟨-, heq⟩ | ⟨after', rfl, heq⟩ := hsplit
  · exact absurd (List.cons.inj heq).1.symm hoff
  · simp only [List.mem_cons, not_or] at hclear
    exact hkeep after' (h after' before heq hclear.2) (Ne.symm hclear.1)

theorem RunPc.left_le (pc : RunPc) : pc.left ≤ 5 := by
  cases pc <;> simp [RunPc.left]

theorem WorkerPc.left_le (w : WorkerPc) : w.left ≤ 5 := by
  cases w with
  | idle => exact Nat.zero_le _
  | running c pc | delaying c ms pc => exact pc.left_le

theorem WorkerPc.pending_le (w : WorkerPc) : w.pending ≤ 1 := by
  cases w <;> simp [WorkerPc.pending]

theorem Sound.off {s t : Machine} (h : Sound s) (hs : machineStep s .off = some t) : Sound t := by
  cases hs
  refine ⟨by simp [stopOutput, writeOutputLocked], ?_, ?_, h.wait, ?_⟩
  · show (if s.output.currentToneHz ≠ 0 then 0 :: s.writes else s.writes).head? = some 0
    split
    · rfl
    · next htone => rw [h.written, not_not.mp htone]
  · intro c pc hat hc
    exact ⟨(h.toneless c pc hat hc).1, fun _ => rfl⟩
  · intro after before hsplit hclear
    rw [List.cons_eq_append_iff] at hsplit
    obtain ⟨rfl, -⟩ | ⟨after', rfl, heq⟩ := hsplit
    · exact ⟨by simp, rfl, (Nat.zero_add _).trans_le s.worker.pending_le, nofun,
        (Nat.zero_add _).trans_le s.worker.left_le⟩
    · simp only [List.mem_cons, not_or] at hclear
      have hold := h.hushes after' before heq hclear.2
      exact ⟨by simp, rfl, hold.delays, hold.short, by simpa using hold.sections⟩

theorem Call.start_unstarted {c : Call} (hc : c.Admitted) :
    c.start.unstarted = true ∧ (c.start = .onStart → c = .on) := by
  cases c with
  | on => exact ⟨rfl, fun _ => rfl⟩
  | beep durationMs =>
    obtain ⟨hlow, hhigh⟩ := hc
    rw [Call.start, buzzerBeep, if_neg (by omega)]
    exact ⟨rfl, nofun⟩
  | music filePath =>
    rw [Call.start, buzzerMusic, if_neg hc]
    exact ⟨rfl, nofun⟩

theorem RunPc.left_of_unstarted {pc : RunPc} (h : pc.unstarted = true) : pc.left = 0 := by
  cases pc <;> first | rfl | cases h

theorem RunPc.not_toneless_of_unstarted {pc : RunPc} (h : pc.unstarted = true) : ¬ pc.toneless := by
  intro hpc
  cases pc <;> first | exact hpc | cases h

theorem Sound.begin {s t : Machine} {c : Call} (h : Sound s)
    (hs : machineStep s (.begin c) = some t) : Sound t := by
  simp only [machineStep] at hs
  split at hs
  · next hcond =>
    obtain ⟨hidle, hc⟩ := hcond
    obtain ⟨hstart, hon⟩ := Call.start_unstarted hc
    cases hs
    refine ⟨h.state, h.written, ?_, nofun, ?_⟩
    · intro d pc hat hd
      obtain ⟨rfl, rfl⟩ := At_running hat
      exact ⟨fun heq => hd (hon heq), fun htone => absurd htone (RunPc.not_toneless_of_unstarted hstart)⟩
    · refine h.hushes.cons rfl nofun ?_
      intro after hold _
      have hleft : c.start.left = 0 := RunPc.left_of_unstarted hstart
      have hsections := hold.sections
      have hdelays := hold.delays
      rw [hidle] at hsections hdelays
      exact ⟨hold.stop, hold.tone, hdelays, hold.short, by simpa [WorkerPc.left, hleft] using hsections⟩
  · cases hs

theorem Sound.delay {s t : Machine} (h : Sound s) (hs : machineStep s .delay = some t) : Sound t := by
  simp only [machineStep] at hs
  split at hs
  · next c ms pc hworker =>
    cases hs
    refine ⟨h.state, h.written, ?_, nofun, ?_⟩
    · intro d pc' hat hd
      obtain ⟨rfl, rfl⟩ := At_running hat
      exact h.toneless c pc (.inr ⟨ms, hworker⟩) hd
    · refine h.hushes.cons rfl nofun ?_
      intro after hold _
      have hdelays := hold.delays
      have hsections := hold.sections
      rw [hworker] at hdelays hsections
      refine ⟨hold.stop, hold.tone, hdelays, ?_, by simpa [WorkerPc.left] using hsections⟩
      intro n hn
      obtain rfl | hn := List.mem_cons.mp hn
      · exact h.wait c n pc hworker
      · exact hold.short n hn
  · cases hs

theorem Sound.finish {s t : Machine} (h : Sound s) (hs : machineStep s .finish = some t) :
    Sound t := by
  simp only [machineStep] at hs
  split at hs
  · next c r hworker =>
    cases hs
    refine ⟨h.state, h.written, ?_, nofun, ?_⟩
    · rintro d pc (hat | ⟨ms, hat⟩) <;> cases hat
    · refine h.hushes.cons rfl nofun ?_
      intro after hold _
      have hdelays := hold.delays
      have hsections := hold.sections
      rw [hworker] at hdelays hsections
      exact ⟨hold.stop, hold.tone, hdelays, hold.short, by simpa [WorkerPc.left, RunPc.left] using hsections⟩
  · cases hs

theorem machineStep_run {s t : Machine} {x : Reading} (h : machineStep s (.run x) = some t) :
    ∃ c pc o' pc' es, s.worker = .running c pc ∧ runStep s.output pc x = some (o', pc', es) ∧
      t = s.afterSection c pc o' pc' es := by
  simp only [machineStep] at h
  split at h
  · next c pc hworker =>
    split at h
    · cases h
    · next o' pc' es hrun =>
      cases h
      exact ⟨c, pc, o', pc', es, hworker, hrun, rfl⟩
  · cases h

theorem afterSection_at {s : Machine} {c d : Call} {pc pc' pc'' : RunPc} {o' : Output}
    {es : List RunEvent} (h : (s.afterSection c pc o' pc' es).worker.At d pc'') : c = d ∧ pc' = pc'' := by
  simp only [Machine.afterSection] at h
  split at h
  · obtain h | ⟨ms, h⟩ := h
    · cases h
    · cases h
      exact ⟨rfl, rfl⟩
  · exact At_running h

theorem afterSection_left (s : Machine) (c : Call) (pc pc' : RunPc) (o' : Output)
    (es : List RunEvent) : (s.afterSection c pc o' pc' es).worker.left = pc'.left := by
  simp only [Machine.afterSection]
  split <;> rfl

theorem Hushed.section {s : Machine} {c : Call} {pc pc' : RunPc} {o' : Output} {es : List RunEvent}
    {after : List Event} (h : Hushed s after) (hworker : s.worker = .running c pc)
    (hsection : SectionStep s.output pc o' pc' es) (hpc : pc.unstarted = false) :
    Hushed (s.afterSection c pc o' pc' es) (.ran :: after) := by
  have hbehind := Output.behind_of_started (o := s.output) hpc
  have hsections := h.sections
  have hdelays := h.delays
  have hless := hsection.left h.stop hpc
  have hleft := afterSection_left s c pc pc' o' es
  rw [hworker] at hsections hdelays
  have hcount : (Event.ran :: after).count .ran + (s.afterSection c pc o' pc' es).worker.left ≤ 5 := by
    rw [hleft, List.count_cons_self]
    simp only [WorkerPc.left] at hsections
    omega
  obtain ⟨hz, hzero⟩ | - | ⟨ms, -, hstop⟩ := hsection.effect
  · obtain rfl := hzero h.stop hpc
    rw [hbehind] at hcount ⊢
    exact ⟨h.stop, rfl, hdelays, h.short, hcount⟩
  · rw [hbehind] at hcount ⊢
    exact ⟨h.stop, h.tone, hdelays, h.short, hcount⟩
  · rw [h.stop] at hstop
    cases hstop

theorem Sound.run {s t : Machine} {x : Reading} (h : Sound s)
    (hs : machineStep s (.run x) = some t) : Sound t := by
  obtain ⟨c, pc, o', pc', es, hworker, hrun, rfl⟩ := machineStep_run hs
  have hsection := runStep_section hrun
  have hbefore := h.toneless c pc (.inl hworker)
  refine ⟨?_, ?_, ?_, ?_, ?_⟩
  · obtain ⟨hz, -⟩ | - | ⟨ms, -, -⟩ := hsection.effect
    · exact decide_eq_true_iff
    · exact h.state
    · exact h.state
  · obtain ⟨hz, -⟩ | - | ⟨ms, -, -⟩ := hsection.effect
    · show (if s.output.currentToneHz ≠ hz then hz :: s.writes else s.writes).head? = some hz
      split
      · rfl
      · next htone => rw [h.written, not_not.mp htone]
    · exact h.written
    · exact h.written
  · intro d pc'' hat hd
    obtain ⟨rfl, rfl⟩ := afterSection_at hat
    obtain ⟨hne, htone⟩ := hbefore hd
    refine ⟨?_, ?_⟩
    · rintro rfl
      exact Bool.false_ne_true hsection.started.symm
    · intro hpc'
      obtain ⟨hpc, rfl⟩ | htone := hsection.toneless hne hpc'
      · exact htone hpc
      · exact htone
  · intro d ms pc'' hat
    obtain ⟨hz, -⟩ | - | ⟨ms', hms, -⟩ := hsection.effect
    · cases hat
    · cases hat
    · cases hat
      exact hms
  · refine h.hushes.cons rfl (by split <;> nofun) ?_
    intro after hold hcleared
    cases hpc : pc.unstarted with
    | true => simp [hpc] at hcleared
    | false => simpa [hpc] using hold.section hworker hsection hpc

theorem Sound.step {s t : Machine} {a : Act} (h : Sound s) (hs : machineStep s a = some t) :
    Sound t := by
  cases a with
  | begin c => exact h.begin hs
  | run x => exact h.run hs
  | delay => exact h.delay hs
  | finish => exact h.finish hs
  | off => exact h.off hs

theorem machineInit_sound : Sound machineInit where
  state := by decide
  written := rfl
  toneless := by rintro c pc (hat | ⟨ms, hat⟩) <;> cases hat
  wait := nofun
  hushes := by
    intro after before hsplit
    exact absurd hsplit.symm (List.append_ne_nil_of_right_ne_nil _ (List.cons_ne_nil _ _))

theorem Machine.Reachable.sound {s : Machine} (h : s.Reachable) : Sound s :=
  h.invariant (fun _ hinit => hinit ▸ machineInit_sound) fun _ _ _ hsound hs => hsound.step hs

/-- In every reachable state the flag says whether the tone is on, and the tone is the last one
given to `softToneWrite`; a beep and a recording end without a tone; and from a `buzzer_off` until a
section clears its stop request the tone is off, `delay` is called once at most, for ten
milliseconds at most, and the running function makes five sections at most. -/
theorem buzzer_plugin_sound {s : Machine} (h : s.Reachable) :
    (s.output.buzzerState = true ↔ 0 < s.output.currentToneHz) ∧
      s.writes.head? = some s.output.currentToneHz ∧
      (∀ c r, s.worker = .running c (.done r) → c ≠ .on → s.output.currentToneHz = 0) ∧
      ∀ after before, s.log = after ++ .off :: before → .cleared ∉ after →
        s.output.currentToneHz = 0 ∧ (delays after).length ≤ 1 ∧ (∀ ms ∈ delays after, ms ≤ 10) ∧
          after.count .ran ≤ 5 := by
  have hsound := h.sound
  refine ⟨hsound.state, hsound.written, ?_, ?_⟩
  · intro c r hworker hc
    exact (hsound.toneless c _ (.inl hworker) hc).2 trivial
  · intro after before hlog hclear
    have hushed := hsound.hushes after before hlog hclear
    exact ⟨hushed.tone, (Nat.le_add_right ..).trans hushed.delays, hushed.short,
      (Nat.le_add_right ..).trans hushed.sections⟩

/-- A beep that is stopped between the look at the stop request and the call of `delay`. -/
theorem buzzer_plugin_sound_beep : ∃ s : Machine,
    s.log = [.returned (.beep 100) DeviceResult.ok, .ran, .ran, .delayed 10, .off, .ran, .cleared,
      .began (.beep 100)] ∧ s.writes = [0, 440, 0] ∧ s.output.currentToneHz = 0 := by
  have hinit : machineInit.Reachable := .start rfl
  obtain ⟨s, hs, hrun⟩ := hinit.exists_of_run
    [.begin (.beep 100), .run .opened, .run .opened, .off, .delay, .run .opened, .run .opened, .finish]
    (fun s => decide (s.log = [.returned (.beep 100) DeviceResult.ok, .ran, .ran, .delayed 10, .off,
      .ran, .cleared, .began (.beep 100)] ∧ s.writes = [0, 440, 0])) (by decide)
  obtain ⟨hlog, hwrites⟩ := of_decide_eq_true hrun
  obtain ⟨-, -, -, hwindow⟩ := buzzer_plugin_sound hs
  exact ⟨s, hlog, hwrites,
    (hwindow [.returned (.beep 100) DeviceResult.ok, .ran, .ran, .delayed 10] _ hlog (by decide)).1⟩

end RemoteDevice.Buzzer
