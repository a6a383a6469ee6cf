import RemoteDevice.Buzzer.Encoding
import RemoteDevice.Buzzer.Machine

/-! `play_melody` against time: what `softToneWrite` was last given in each millisecond, beside a
thread that may request a stop at any moment. -/

namespace RemoteDevice.Buzzer
open Timeline

/-- `tone` is what `softToneWrite` was last given, `delayLeft` what remains of the call of `delay`,
and `timeline` the tone in each millisecond so far. -/
structure Playback where
  output : Output
  tone : Int
  pc : RunPc
  delayLeft : Nat := 0
  timeline : List Int := []

inductive PlayAct
  | run
  | millisecond
  | off
  deriving DecidableEq

def toneAfter (o : Output) (es : List RunEvent) (tone : Int) : Int :=
  (softToneWrites o es [tone]).headD tone

def delayOf : List RunEvent → Nat
  | [.delay ms] => ms
  | _ => 0

def playStep (s : Playback) : PlayAct → Option Playback
  | .run =>
    if s.delayLeft = 0 then
      (runStep s.output s.pc .endOfData).map fun r =>
        { s with
          output := r.1
          pc := r.2.1
          tone := toneAfter s.output r.2.2 s.tone
          delayLeft := delayOf r.2.2 }
    else none
  | .millisecond =>
    if s.delayLeft = 0 then none
    else some { s with delayLeft := s.delayLeft - 1, timeline := s.timeline ++ [s.tone] }
  | .off =>
    some
      { s with
        output := stopOutput s.output true
        tone := toneAfter s.output [.tone 0] s.tone }

def playMelody (melody : MelodyBuffer) (o : Output) : Playback :=
  { output := o, tone := o.currentToneHz, pc := .playing melody.notes }

def sound (notes : List BuzzerNote) : List Int := expand (notes.map BuzzerNote.segment)

variable {s t : Playback} {target : List Int}

theorem toneAfter_tone (o : Output) (hz tone : Int) (h : tone = o.currentToneHz) :
    toneAfter o [.tone hz] tone = hz := by
  rw [toneAfter, softToneWrites]
  split_ifs with hne
  · rfl
  · rw [not_not] at hne
    exact h.trans hne

/-! ## Without a stop -/

inductive Stage (target : List Int) (s : Playback) : Prop
  | playing (notes : List BuzzerNote) (hpc : s.pc = .playing notes) (hdelay : s.delayLeft = 0)
      (htime : s.timeline ++ sound notes = target)
  | delaying (durationMs elapsedMs : Nat) (notes : List BuzzerNote)
      (hpc : s.pc = .playDelay durationMs elapsedMs notes) (hle : elapsedMs ≤ durationMs)
      (htime : s.timeline ++ (List.replicate (s.delayLeft + (durationMs - elapsedMs)) s.tone ++
        sound notes) = target)
  | stopping (hpc : s.pc = .stopping DeviceResult.ok) (hdelay : s.delayLeft = 0)
      (htime : s.timeline = target)
  | done (hpc : s.pc = .done DeviceResult.ok) (htone : s.tone = 0) (hdelay : s.delayLeft = 0)
      (htime : s.timeline = target)

structure Plays (target : List Int) (s : Playback) : Prop where
  running : s.output.stopRequested = false
  tone : s.tone = s.output.currentToneHz
  stage : Stage target s

theorem Plays.start (melody : MelodyBuffer) {o : Output} (h : o.stopRequested = false) :
    Plays (sound melody.notes) (playMelody melody o) :=
  ⟨h, rfl, .playing melody.notes rfl rfl (List.nil_append _)⟩

theorem Plays.run (h : Plays target s) (hs : playStep s .run = some t) : Plays target t := by
  obtain ⟨hrunning, htone, hstage⟩ := h
  rw [playStep, Option.ite_none_right_eq_some] at hs
  obtain ⟨hdelay, hs⟩ := hs
  cases hstage with
  | playing notes hpc _ htime =>
    cases notes with
    | nil =>
      simp only [hpc, runStep, Option.map_some, Option.some.injEq] at hs
      subst hs
      refine ⟨hrunning, htone, .stopping rfl rfl ?_⟩
      simpa [sound] using htime
    | cons note notes =>
      simp only [hpc, runStep, writeOutputIfRunning, hrunning, Bool.false_eq_true, if_false,
        Option.map_some, Option.some.injEq] at hs
      subst hs
      have hnew := toneAfter_tone s.output note.frequencyHz s.tone htone
      refine ⟨hrunning, hnew, .delaying note.durationMs.toNat 0 notes rfl (Nat.zero_le _) ?_⟩
      simpa [sound, BuzzerNote.segment, delayOf, hnew] using htime
  | delaying durationMs elapsedMs notes hpc hle htime =>
    rw [hdelay, Nat.zero_add] at htime
    -- a further delay of at most 10 ms, or the end of the note
    rcases Nat.lt_or_ge elapsedMs durationMs with hlt | hge
    · simp only [hpc, runStep, delayRound, hlt, hrunning, Bool.false_eq_true, if_true, if_false,
        Option.map_some, Option.some.injEq] at hs
      subst hs
      refine ⟨hrunning, htone, .delaying durationMs _ notes rfl (by omega) ?_⟩
      have hsplit : min (durationMs - elapsedMs) 10 +
          (durationMs - (elapsedMs + min (durationMs - elapsedMs) 10)) = durationMs - elapsedMs := by
        omega
      simpa only [delayOf, toneAfter, softToneWrites, List.headD_cons, hsplit] using htime
    · simp only [hpc, runStep, delayRound, Nat.not_lt.mpr hge, hrunning, Bool.false_eq_true,
        if_false, Option.map_some, Option.some.injEq] at hs
      subst hs
      refine ⟨hrunning, htone, .playing notes rfl rfl ?_⟩
      simpa [Nat.sub_eq_zero_of_le hge] using htime
  | stopping hpc _ htime =>
    simp only [hpc, runStep, Option.map_some, Option.some.injEq] at hs
    subst hs
    have hnew := toneAfter_tone s.output 0 s.tone htone
    exact ⟨by simp [hrunning], hnew, .done rfl hnew rfl htime⟩
  | done hpc _ _ _ =>
    rw [hpc] at hs
    cases hs

theorem Plays.millisecond (h : Plays target s) (hs : playStep s .millisecond = some t) :
    Plays target t := by
  obtain ⟨hrunning, htone, hstage⟩ := h
  rw [playStep, Option.ite_none_left_eq_some] at hs
  obtain ⟨hdelay, hs⟩ := hs
  obtain rfl := Option.some.inj hs
  cases hstage with
  | playing _ _ hzero | stopping _ hzero | done _ _ hzero => exact absurd hzero hdelay
  | delaying durationMs elapsedMs notes hpc hle htime =>
    refine ⟨hrunning, htone, .delaying durationMs elapsedMs notes hpc hle ?_⟩
    have hsplit : s.delayLeft + (durationMs - elapsedMs) =
        1 + (s.delayLeft - 1 + (durationMs - elapsedMs)) := by omega
    rw [hsplit, List.replicate_add] at htime
    simpa using htime

theorem Plays.acts (h : Plays target s) {acts : List PlayAct} (hacts : .off ∉ acts)
    (hrun : Runs.run playStep s acts = some t) : Plays target t := by
  induction acts generalizing s with
  | nil => exact Option.some.inj hrun ▸ h
  | cons act acts ih =>
    obtain ⟨u, hu, hrest⟩ := Option.bind_eq_some_iff.mp hrun
    have hoff : act ≠ .off := fun hact => hacts (hact ▸ List.mem_cons_self)
    refine ih ?_ (fun hmem => hacts (List.mem_cons_of_mem _ hmem)) hrest
    cases act with
    | run => exact h.run hu
    | millisecond => exact h.millisecond hu
    | off => exact absurd rfl hoff

theorem Plays.heard (h : Plays target s) : s.timeline <+: target := by
  cases h.stage with
  | playing _ _ _ htime | delaying _ _ _ _ _ htime => exact ⟨_, htime⟩
  | stopping _ _ htime | done _ _ _ htime => exact htime ▸ List.prefix_rfl

theorem Plays.done (h : Plays target s) {r : Int} (hpc : s.pc = .done r) :
    r = DeviceResult.ok ∧ s.timeline = target ∧ s.tone = 0 := by
  cases h.stage with
  | playing _ hp | delaying _ _ _ hp | stopping hp => rw [hpc] at hp; cases hp
  | done hp htone _ htime =>
    rw [hpc] at hp
    exact ⟨RunPc.done.inj hp, htime, htone⟩

/-! ## The end -/

def notesLeft (notes : List BuzzerNote) : Nat := (notes.map fun note => 2 * note.durationMs.toNat + 2).sum

def Playback.left (s : Playback) : Nat :=
  match s.pc with
  | .playing notes => notesLeft notes + 2
  | .playDelay durationMs elapsedMs notes =>
    s.delayLeft + 2 * (durationMs - elapsedMs) + 1 + (notesLeft notes + 2)
  | .stopping _ => 1
  | _ => 0

theorem Plays.progress (h : Plays target s) (hpc : s.pc ≠ .done DeviceResult.ok) :
    ∃ act t, act ≠ .off ∧ playStep s act = some t ∧ t.left < s.left := by
  obtain ⟨hrunning, -, hstage⟩ := h
  cases hstage with
  | done hp => exact absurd hp hpc
  | stopping hp hdelay =>
    refine ⟨.run, ?_⟩
    simp [playStep, hdelay, hp, runStep, Playback.left]
  | playing notes hp hdelay =>
    refine ⟨.run, ?_⟩
    cases notes with
    | nil => simp [playStep, hdelay, hp, runStep, Playback.left, notesLeft]
    | cons note notes =>
      simp [playStep, hdelay, hp, runStep, writeOutputIfRunning, hrunning, Playback.left, notesLeft,
        delayOf]
      omega
  | delaying durationMs elapsedMs notes hp hle =>
    by_cases hdelay : s.delayLeft = 0
    · refine ⟨.run, ?_⟩
      rcases Nat.lt_or_ge elapsedMs durationMs with hlt | hge
      · simp [playStep, hdelay, hp, runStep, delayRound, hlt, hrunning, Playback.left, delayOf]
        omega
      · simp [playStep, hdelay, hp, runStep, delayRound, Nat.not_lt.mpr hge, hrunning, Playback.left]
    · refine ⟨.millisecond, ?_⟩
      simp [playStep, hdelay, hp, Playback.left]
      omega

theorem Plays.ends (h : Plays target s) :
    ∃ acts t, .off ∉ acts ∧ Runs.run playStep s acts = some t ∧ t.pc = .done DeviceResult.ok := by
  generalize hn : s.left = n
  induction n using Nat.strong_induction_on generalizing s with
  | _ n ih =>
    by_cases hpc : s.pc = .done DeviceResult.ok
    · exact ⟨[], s, by simp, rfl, hpc⟩
    obtain ⟨act, u, hact, hu, hless⟩ := h.progress hpc
    have hplays : Plays target u := by
      cases act with
      | run => exact h.run hu
      | millisecond => exact h.millisecond hu
      | off => exact absurd rfl hact
    obtain ⟨acts, t, hoff, hrun, hdone⟩ := ih u.left (hn ▸ hless) hplays rfl
    refine ⟨act :: acts, t, ?_, ?_, hdone⟩
    · rw [List.mem_cons, not_or]
      exact ⟨hact.symm, hoff⟩
    · rw [Runs.run_cons, hu]
      exact hrun

/-! ## With a stop -/

structure Silenced (target : List Int) (s : Playback) : Prop where
  stopped : s.output.stopRequested = true
  tone : s.tone = s.output.currentToneHz
  quiet : s.tone = 0 ∨ s.delayLeft = 0
  place : (∃ notes, s.pc = .playing notes) ∨ (∃ d e notes, s.pc = .playDelay d e notes) ∨
    s.pc = .stopping DeviceResult.ok ∨ (s.pc = .done DeviceResult.ok ∧ s.tone = 0)
  timeline : ∃ heard ms, s.timeline = heard ++ List.replicate ms 0 ∧ heard <+: target

theorem Silenced.start (melody : MelodyBuffer) {o : Output} (h : o.stopRequested = true) :
    Silenced (sound melody.notes) (playMelody melody o) :=
  ⟨h, rfl, .inr rfl, .inl ⟨_, rfl⟩, [], 0, rfl, List.nil_prefix⟩

theorem Plays.off (h : Plays target s) (hs : playStep s .off = some t) : Silenced target t := by
  obtain rfl := Option.some.inj hs
  have htone := toneAfter_tone s.output 0 s.tone h.tone
  refine ⟨by simp, htone, .inl htone, ?_, s.timeline, 0, (List.append_nil _).symm, h.heard⟩
  cases h.stage with
  | playing notes hpc => exact .inl ⟨notes, hpc⟩
  | delaying d e notes hpc => exact .inr (.inl ⟨d, e, notes, hpc⟩)
  | stopping hpc => exact .inr (.inr (.inl hpc))
  | done hpc => exact .inr (.inr (.inr ⟨hpc, htone⟩))

theorem Silenced.off (h : Silenced target s) (hs : playStep s .off = some t) :
    Silenced target t := by
  obtain rfl := Option.some.inj hs
  have htone := toneAfter_tone s.output 0 s.tone h.tone
  refine ⟨by simp, htone, .inl htone, ?_, h.timeline⟩
  obtain hplaying | hdelaying | hstopping | ⟨hdone, -⟩ := h.place
  · exact .inl hplaying
  · exact .inr (.inl hdelaying)
  · exact .inr (.inr (.inl hstopping))
  · exact .inr (.inr (.inr ⟨hdone, htone⟩))

theorem Silenced.millisecond (h : Silenced target s) (hs : playStep s .millisecond = some t) :
    Silenced target t := by
  rw [playStep, Option.ite_none_left_eq_some] at hs
  obtain ⟨hdelay, hs⟩ := hs
  obtain rfl := Option.some.inj hs
  have hzero : s.tone = 0 := h.quiet.resolve_right hdelay
  obtain ⟨heard, ms, htime, hheard⟩ := h.timeline
  refine ⟨h.stopped, h.tone, .inl hzero, h.place, heard, ms + 1, ?_, hheard⟩
  simp only [htime, hzero, List.append_assoc, List.replicate_succ']

theorem Silenced.run (h : Silenced target s) (hs : playStep s .run = some t) :
    Silenced target t := by
  rw [playStep, Option.ite_none_right_eq_some] at hs
  obtain ⟨hdelay, hs⟩ := hs
  have hstopped := h.stopped
  obtain ⟨notes, hpc⟩ | ⟨d, e, notes, hpc⟩ | hpc | ⟨hpc, -⟩ := h.place
  · cases notes with
    | nil =>
      simp only [hpc, runStep, Option.map_some, Option.some.injEq] at hs
      subst hs
      exact ⟨hstopped, h.tone, .inr rfl, .inr (.inr (.inl rfl)), h.timeline⟩
    | cons note notes =>
      simp only [hpc, runStep, writeOutputIfRunning, hstopped, if_true, Option.map_some,
        Option.some.injEq] at hs
      subst hs
      have htone := toneAfter_tone s.output 0 s.tone h.tone
      exact ⟨hstopped, htone, .inl htone, .inr (.inr (.inl rfl)), h.timeline⟩
  · simp only [hpc, runStep, delayRound, hstopped, if_true, ite_self, Option.map_some,
      Option.some.injEq] at hs
    subst hs
    exact ⟨hstopped, h.tone, .inr rfl, .inr (.inr (.inl rfl)), h.timeline⟩
  · simp only [hpc, runStep, Option.map_some, Option.some.injEq] at hs
    subst hs
    have htone := toneAfter_tone s.output 0 s.tone h.tone
    exact ⟨by simp [hstopped], htone, .inl htone, .inr (.inr (.inr ⟨rfl, htone⟩)), h.timeline⟩
  · rw [hpc] at hs
    cases hs

theorem playMelody_heard (melody : MelodyBuffer) (o : Output) {acts : List PlayAct}
    (hrun : Runs.run playStep (playMelody melody o) acts = some t) :
    Plays (sound melody.notes) t ∨ Silenced (sound melody.notes) t := by
  refine Runs.run_invariant (P := fun s => Plays (sound melody.notes) s ∨
    Silenced (sound melody.notes) s) ?_ ?_ hrun
  · rintro s act t (h | h) hs
    · cases act with
      | run => exact .inl (h.run hs)
      | millisecond => exact .inl (h.millisecond hs)
      | off => exact .inr (h.off hs)
    · cases act with
      | run => exact .inr (h.run hs)
      | millisecond => exact .inr (h.millisecond hs)
      | off => exact .inr (h.off hs)
  · cases hstop : o.stopRequested with
    | false => exact .inl (.start melody hstop)
    | true => exact .inr (.start melody hstop)

theorem Silenced.done (h : Silenced target s) {r : Int} (hpc : s.pc = .done r) :
    r = DeviceResult.ok ∧ s.tone = 0 := by
  obtain ⟨notes, hp⟩ | ⟨d, e, notes, hp⟩ | hp | ⟨hp, htone⟩ := h.place
  all_goals rw [hpc] at hp
  all_goals cases hp
  exact ⟨rfl, htone⟩

/-- What a melody sounds like: left alone it is played to its end, then there is silence, and a stop
cuts it short. -/
structure SoundsAs (melody : MelodyBuffer) (target : List Int) : Prop where
  plays : ∀ o acts t, o.stopRequested = false → .off ∉ acts →
    Runs.run playStep (playMelody melody o) acts = some t →
      t.timeline <+: target ∧
        ∀ r, t.pc = .done r → r = DeviceResult.ok ∧ t.timeline = target ∧ t.tone = 0
  ends : ∀ o, o.stopRequested = false → ∃ acts t, .off ∉ acts ∧
    Runs.run playStep (playMelody melody o) acts = some t ∧ t.pc = .done DeviceResult.ok
  stops : ∀ o acts t, Runs.run playStep (playMelody melody o) acts = some t →
    (∃ heard ms, t.timeline = heard ++ List.replicate ms 0 ∧ heard <+: target) ∧
      ∀ r, t.pc = .done r → r = DeviceResult.ok ∧ t.tone = 0

theorem soundsAs (melody : MelodyBuffer) : SoundsAs melody (sound melody.notes) := by
  constructor
  · intro o acts t hrunning hacts hrun
    have hplays := (Plays.start melody hrunning).acts hacts hrun
    exact ⟨hplays.heard, fun r hpc => hplays.done hpc⟩
  · intro o hrunning
    exact (Plays.start melody hrunning).ends
  · intro o acts t hrun
    rcases playMelody_heard melody o hrun with h | h
    · refine ⟨⟨t.timeline, 0, (List.append_nil _).symm, h.heard⟩, ?_⟩
      intro r hpc
      obtain ⟨hr, -, htone⟩ := h.done hpc
      exact ⟨hr, htone⟩
    · exact ⟨h.timeline, fun r hpc => h.done hpc⟩

/-! ## The buffer and the player agree -/

theorem appendInPlace_failed {melody : MelodyBuffer} {hop : Int × UInt32} (hne : hop.2 ≠ 0)
    (hother : ∀ last ∈ melody.notes.getLast?, last.frequencyHz ≠ (hopSegment hop).1)
    (hfull : melody.capacity ≤ melody.notes.length) :
    appendInPlace melody hop.1 hop.2 false = (melody, (DeviceResult.deviceFailed : Int)) := by
  rw [appendInPlace_eq]
  cases happend : melodyBufferAppend melody hop.1 hop.2 false with
  | none => rfl
  | some melody' =>
    obtain ⟨hzero, -⟩ | ⟨front, last, hnotes, -, hsame, -⟩ | ⟨-, -, hpush⟩ :=
      melodyBufferAppend_cases happend
    · exact absurd hzero hne
    · exact absurd hsame (hother last (by rw [hnotes, List.getLast?_concat]; rfl))
    · rw [pushNote, melodyBufferReserveNext, if_neg (Nat.not_lt.mpr hfull)] at hpush
      cases hpush

/-- The buffer is a run-length encoding of the hops, which the player decodes. -/
theorem melody_faithful (hops : List (Int × UInt32))
    (hsum : (hops.map fun hop => hop.2.toNat).sum < 2 ^ 32) :
    (∃ melody, appendAll {} (stored hops) = (melody, true) ∧
      (melody.notes.IsChain fun a b => a.frequencyHz ≠ b.frequencyHz) ∧
      (∀ note ∈ melody.notes, 0 ≤ note.frequencyHz ∧ 0 < note.durationMs) ∧
      melody.notes.length ≤ melody.capacity ∧
      SoundsAs melody (expand (hops.map hopSegment))) ∧
    ∀ (melody : MelodyBuffer) (hop : Int × UInt32), hop.2 ≠ 0 →
      (∀ last ∈ melody.notes.getLast?, last.frequencyHz ≠ (hopSegment hop).1) →
      melody.capacity ≤ melody.notes.length →
      appendInPlace melody hop.1 hop.2 false = (melody, (DeviceResult.deviceFailed : Int)) := by
  refine ⟨?_, fun melody hop => appendInPlace_failed⟩
  obtain ⟨melody, hall, hcapacity, hsegments⟩ := appendAll_stored {} hops
  have hlength : (expand (encode (hops.map hopSegment))).length =
      (hops.map fun hop => hop.2.toNat).sum := by
    rw [expand_encode, expand_length, List.map_map]
    rfl
  have henc : melody.segments = encode (hops.map hopSegment) := by
    apply hsegments
    intro s hs
    exact lt_of_le_of_lt (duration_le hs) (hlength ▸ hsum)
  have hreduced : Reduced melody.segments := henc ▸ encode_reduced _
  have hnonneg : ∀ s ∈ melody.segments, 0 ≤ s.1 := by
    rw [henc]
    apply forall_foldl_push (P := fun hz : Int => 0 ≤ hz) (by simp)
    intro s hs
    obtain ⟨hop, -, rfl⟩ := List.mem_map.mp hs
    simp only [hopSegment]
    split <;> omega
  refine ⟨melody, hall, ?_, ?_, hcapacity le_rfl, ?_⟩
  · exact (List.isChain_map BuzzerNote.segment).mp hreduced.adjacent
  · intro note hnote
    have hmem : note.segment ∈ melody.segments := List.mem_map_of_mem hnote
    exact ⟨hnonneg _ hmem, UInt32.lt_iff_toNat_lt.mpr (hreduced.positive _ hmem)⟩
  · have hsound : sound melody.notes = expand (hops.map hopSegment) := by
      rw [← expand_encode, ← henc]
      rfl
    exact hsound ▸ soundsAs melody

/-- Two hops of one tone, one of none and one below zero. -/
theorem melody_faithful_hops :
    ∃ melody, appendAll {} (stored [(440, 20), (440, 20), (262, 0), (-1, 25)]) = (melody, true) ∧
      SoundsAs melody (List.replicate 40 440 ++ List.replicate 25 0) := by
  obtain ⟨⟨melody, hall, -, -, -, hsounds⟩, -⟩ :=
    melody_faithful [(440, 20), (440, 20), (262, 0), (-1, 25)] (by decide)
  exact ⟨melody, hall, hsounds⟩

end RemoteDevice.Buzzer
