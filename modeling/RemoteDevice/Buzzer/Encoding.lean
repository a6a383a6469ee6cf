import RemoteDevice.Buzzer.Melody
import RemoteDevice.Lib.Timeline

/-! The melody buffer as a run-length encoding of the hops that are appended to it. -/

namespace RemoteDevice.Buzzer

/-! ## The buffer in place -/

def reserveNextInPlace (melody : MelodyBuffer) (reallocOk : Bool) : MelodyBuffer × Int :=
  if melody.notes.length < melody.capacity then (melody, DeviceResult.ok)
  else
    let newCapacity := if melody.capacity = 0 then melodyInitialCapacity else melody.capacity * 2
    if !reallocOk then (melody, DeviceResult.deviceFailed)
    else ({ melody with capacity := newCapacity }, DeviceResult.ok)

def appendInPlace (melody : MelodyBuffer) (frequencyHz : Int) (durationMs : UInt32)
    (reallocOk : Bool) : MelodyBuffer × Int :=
  if durationMs = 0 then (melody, DeviceResult.ok)
  else
    let frequencyHz := if frequencyHz < 0 then 0 else frequencyHz
    match melody.notes.getLast?.filter (·.frequencyHz = frequencyHz) with
    | some last =>
      ({ melody with
        notes := melody.notes.dropLast ++
          [{ last with durationMs := last.durationMs + durationMs }] }, DeviceResult.ok)
    | none =>
      let (melody, result) := reserveNextInPlace melody reallocOk
      if result ≠ DeviceResult.ok then (melody, result)
      else ({ melody with notes := melody.notes ++ [⟨frequencyHz, durationMs⟩] }, DeviceResult.ok)

theorem pushNote_inPlace (melody : MelodyBuffer) (note : BuzzerNote) (reallocOk : Bool) :
    (let (m, result) := reserveNextInPlace melody reallocOk
      if result ≠ (DeviceResult.ok : Int) then (m, result)
      else ({ m with notes := m.notes ++ [note] }, (DeviceResult.ok : Int))) =
      match pushNote melody note reallocOk with
      | some m => (m, (DeviceResult.ok : Int))
      | none => (melody, (DeviceResult.deviceFailed : Int)) := by
  rw [pushNote, melodyBufferReserveNext, reserveNextInPlace]
  by_cases hroom : melody.notes.length < melody.capacity
  · simp [hroom]
  · cases reallocOk
    · have hne : (DeviceResult.deviceFailed : Int) ≠ DeviceResult.ok := by decide
      simp [hroom, hne]
    · simp [hroom]

theorem appendInPlace_eq (melody : MelodyBuffer) (frequencyHz : Int) (durationMs : UInt32)
    (reallocOk : Bool) :
    appendInPlace melody frequencyHz durationMs reallocOk =
      match melodyBufferAppend melody frequencyHz durationMs reallocOk with
      | some m => (m, (DeviceResult.ok : Int))
      | none => (melody, (DeviceResult.deviceFailed : Int)) := by
  rw [appendInPlace, melodyBufferAppend]
  by_cases hzero : durationMs = 0
  · rw [if_pos hzero, if_pos hzero]
  rw [if_neg hzero, if_neg hzero]
  generalize (if frequencyHz < 0 then 0 else frequencyHz) = hz
  have hpush := pushNote_inPlace melody ⟨hz, durationMs⟩ reallocOk
  cases hlast : melody.notes.getLast? with
  | none => exact hpush
  | some last =>
    by_cases hsame : last.frequencyHz = hz
    · simp only [Option.filter_some, hsame, decide_true, if_true]
    · simp only [Option.filter_some, hsame, decide_false, Bool.false_eq_true, if_false]
      exact hpush

/-! ## The encoding -/

def BuzzerNote.segment (note : BuzzerNote) : Int × Nat := (note.frequencyHz, note.durationMs.toNat)

def MelodyBuffer.segments (melody : MelodyBuffer) : List (Int × Nat) :=
  melody.notes.map BuzzerNote.segment

/-- What a hop is heard as: a negative frequency is silence. -/
def hopSegment (hop : Int × UInt32) : Int × Nat := (if hop.1 < 0 then 0 else hop.1, hop.2.toNat)

variable {melody melody' : MelodyBuffer} {frequencyHz : Int} {durationMs : UInt32} {reallocOk : Bool}

theorem pushNote_some {note : BuzzerNote} (h : pushNote melody note reallocOk = some melody') :
    melody'.notes = melody.notes ++ [note] ∧
      (melody.notes.length ≤ melody.capacity → melody'.notes.length ≤ melody'.capacity) := by
  obtain ⟨m, hm, rfl⟩ := Option.map_eq_some_iff.mp h
  rw [melodyBufferReserveNext] at hm
  split_ifs at hm
  all_goals cases hm
  all_goals simp only [List.length_append, List.length_singleton, melodyInitialCapacity, true_and]
  all_goals omega

theorem melodyBufferAppend_cases {hop : Int × UInt32}
    (h : melodyBufferAppend melody hop.1 hop.2 reallocOk = some melody') :
    (hop.2 = 0 ∧ melody' = melody) ∨
    (∃ front last, melody.notes = front ++ [last] ∧ hop.2 ≠ 0 ∧
      last.frequencyHz = (hopSegment hop).1 ∧
      melody' = { melody with
        notes := front ++ [{ last with durationMs := last.durationMs + hop.2 }] }) ∨
    (hop.2 ≠ 0 ∧ (∀ last ∈ melody.notes.getLast?, last.frequencyHz ≠ (hopSegment hop).1) ∧
      pushNote melody ⟨(hopSegment hop).1, hop.2⟩ reallocOk = some melody') := by
  rw [melodyBufferAppend] at h
  by_cases hzero : hop.2 = 0
  · rw [if_pos hzero] at h
    exact .inl ⟨hzero, (Option.some.inj h).symm⟩
  rw [if_neg hzero] at h
  change (match melody.notes.getLast? with
    | some last => if last.frequencyHz = (hopSegment hop).1 then _ else _
    | none => _) = _ at h
  cases hlast : melody.notes.getLast? with
  | none =>
    rw [hlast] at h
    exact .inr (.inr ⟨hzero, by simp, h⟩)
  | some last =>
    rw [hlast] at h
    obtain ⟨front, hfront⟩ := List.getLast?_eq_some_iff.mp hlast
    by_cases hsame : last.frequencyHz = (hopSegment hop).1
    · simp only [if_pos hsame, hfront, List.dropLast_concat] at h
      exact .inr (.inl ⟨front, last, hfront, hzero, hsame, (Option.some.inj h).symm⟩)
    · simp only [if_neg hsame] at h
      exact .inr (.inr ⟨hzero, by simpa using hsame, h⟩)

theorem segments_of_notes {notes : List BuzzerNote} {note : BuzzerNote}
    (h : melody.notes = notes ++ [note]) :
    melody.segments = notes.map BuzzerNote.segment ++ [note.segment] := by
  rw [MelodyBuffer.segments, h, List.map_append, List.map_singleton]

theorem hopSegment_pos {hop : Int × UInt32} (h : hop.2 ≠ 0) : 0 < (hopSegment hop).2 :=
  Nat.pos_of_ne_zero fun hzero => h (UInt32.toNat_inj.mp hzero)

def MergeWraps (melody : MelodyBuffer) (hop : Int × UInt32) : Prop :=
  ∃ last ∈ melody.notes.getLast?, last.frequencyHz = (hopSegment hop).1 ∧
    2 ^ 32 ≤ last.durationMs.toNat + hop.2.toNat

theorem melodyBufferAppend_segments {hop : Int × UInt32}
    (h : melodyBufferAppend melody hop.1 hop.2 reallocOk = some melody')
    (hfit : ¬MergeWraps melody hop) :
    melody'.segments = Timeline.push melody.segments (hopSegment hop) := by
  obtain ⟨hzero, rfl⟩ | ⟨front, last, hnotes, hne, hsame, rfl⟩ | ⟨hne, hother, hpush⟩ :=
    melodyBufferAppend_cases h
  · rw [Timeline.push_zero _ (congrArg UInt32.toNat hzero)]
  · have hlast : last ∈ melody.notes.getLast? := by
      rw [hnotes, List.getLast?_concat]
      exact Option.mem_some_self last
    have hsum : last.durationMs.toNat + hop.2.toNat < 2 ^ 32 :=
      Nat.lt_of_not_le fun hwraps => hfit ⟨last, hlast, hsame, hwraps⟩
    rw [segments_of_notes hnotes, Timeline.push_same _ (hopSegment_pos hne) hsame]
    have hlonger : ({ last with durationMs := last.durationMs + hop.2 } : BuzzerNote).segment =
        (last.segment.1, last.segment.2 + (hopSegment hop).2) := by
      simp only [BuzzerNote.segment, hopSegment, UInt32.toNat_add, Nat.mod_eq_of_lt hsum]
    rw [← hlonger]
    exact segments_of_notes rfl
  · have hlast : ∀ s ∈ melody.segments.getLast?, s.1 ≠ (hopSegment hop).1 := by
      intro s hs
      rw [MelodyBuffer.segments, List.getLast?_map] at hs
      obtain ⟨last, hlast, rfl⟩ := Option.map_eq_some_iff.mp hs
      exact hother last hlast
    rw [Timeline.push_other (hopSegment_pos hne) hlast, segments_of_notes (pushNote_some hpush).1]
    rfl

theorem MergeWraps.too_long {hop : Int × UInt32} (h : MergeWraps melody hop) :
    ∃ s ∈ Timeline.push melody.segments (hopSegment hop), 2 ^ 32 ≤ s.2 := by
  obtain ⟨last, hlast, hsame, hwraps⟩ := h
  obtain ⟨front, hnotes⟩ := List.getLast?_eq_some_iff.mp hlast
  have hpos : 0 < (hopSegment hop).2 := by
    have hlt := last.durationMs.toNat_lt
    rw [hopSegment]
    omega
  rw [segments_of_notes hnotes, Timeline.push_same _ hpos hsame]
  exact ⟨_, List.mem_append_right _ (List.mem_singleton_self _), hwraps⟩

theorem melodyBufferAppend_total (melody : MelodyBuffer) (frequencyHz : Int) (durationMs : UInt32) :
    ∃ melody', melodyBufferAppend melody frequencyHz durationMs true = some melody' := by
  have hpush : ∀ note, ∃ melody', pushNote melody note true = some melody' := by
    intro note
    rw [pushNote, melodyBufferReserveNext, if_pos rfl, ← apply_ite some]
    exact ⟨_, rfl⟩
  rw [melodyBufferAppend]
  by_cases hzero : durationMs = 0
  · exact ⟨melody, if_pos hzero⟩
  rw [if_neg hzero]
  cases melody.notes.getLast? with
  | none => exact hpush _
  | some last =>
    simp only
    by_cases hsame : last.frequencyHz = if frequencyHz < 0 then 0 else frequencyHz
    · exact ⟨_, if_pos hsame⟩
    · rw [if_neg hsame]
      exact hpush _

theorem melodyBufferAppend_capacity {hop : Int × UInt32}
    (h : melodyBufferAppend melody hop.1 hop.2 reallocOk = some melody')
    (hfits : melody.notes.length ≤ melody.capacity) : melody'.notes.length ≤ melody'.capacity := by
  obtain ⟨-, rfl⟩ | ⟨front, last, hnotes, -, -, rfl⟩ | ⟨-, -, hpush⟩ := melodyBufferAppend_cases h
  · exact hfits
  · rw [hnotes, List.length_append] at hfits
    rw [List.length_append]
    exact hfits
  · exact (pushNote_some hpush).2 hfits

/-! ## A recording -/

/-- The hops are appended one after the other, each with what `realloc` answers, up to the first
that fails: the buffer then, and whether none has failed. -/
def appendAll (melody : MelodyBuffer) : List ((Int × UInt32) × Bool) → MelodyBuffer × Bool
  | [] => (melody, true)
  | (hop, reallocOk) :: hops =>
    match melodyBufferAppend melody hop.1 hop.2 reallocOk with
    | none => (melody, false)
    | some melody => appendAll melody hops

def stored (hops : List (Int × UInt32)) : List ((Int × UInt32) × Bool) := hops.map fun hop => (hop, true)

def NeverWraps (melody : MelodyBuffer) : List ((Int × UInt32) × Bool) → Prop
  | [] => True
  | (hop, reallocOk) :: hops =>
    ¬MergeWraps melody hop ∧
      ∀ next, melodyBufferAppend melody hop.1 hop.2 reallocOk = some next → NeverWraps next hops

def segmentsOf (hops : List ((Int × UInt32) × Bool)) : List (Int × Nat) :=
  hops.map fun p => hopSegment p.1

theorem NeverWraps.segments {hops : List ((Int × UInt32) × Bool)} (h : NeverWraps melody hops)
    (hall : appendAll melody hops = (melody', true)) :
    melody'.segments = (segmentsOf hops).foldl Timeline.push melody.segments := by
  induction hops generalizing melody with
  | nil =>
    obtain rfl : melody = melody' := congrArg Prod.fst hall
    rfl
  | cons p hops ih =>
    obtain ⟨hop, reallocOk⟩ := p
    rw [appendAll] at hall
    cases hnext : melodyBufferAppend melody hop.1 hop.2 reallocOk with
    | none =>
      rw [hnext] at hall
      exact absurd (congrArg Prod.snd hall) Bool.false_ne_true
    | some next =>
      rw [hnext] at hall
      rw [segmentsOf, List.map_cons, List.foldl_cons, ← melodyBufferAppend_segments hnext h.1]
      exact ih (h.2 next hnext) hall

theorem NeverWraps.of_append {made rest : List ((Int × UInt32) × Bool)}
    (h : NeverWraps melody (made ++ rest)) : NeverWraps melody made := by
  induction made generalizing melody with
  | nil => exact trivial
  | cons p made ih => exact ⟨h.1, fun next hnext => ih (h.2 next hnext)⟩

theorem neverWraps_of_fit {hops : List ((Int × UInt32) × Bool)}
    (hfit : ∀ s ∈ (segmentsOf hops).foldl Timeline.push melody.segments, s.2 < 2 ^ 32) :
    NeverWraps melody hops := by
  induction hops generalizing melody with
  | nil => exact trivial
  | cons p hops ih =>
    rw [segmentsOf, List.map_cons, List.foldl_cons] at hfit
    have hstep : ¬MergeWraps melody p.1 := by
      intro hwraps
      obtain ⟨s, hs, hlong⟩ := hwraps.too_long
      obtain ⟨t, ht, hle⟩ := Timeline.le_foldl_push (segmentsOf hops) hs
      exact absurd (hfit t ht) (Nat.not_lt.mpr (hlong.trans hle))
    refine ⟨hstep, ?_⟩
    intro next hnext
    rw [← melodyBufferAppend_segments hnext hstep] at hfit
    exact ih hfit

theorem segmentsOf_stored (hops : List (Int × UInt32)) :
    segmentsOf (stored hops) = hops.map hopSegment := by
  rw [segmentsOf, stored, List.map_map]
  rfl

theorem appendAll_stored (melody : MelodyBuffer) (hops : List (Int × UInt32)) :
    ∃ melody', appendAll melody (stored hops) = (melody', true) ∧
      (melody.notes.length ≤ melody.capacity → melody'.notes.length ≤ melody'.capacity) ∧
      ((∀ s ∈ (hops.map hopSegment).foldl Timeline.push melody.segments, s.2 < 2 ^ 32) →
        melody'.segments = (hops.map hopSegment).foldl Timeline.push melody.segments) := by
  have hall : ∃ melody', appendAll melody (stored hops) = (melody', true) ∧
      (melody.notes.length ≤ melody.capacity → melody'.notes.length ≤ melody'.capacity) := by
    induction hops generalizing melody with
    | nil => exact ⟨melody, rfl, id⟩
    | cons hop hops ih =>
      obtain ⟨next, hnext⟩ := melodyBufferAppend_total melody hop.1 hop.2
      obtain ⟨melody', hall, hcapacity⟩ := ih next
      refine ⟨melody', ?_, fun h => hcapacity (melodyBufferAppend_capacity hnext h)⟩
      rw [stored, List.map_cons, appendAll, hnext]
      exact hall
  obtain ⟨melody', hall, hcapacity⟩ := hall
  refine ⟨melody', hall, hcapacity, ?_⟩
  intro hfit
  rw [← segmentsOf_stored] at hfit ⊢
  exact (neverWraps_of_fit hfit).segments hall

end RemoteDevice.Buzzer
