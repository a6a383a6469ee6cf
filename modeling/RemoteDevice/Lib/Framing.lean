import Mathlib.Data.List.Induction

/-! Words on a stream, each with a terminator behind it, and the words that a reader finds in what has
arrived of the stream. -/

namespace Framing

variable {α : Type*} {stop : α} {w s t : List α} {ws vs : List (List α)}

def frame (stop : α) (w : List α) : List α := w ++ [stop]

def stream (stop : α) (ws : List (List α)) : List α := ws.flatMap (frame stop)

theorem stream_append (ws vs : List (List α)) : stream stop (ws ++ vs) = stream stop ws ++ stream stop vs :=
  List.flatMap_append

variable [DecidableEq α]

def complete (stop : α) (s : List α) : List (List α) := (s.splitOn stop).dropLast

theorem splitOnP_of_not_mem (h : stop ∉ s) : s.splitOnP (· == stop) = [s] := by
  apply List.splitOnP_eq_singleton
  intro a ha
  simp only [beq_eq_false_iff_ne]
  exact fun heq => h (heq ▸ ha)

theorem complete_of_not_mem (h : stop ∉ s) : complete stop s = [] := by
  rw [complete, List.splitOn, splitOnP_of_not_mem h]
  rfl

theorem complete_frame_append (h : stop ∉ w) (s : List α) :
    complete stop (frame stop w ++ s) = w :: complete stop s := by
  have hstop : (stop == stop) = true := beq_self_eq_true stop
  have hsplit : (frame stop w ++ s).splitOnP (· == stop) = w :: s.splitOnP (· == stop) := by
    rw [frame, List.append_assoc, List.singleton_append, List.splitOnP_append_cons (p := (· == stop)) w s hstop,
      splitOnP_of_not_mem h]
    rfl
  rw [complete, List.splitOn, hsplit]
  exact List.dropLast_cons_of_ne_nil (List.splitOnP_ne_nil _ _)

theorem complete_stream_append (h : ∀ w ∈ ws, stop ∉ w) (s : List α) :
    complete stop (stream stop ws ++ s) = ws ++ complete stop s := by
  induction ws with
  | nil => rfl
  | cons w ws ih =>
    have hrest := ih fun v hv => h v (List.mem_cons_of_mem _ hv)
    rw [stream, List.flatMap_cons, List.append_assoc, complete_frame_append (h w List.mem_cons_self)]
    exact congrArg (w :: ·) hrest

theorem complete_stream (h : ∀ w ∈ ws, stop ∉ w) : complete stop (stream stop ws) = ws := by
  have hnil := complete_stream_append h []
  rwa [List.append_nil, complete_of_not_mem List.not_mem_nil, List.append_nil] at hnil

theorem exists_words (stop : α) (s : List α) :
    ∃ ws r, (∀ w ∈ ws, stop ∉ w) ∧ stop ∉ r ∧ s = stream stop ws ++ r := by
  induction s using List.reverseRecOn with
  | nil => exact ⟨[], [], fun _ h => absurd h List.not_mem_nil, List.not_mem_nil, rfl⟩
  | append_singleton s a ih =>
    obtain ⟨ws, r, hws, hr, rfl⟩ := ih
    by_cases ha : a = stop
    · subst ha
      refine ⟨ws ++ [r], [], ?_, List.not_mem_nil, ?_⟩
      · intro w hw
        rcases List.mem_append.mp hw with hw | hw
        · exact hws w hw
        · exact List.mem_singleton.mp hw ▸ hr
      · rw [stream_append, List.append_nil, List.append_assoc]
        simp [stream, frame]
    · refine ⟨ws, r ++ [a], hws, ?_, List.append_assoc ..⟩
      intro hmem
      rcases List.mem_append.mp hmem with hmem | hmem
      · exact hr hmem
      · exact ha (List.mem_singleton.mp hmem).symm

theorem complete_mono (h : s <+: t) : complete stop s <+: complete stop t := by
  obtain ⟨u, rfl⟩ := h
  obtain ⟨ws, r, hws, hr, rfl⟩ := exists_words stop s
  rw [List.append_assoc, complete_stream_append hws, complete_stream_append hws,
    complete_of_not_mem hr, List.append_nil]
  exact List.prefix_append ..

end Framing
