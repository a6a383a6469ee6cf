import RemoteDevice.Lib.Runs
import RemoteDevice.Lifecycle.Model

/-! What a plugin's entries in the log amount to. A ledger follows them one by one and refuses a
cleanup without a successful initialisation, a close between the two, and a handle that is closed
without having been opened. -/

namespace RemoteDevice.Lifecycle
open Manager (PluginId)

inductive Stage
  | loaded
  | rejected
  | live
  | cleaned
  deriving DecidableEq

def Ledger.step : Option (Nat × Stage) → Note → Option (Option (Nat × Stage))
  | none, .opened h => some (some (h, .loaded))
  | some (h, .loaded), .init r => some (some (h, if r = ok then .live else .rejected))
  | some (h, .live), .off => some (some (h, .live))
  | some (h, .live), .cleanup => some (some (h, .cleaned))
  | some (h, stage), .closed h' => if h = h' ∧ stage ≠ .live then some none else none
  | _, _ => none

def notes (p : PluginId) (log : List (PluginId × Note)) : List Note :=
  (log.filter (·.1 = p)).map Prod.snd

def ledger (p : PluginId) (log : List (PluginId × Note)) : Option (Option (Nat × Stage)) :=
  Runs.run Ledger.step none (notes p log)

theorem notes_append (p q : PluginId) (e : Note) (log : List (PluginId × Note)) :
    notes p (log ++ [(q, e)]) = if q = p then notes p log ++ [e] else notes p log := by
  unfold notes
  split_ifs with h <;> simp [List.filter_append, h]

theorem ledger_append_self (p : PluginId) (e : Note) (log : List (PluginId × Note)) :
    ledger p (log ++ [(p, e)]) = (ledger p log).bind (Ledger.step · e) := by
  unfold ledger
  rw [notes_append, if_pos rfl, Runs.run_append]
  exact congrArg _ (funext fun x => Option.bind_fun_some _)

theorem ledger_append_of_ne {p q : PluginId} {e : Note} {log : List (PluginId × Note)}
    (h : q ≠ p) : ledger p (log ++ [(q, e)]) = ledger p log := by
  unfold ledger
  rw [notes_append, if_neg h]

/-! ## What an accepted history says -/

section Accepted

variable {es pre post : List Note} {x y : Option (Nat × Stage)}

theorem accepted_append (h : Runs.run Ledger.step x (pre ++ post) = some y) :
    ∃ z, Runs.run Ledger.step x pre = some z ∧ Runs.run Ledger.step z post = some y := by
  rw [Runs.run_append] at h
  exact Option.bind_eq_some_iff.mp h

theorem accepted_cons {e : Note} (h : Runs.run Ledger.step x (e :: es) = some y) :
    ∃ z, Ledger.step x e = some z ∧ Runs.run Ledger.step z es = some y :=
  Option.bind_eq_some_iff.mp h

/-- Where every entry moves a weight as it moves the balance of two entries, a whole history does. -/
theorem accepted_balance {weight : Option (Nat × Stage) → Nat} {a b : Note}
    (hstep : ∀ x e y, Ledger.step x e = some y →
      weight x + [e].count a = weight y + [e].count b)
    (h : Runs.run Ledger.step x es = some y) :
    weight x + es.count a = weight y + es.count b := by
  induction es generalizing x with
  | nil =>
    obtain rfl := Option.some.inj h
    rfl
  | cons e es ih =>
    obtain ⟨z, hz, h⟩ := accepted_cons h
    have hfirst := hstep _ _ _ hz
    have hrest := ih h
    have hcons : ∀ c : Note, (e :: es).count c = [e].count c + es.count c := fun c =>
      (List.count_append : ([e] ++ es).count c = _)
    rw [hcons, hcons]
    omega

def Ledger.live : Option (Nat × Stage) → Nat
  | some (_, .live) => 1
  | _ => 0

def Ledger.isOpen (h : Nat) : Option (Nat × Stage) → Nat
  | some (h', _) => if h' = h then 1 else 0
  | none => 0

theorem accepted_live_balance (h : Runs.run Ledger.step x es = some y) :
    Ledger.live x + es.count (.init ok) = Ledger.live y + es.count .cleanup := by
  refine accepted_balance (fun x e y hstep => ?_) h
  unfold Ledger.step at hstep
  split at hstep
  case h_2 r =>
    obtain rfl := Option.some.inj hstep
    by_cases hr : r = ok <;> simp [hr, Ledger.live]
  case h_5 g _ =>
    split_ifs at hstep with hg
    obtain rfl := Option.some.inj hstep
    cases g <;> simp_all [Ledger.live]
  case h_6 => exact absurd hstep (by simp)
  all_goals
    obtain rfl := Option.some.inj hstep
    rfl

theorem accepted_open_balance {h : Nat} (hrun : Runs.run Ledger.step x es = some y) :
    Ledger.isOpen h x + es.count (.opened h) = Ledger.isOpen h y + es.count (.closed h) := by
  refine accepted_balance (fun x e y hstep => ?_) hrun
  unfold Ledger.step at hstep
  split at hstep
  case h_5 g h' =>
    split_ifs at hstep with hg
    obtain rfl := Option.some.inj hstep
    obtain ⟨rfl, -⟩ := hg
    simp [Ledger.isOpen, List.count_singleton]
  case h_6 => exact absurd hstep (by simp)
  all_goals
    obtain rfl := Option.some.inj hstep
    simp [Ledger.isOpen, List.count_singleton]

theorem Ledger.step_init (h : Ledger.step x (.init ok) = some y) :
    ∃ hd, y = some (hd, .live) := by
  obtain _ | ⟨hd, stage⟩ := x
  · simp [Ledger.step] at h
  · cases stage <;> simp [Ledger.step] at h
    exact ⟨hd, h.symm⟩

theorem Ledger.step_cleanup (h : Ledger.step x .cleanup = some y) : Ledger.live x = 1 := by
  obtain _ | ⟨hd, stage⟩ := x
  · simp [Ledger.step] at h
  · cases stage <;> simp [Ledger.step] at h
    rfl

theorem accepted_live {h : Nat} (hrun : Runs.run Ledger.step (some (h, .live)) es = some none) :
    ∃ offs rest, es = offs ++ .cleanup :: .closed h :: rest ∧ ∀ e ∈ offs, e = .off := by
  induction es with
  | nil => exact absurd hrun (by simp [Runs.run])
  | cons e es ih =>
    obtain ⟨z, hz, hrun⟩ := accepted_cons hrun
    cases e with
    | off =>
      obtain rfl := Option.some.inj hz
      obtain ⟨offs, rest, rfl, hoffs⟩ := ih hrun
      exact ⟨.off :: offs, rest, rfl, by simpa using hoffs⟩
    | cleanup =>
      obtain rfl := Option.some.inj hz
      cases es with
      | nil => exact absurd hrun (by simp [Runs.run])
      | cons e es =>
        obtain ⟨z, hz, -⟩ := accepted_cons hrun
        cases e with
        | closed h' =>
          have heq : h = h' := by
            by_contra hne
            simp [Ledger.step, hne] at hz
          subst heq
          exact ⟨[], es, rfl, by simp⟩
        | _ => exact absurd hz (by simp [Ledger.step])
    | closed h' => exact absurd hz (by simp [Ledger.step])
    | _ => exact absurd hz (by simp [Ledger.step])

end Accepted

end RemoteDevice.Lifecycle
