import Mathlib.Algebra.Group.Int.Defs
import Mathlib.Algebra.Group.Nat.Defs
import Mathlib.Data.Int.Order.Basic

/-! Machine arithmetic and array accesses that stop with a fault where C leaves the behaviour
undefined or loses bits. -/

namespace Checked

universe u

inductive Fault
  | divByZero
  | underflow
  | overflow
  | outOfBounds
  deriving DecidableEq

abbrev Result (α : Type u) := Except Fault α

variable {α β : Type u}

def div (a b : Nat) : Result Nat := if b = 0 then throw .divByZero else pure (a / b)

def tdiv (a b : Int) : Result Int := if b = 0 then throw .divByZero else pure (a.tdiv b)

def sub (a b : Nat) : Result Nat := if b ≤ a then pure (a - b) else throw .underflow

/-- A value that has to fit an unsigned type of `w` bits. -/
def unsigned (w a : Nat) : Result Nat := if a < 2 ^ w then pure a else throw .overflow

def signed (w : Nat) (a : Int) : Result Int :=
  if -2 ^ w ≤ a ∧ a < 2 ^ w then pure a else throw .overflow

abbrev Buffer (n : Nat) (α : Type u) := Fin n → α

namespace Buffer

variable {n : Nat} (a : Buffer n α)

def write (i : Nat) (x : α) : Result (Buffer n α) :=
  if h : i < n then pure (fun j => if j = ⟨i, h⟩ then x else a j) else throw .outOfBounds

def take (k : Nat) : Result (List α) :=
  if h : k ≤ n then pure (List.ofFn fun i : Fin k => a (i.castLE h)) else throw .outOfBounds

def moveDown (start k : Nat) : Result (Buffer n α) :=
  if h : start + k ≤ n then
    pure (fun j => if hj : j.val < k then a ⟨start + j, by omega⟩ else a j)
  else throw .outOfBounds

end Buffer

def Returns (x : Result α) (P : α → Prop) : Prop := ∃ a, x = .ok a ∧ P a

theorem Returns.pure {a : α} {P : α → Prop} (h : P a) : Returns (pure a) P := ⟨a, rfl, h⟩

theorem Returns.bind {x : Result α} {f : α → Result β} {P : α → Prop} {Q : β → Prop}
    (hx : Returns x P) (hf : ∀ a, P a → Returns (f a) Q) : Returns (x >>= f) Q := by
  obtain ⟨a, rfl, ha⟩ := hx
  exact hf a ha

theorem Returns.mono {x : Result α} {P Q : α → Prop} (h : Returns x P) (hPQ : ∀ a, P a → Q a) :
    Returns x Q := by
  obtain ⟨a, ha, hP⟩ := h
  exact ⟨a, ha, hPQ a hP⟩

theorem div_returns {a b : Nat} (h : b ≠ 0) : Returns (div a b) (· = a / b) := ⟨_, if_neg h, rfl⟩

theorem tdiv_returns {a b : Int} (h : b ≠ 0) : Returns (tdiv a b) (· = a.tdiv b) :=
  ⟨_, if_neg h, rfl⟩

theorem sub_returns {a b : Nat} (h : b ≤ a) : Returns (sub a b) (· = a - b) := ⟨_, if_pos h, rfl⟩

theorem unsigned_returns {w a : Nat} (h : a < 2 ^ w) : Returns (unsigned w a) (· = a) :=
  ⟨_, if_pos h, rfl⟩

theorem signed_returns {w : Nat} {a : Int} (h : -2 ^ w ≤ a) (h' : a < 2 ^ w) :
    Returns (signed w a) (· = a) := ⟨_, if_pos ⟨h, h'⟩, rfl⟩

namespace Buffer

variable {n : Nat} (a : Buffer n α)

theorem write_returns {i : Nat} (x : α) (h : i < n) :
    Returns (a.write i x) fun b => b ⟨i, h⟩ = x ∧ ∀ j ≠ ⟨i, h⟩, b j = a j :=
  ⟨_, dif_pos h, if_pos rfl, fun _ hj => if_neg hj⟩

theorem take_returns {k : Nat} (h : k ≤ n) :
    Returns (a.take k) (· = List.ofFn fun i : Fin k => a (i.castLE h)) := ⟨_, dif_pos h, rfl⟩

theorem moveDown_returns {start k : Nat} (h : start + k ≤ n) :
    Returns (a.moveDown start k) fun b =>
      ∀ j (hj : j < k), b ⟨j, by omega⟩ = a ⟨start + j, by omega⟩ :=
  ⟨_, dif_pos h, fun _ hj => dif_pos hj⟩

def Starts (l : List α) : Prop := ∃ _ : l.length ≤ n, ∀ j (hj : j < l.length), a ⟨j, by omega⟩ = l[j]

theorem starts_nil : a.Starts [] := ⟨Nat.zero_le n, fun _ hj => absurd hj (Nat.not_lt_zero _)⟩

variable {a} {l : List α}

theorem Starts.write (h : a.Starts l) (x : α) (hlt : l.length < n) :
    Returns (a.write l.length x) fun b => b.Starts (l ++ [x]) := by
  obtain ⟨hle, hl⟩ := h
  apply (write_returns a x hlt).mono
  rintro b ⟨hnew, hold⟩
  have hlen : (l ++ [x]).length = l.length + 1 := List.length_append
  refine ⟨by omega, ?_⟩
  intro j hj
  rcases Nat.lt_or_ge j l.length with hfront | hlast
  · have hne : (⟨j, by omega⟩ : Fin n) ≠ ⟨l.length, hlt⟩ := fun he => by simp at he; omega
    rw [hold _ hne, hl j hfront, List.getElem_append_left]
  · obtain rfl : j = l.length := by omega
    rw [hnew, List.getElem_concat_length rfl]

theorem Starts.take (h : a.Starts l) : a.take l.length = .ok l := by
  obtain ⟨hle, hl⟩ := h
  have heq : (List.ofFn fun i : Fin l.length => a (i.castLE hle)) = l := by
    apply List.ext_getElem (List.length_ofFn ..)
    intro j hj hj'
    rw [List.getElem_ofFn]
    exact hl j hj'
  rw [Buffer.take, dif_pos hle, heq]
  rfl

theorem Starts.moveDown (h : a.Starts l) {k : Nat} (hk : k ≤ l.length) :
    Returns (a.moveDown k (l.length - k)) fun b => b.Starts (l.drop k) := by
  obtain ⟨hle, hl⟩ := h
  apply (moveDown_returns a (by omega)).mono
  intro b hb
  have hlen : (l.drop k).length = l.length - k := List.length_drop
  refine ⟨by omega, ?_⟩
  intro j hj
  rw [hb j (by omega), hl (k + j) (by omega), List.getElem_drop]

end Buffer

end Checked
