import Mathlib.Algebra.BigOperators.Group.List.Basic
import Mathlib.Algebra.Ring.Nat
import Mathlib.Data.List.Basic

/-! Windows of a list: one at every hop, as long as there is something left. -/

namespace Windows

variable {α : Type*}

def rounds (hop n : Nat) : Nat := (n + hop - 1) / hop

def hops (hop n : Nat) : List Nat := (List.range (rounds hop n)).map fun i => min hop (n - i * hop)

def windows (window hop : Nat) (l : List α) : List (List α) :=
  (List.range (rounds hop l.length)).map fun i => (l.drop (i * hop)).take window

variable {hop n : Nat}

theorem rounds_zero (hhop : 0 < hop) : rounds hop 0 = 0 := by
  rw [rounds, Nat.zero_add]
  exact Nat.div_eq_of_lt (Nat.sub_one_lt_of_lt hhop)

theorem rounds_step (hhop : 0 < hop) (hn : 0 < n) : rounds hop n = rounds hop (n - hop) + 1 := by
  rw [rounds, rounds]
  rcases Nat.le_total n hop with hle | hge
  · have hlast : n - hop + hop - 1 = hop - 1 := by omega
    have hone : n + hop - 1 = hop + (n - 1) := by omega
    rw [hlast, hone, Nat.add_div_left _ hhop, Nat.div_eq_of_lt (by omega),
      Nat.div_eq_of_lt (by omega)]
  · have hmore : n + hop - 1 = n - hop + hop - 1 + hop := by omega
    rw [hmore, Nat.add_div_right _ hhop]

theorem mul_lt_of_lt_rounds {i : Nat} (h : i < rounds hop n) : i * hop < n := by
  have hmul : (i + 1) * hop ≤ n + hop - 1 :=
    Nat.le_trans (Nat.mul_le_mul_right hop h) (Nat.div_mul_le_self _ _)
  rw [Nat.succ_mul] at hmul
  rcases Nat.eq_zero_or_pos hop with rfl | hpos
  · rw [rounds, Nat.div_zero] at h
    exact absurd h (Nat.not_lt_zero i)
  · omega

theorem hops_zero (hhop : 0 < hop) : hops hop 0 = [] := by
  rw [hops, rounds_zero hhop]
  rfl

theorem hops_step (hhop : 0 < hop) (hn : 0 < n) : hops hop n = min hop n :: hops hop (n - hop) := by
  rw [hops, hops, rounds_step hhop hn, List.range_succ_eq_map, List.map_cons, List.map_map,
    Nat.zero_mul, Nat.sub_zero]
  congr 1
  apply List.map_congr_left
  intro i _
  simp only [Function.comp_apply, Nat.succ_mul]
  omega

theorem windows_nil (window : Nat) (hhop : 0 < hop) : windows window hop ([] : List α) = [] := by
  rw [windows, List.length_nil, rounds_zero hhop]
  rfl

theorem windows_step (window : Nat) (hhop : 0 < hop) {l : List α} (hl : l ≠ []) :
    windows window hop l = l.take window :: windows window hop (l.drop hop) := by
  rw [windows, windows, List.length_drop, rounds_step hhop (List.length_pos_of_ne_nil hl),
    List.range_succ_eq_map, List.map_cons, List.map_map, Nat.zero_mul, List.drop_zero]
  congr 1
  apply List.map_congr_left
  intro i _
  simp only [Function.comp_apply, Nat.succ_mul, List.drop_drop, Nat.add_comm]

theorem sum_hops (hhop : 0 < hop) (f : Nat → Nat) (hf : f 0 = 0) (n : Nat) :
    ((hops hop n).map f).sum = n / hop * f hop + f (n % hop) := by
  induction n using Nat.strongRecOn with
  | ind n ih =>
    rcases Nat.eq_zero_or_pos n with rfl | hn
    · rw [hops_zero hhop, Nat.zero_div, Nat.zero_mod, hf, Nat.zero_mul]
      rfl
    rw [hops_step hhop hn, List.map_cons, List.sum_cons, ih (n - hop) (by omega)]
    rcases Nat.lt_or_ge n hop with hlt | hge
    · have hzero : n - hop = 0 := by omega
      rw [hzero, Nat.zero_div, Nat.zero_mod, hf, Nat.div_eq_of_lt hlt, Nat.mod_eq_of_lt hlt,
        Nat.min_eq_right (Nat.le_of_lt hlt)]
      omega
    · have hdiv : n / hop = (n - hop) / hop + 1 := by
        rw [← Nat.add_div_right _ hhop, Nat.sub_add_cancel hge]
      rw [Nat.min_eq_left hge, hdiv, Nat.succ_mul, ← Nat.mod_eq_sub_mod hge]
      omega

end Windows
