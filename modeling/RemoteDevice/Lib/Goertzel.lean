import Mathlib.Algebra.Order.Chebyshev
import Mathlib.Analysis.SpecialFunctions.Complex.Circle
import Mathlib.Data.List.GetD

/-! The recurrence of Goertzel: two terms, updated with each sample, hold the strength of one
frequency. In a ring the strength is the product of the values of one polynomial at `z` and at its
inverse; in the complex numbers that is the power of the Fourier transform at this frequency. -/

namespace Goertzel
open Complex

section Ring

variable {R S : Type*} [CommRing R] [CommRing S] {z w : R}

def next (c : R) (s : R × R) (x : R) : R × R := (x + c * s.1 - s.2, s.1)

def terms (c : R) (xs : List R) : R × R := xs.foldl (next c) (0, 0)

def power (c : R) (s : R × R) : R := s.2 * s.2 + s.1 * s.1 - c * s.1 * s.2

def horner (z : R) (xs : List R) : R := xs.foldl (fun y x => x + z * y) 0

theorem terms_concat (c : R) (xs : List R) (x : R) : terms c (xs ++ [x]) = next c (terms c xs) x := by
  rw [terms, List.foldl_append]
  rfl

theorem horner_concat (z : R) (xs : List R) (x : R) : horner z (xs ++ [x]) = x + z * horner z xs := by
  rw [horner, List.foldl_append]
  rfl

theorem terms_map (f : R →+* S) (c : R) (xs : List R) :
    terms (f c) (xs.map f) = (f (terms c xs).1, f (terms c xs).2) := by
  induction xs using List.reverseRecOn with
  | nil => exact Prod.ext f.map_zero.symm f.map_zero.symm
  | append_singleton xs x ih =>
    rw [List.map_append, List.map_singleton, terms_concat, terms_concat, ih]
    exact Prod.ext (by simp [next]) rfl

theorem horner_map (f : R →+* S) (z : R) (xs : List R) : horner (f z) (xs.map f) = f (horner z xs) := by
  induction xs using List.reverseRecOn with
  | nil => exact f.map_zero.symm
  | append_singleton xs x ih =>
    rw [List.map_append, List.map_singleton, horner_concat, horner_concat, ih, f.map_add, f.map_mul]

theorem terms_horner (h : z * w = 1) (xs : List R) :
    (terms (z + w) xs).1 - w * (terms (z + w) xs).2 = horner z xs := by
  induction xs using List.reverseRecOn with
  | nil =>
    show (0 : R) - w * 0 = 0
    ring
  | append_singleton xs x ih =>
    rw [terms_concat, horner_concat, ← ih]
    simp only [next]
    linear_combination (terms (z + w) xs).2 * h

theorem power_eq (h : z * w = 1) (xs : List R) :
    power (z + w) (terms (z + w) xs) = horner z xs * horner w xs := by
  have h' : w * z = 1 := by rwa [mul_comm]
  have hw : (terms (z + w) xs).1 - z * (terms (z + w) xs).2 = horner w xs := by
    rw [add_comm z w]
    exact terms_horner h' xs
  rw [← terms_horner h xs, ← hw, power]
  linear_combination (-(terms (z + w) xs).2 * (terms (z + w) xs).2) * h

end Ring

/-! ## The power of a frequency -/

noncomputable def transform (ω : ℝ) (xs : List ℝ) : ℂ :=
  ∑ k ∈ Finset.range xs.length, (xs.getD k 0 : ℂ) * exp (-(k * ω : ℝ) * I)

variable {ω : ℝ} {xs : List ℝ}

theorem transform_concat (ω : ℝ) (xs : List ℝ) (x : ℝ) :
    transform ω (xs ++ [x]) = transform ω xs + x * exp (-(xs.length * ω : ℝ) * I) := by
  rw [transform, transform, List.length_append, List.length_singleton, Finset.sum_range_succ]
  congr 1
  · apply Finset.sum_congr rfl
    intro k hk
    rw [List.getD_append _ _ _ _ (Finset.mem_range.mp hk)]
  · rw [List.getD_append_right _ _ _ _ le_rfl, Nat.sub_self]
    rfl

theorem horner_exp (ω : ℝ) (xs : List ℝ) :
    exp (ω * I) * horner (exp (ω * I)) (xs.map ofReal) =
      exp ((xs.length * ω : ℝ) * I) * transform ω xs := by
  induction xs using List.reverseRecOn with
  | nil => simp [horner, transform]
  | append_singleton xs x ih =>
    have hturn : exp ((xs.length * ω : ℝ) * I) * exp (-(xs.length * ω : ℝ) * I) = 1 := by
      rw [← exp_add, neg_mul, add_neg_cancel, exp_zero]
    have hnext : exp (((xs ++ [x]).length * ω : ℝ) * I) =
        exp (ω * I) * exp ((xs.length * ω : ℝ) * I) := by
      rw [← exp_add, List.length_append, List.length_singleton]
      congr 1
      push_cast
      ring
    rw [List.map_append, List.map_singleton, horner_concat, mul_add, ih, transform_concat, hnext]
    linear_combination (-exp (ω * I) * x) * hturn

theorem normSq_horner (ω : ℝ) (xs : List ℝ) :
    normSq (horner (exp (ω * I)) (xs.map ofReal)) = normSq (transform ω xs) := by
  have hunit (t : ℝ) : normSq (exp (t * I)) = 1 := by
    rw [normSq_eq_norm_sq, norm_exp_ofReal_mul_I, one_pow]
  have h := congrArg normSq (horner_exp ω xs)
  rwa [normSq_mul, normSq_mul, hunit, hunit, one_mul, one_mul] at h

theorem power_eq_normSq (ω : ℝ) (xs : List ℝ) :
    power (2 * Real.cos ω) (terms (2 * Real.cos ω) xs) = normSq (transform ω xs) := by
  have hinv : exp (ω * I) * exp (-ω * I) = 1 := by
    rw [← exp_add, neg_mul, add_neg_cancel, exp_zero]
  have hcos : exp (ω * I) + exp (-ω * I) = ((2 * Real.cos ω : ℝ) : ℂ) := by
    rw [ofReal_mul, ofReal_cos, ofReal_ofNat, two_cos]
  have hconj : exp (-ω * I) = (starRingEnd ℂ) (exp (ω * I)) := by
    rw [← exp_conj, map_mul, conj_ofReal, conj_I, mul_neg, neg_mul]
  have hmap : (xs.map ofReal).map (starRingEnd ℂ) = xs.map ofReal := by
    rw [List.map_map]
    exact List.map_congr_left fun x _ => conj_ofReal x
  have hterms := terms_map ofRealHom (2 * Real.cos ω) xs
  have hpower := power_eq hinv (xs.map ofReal)
  rw [hcos] at hpower
  have hother : horner (exp (-ω * I)) (xs.map ofReal) =
      (starRingEnd ℂ) (horner (exp (ω * I)) (xs.map ofReal)) := by
    rw [← horner_map, hmap, hconj]
  rw [hother, mul_conj, normSq_horner] at hpower
  apply ofReal_injective
  rw [← hpower]
  have hleft : terms ((2 * Real.cos ω : ℝ) : ℂ) (xs.map ofReal) = _ := hterms
  rw [hleft]
  simp only [power]
  push_cast
  rfl

/-! ## How large it can be -/

def energy (xs : List ℝ) : ℝ := (xs.map fun x => x * x).sum

theorem energy_eq_sum (xs : List ℝ) : energy xs = ∑ k ∈ Finset.range xs.length, xs.getD k 0 ^ 2 := by
  induction xs using List.reverseRecOn with
  | nil => rfl
  | append_singleton xs x ih =>
    rw [energy, List.map_append, List.sum_append, List.length_append, List.length_singleton,
      Finset.sum_range_succ, List.getD_append_right _ _ _ _ le_rfl, Nat.sub_self]
    rw [energy] at ih
    rw [ih]
    congr 1
    · apply Finset.sum_congr rfl
      intro k hk
      rw [List.getD_append _ _ _ _ (Finset.mem_range.mp hk)]
    · simp [sq]

theorem energy_nonneg (xs : List ℝ) : 0 ≤ energy xs := by
  rw [energy_eq_sum]
  exact Finset.sum_nonneg fun k _ => sq_nonneg _

theorem normSq_transform_le (ω : ℝ) (xs : List ℝ) :
    normSq (transform ω xs) ≤ xs.length * energy xs := by
  have hnorm : ‖transform ω xs‖ ≤ ∑ k ∈ Finset.range xs.length, |xs.getD k 0| := by
    apply (norm_sum_le _ _).trans
    apply Finset.sum_le_sum
    intro k _
    have hturn : ‖exp (-(k * ω : ℝ) * I)‖ = 1 := by
      rw [← ofReal_neg, norm_exp_ofReal_mul_I]
    rw [norm_mul, hturn, mul_one, norm_real, Real.norm_eq_abs]
  calc normSq (transform ω xs) = ‖transform ω xs‖ ^ 2 := normSq_eq_norm_sq _
    _ ≤ (∑ k ∈ Finset.range xs.length, |xs.getD k 0|) ^ 2 :=
        pow_le_pow_left₀ (norm_nonneg _) hnorm 2
    _ ≤ (Finset.range xs.length).card * ∑ k ∈ Finset.range xs.length, |xs.getD k 0| ^ 2 :=
        sq_sum_le_card_mul_sum_sq
    _ = xs.length * energy xs := by simp only [Finset.card_range, sq_abs, energy_eq_sum]

theorem transform_smul (a ω : ℝ) (xs : List ℝ) :
    transform ω (xs.map (a * ·)) = a * transform ω xs := by
  induction xs using List.reverseRecOn with
  | nil => simp [transform]
  | append_singleton xs x ih =>
    rw [List.map_append, List.map_singleton, transform_concat, transform_concat, ih, List.length_map]
    push_cast
    ring

theorem energy_smul (a : ℝ) (xs : List ℝ) : energy (xs.map (a * ·)) = a ^ 2 * energy xs := by
  rw [energy, energy, List.map_map, ← List.sum_map_mul_left]
  congr 1
  apply List.map_congr_left
  intro x _
  show a * x * (a * x) = a ^ 2 * (x * x)
  ring

end Goertzel
