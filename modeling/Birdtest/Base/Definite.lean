import Birdtest.Base.Square
import Mathlib.Algebra.BigOperators.Fin
import Mathlib.Algebra.Order.BigOperators.Ring.Finset
import Mathlib.Data.Real.Basic
import Mathlib.Tactic.Ring

namespace Birdtest.Base.Square

variable {n : ℕ} (s : Square n ℝ)

def Symmetric : Prop := ∀ i j, s.get i j = s.get j i

def form (x : Fin n → ℝ) : ℝ := ∑ i, ∑ j, x i * s.get i j * x j

def PositiveDefinite : Prop := ∀ x ≠ 0, 0 < s.form x

def IsGram (l s : Square n ℝ) : Prop := ∀ i j, ∑ k, l.get i k * l.get j k = s.get i j

variable {s}

theorem sum_squares {ι : Type} [Fintype ι] (c : ι → ℝ) (u : ι → Fin n → ℝ) (x : Fin n → ℝ) :
    ∑ i, ∑ j, x i * (∑ t, c t * u t i * u t j) * x j = ∑ t, c t * (∑ i, u t i * x i) ^ 2 := by
  have hterm (i j : Fin n) : x i * (∑ t, c t * u t i * u t j) * x j =
      ∑ t, c t * ((u t i * x i) * (u t j * x j)) := by
    rw [Finset.mul_sum, Finset.sum_mul]
    exact Finset.sum_congr rfl fun t _ ↦ by ring
  have hsquare (t : ι) : c t * (∑ i, u t i * x i) ^ 2 =
      ∑ i, ∑ j, c t * ((u t i * x i) * (u t j * x j)) := by
    rw [sq, Finset.sum_mul_sum, Finset.mul_sum]
    exact Finset.sum_congr rfl fun i _ ↦ Finset.mul_sum _ _ _
  simp only [hterm, hsquare]
  calc ∑ i, ∑ j, ∑ t, c t * ((u t i * x i) * (u t j * x j))
      = ∑ i, ∑ t, ∑ j, c t * ((u t i * x i) * (u t j * x j)) :=
        Finset.sum_congr rfl fun i _ ↦ Finset.sum_comm
    _ = ∑ t, ∑ i, ∑ j, c t * ((u t i * x i) * (u t j * x j)) := Finset.sum_comm

theorem sum_gram (l : Square n ℝ) (x : Fin n → ℝ) :
    ∑ i, ∑ j, x i * (∑ k, l.get i k * l.get j k) * x j = ∑ k, (∑ i, l.get i k * x i) ^ 2 := by
  simpa only [one_mul] using sum_squares (fun _ ↦ 1) (fun k i ↦ l.get i k) x

theorem form_eq_sum_mul (x : Fin n → ℝ) : s.form x = ∑ i, x i * ∑ j, s.get i j * x j := by
  refine Finset.sum_congr rfl fun i _ ↦ ?_
  rw [Finset.mul_sum]
  exact Finset.sum_congr rfl fun j _ ↦ mul_assoc _ _ _

theorem IsGram.mul {l : Square n ℝ} (h : l.IsGram s) (x : Fin n → ℝ) (i : Fin n) :
    ∑ j, s.get i j * x j = ∑ k, l.get i k * ∑ j, l.get j k * x j := by
  calc ∑ j, s.get i j * x j
      = ∑ j, ∑ k, l.get i k * (l.get j k * x j) :=
        Finset.sum_congr rfl fun j _ ↦ by
          rw [← h i j, Finset.sum_mul]
          exact Finset.sum_congr rfl fun k _ ↦ mul_assoc _ _ _
    _ = ∑ k, ∑ j, l.get i k * (l.get j k * x j) := Finset.sum_comm
    _ = ∑ k, l.get i k * ∑ j, l.get j k * x j :=
        Finset.sum_congr rfl fun k _ ↦ (Finset.mul_sum _ _ _).symm

theorem IsGram.form_eq {l : Square n ℝ} (h : l.IsGram s) (x : Fin n → ℝ) :
    s.form x = ∑ k, (∑ i, l.get i k * x i) ^ 2 := by
  rw [← sum_gram, form]
  refine Finset.sum_congr rfl fun i _ ↦ Finset.sum_congr rfl fun j _ ↦ ?_
  rw [h i j]

/-- A product with the transpose is above 0 where no combination of the rows of the factor is. -/
theorem IsGram.positiveDefinite {l : Square n ℝ} (h : l.IsGram s)
    (hl : ∀ x : Fin n → ℝ, (∀ k, ∑ i, l.get i k * x i = 0) → x = 0) : s.PositiveDefinite := by
  intro x hx
  rw [h.form_eq]
  refine lt_of_le_of_ne (Finset.sum_nonneg fun k _ ↦ sq_nonneg _) fun hzero ↦ hx (hl x fun k ↦ ?_)
  have hk := (Finset.sum_eq_zero_iff_of_nonneg fun k _ ↦ sq_nonneg _).1 hzero.symm k
    (Finset.mem_univ k)
  exact sq_eq_zero_iff.1 hk

theorem PositiveDefinite.eq_of_mul_eq (h : s.PositiveDefinite) {x y : Fin n → ℝ}
    (hxy : ∀ i, ∑ j, s.get i j * x j = ∑ j, s.get i j * y j) : x = y := by
  by_contra hne
  have hpos := h (x - y) (sub_ne_zero.2 hne)
  rw [form_eq_sum_mul] at hpos
  refine hpos.ne' (Finset.sum_eq_zero fun i _ ↦ ?_)
  simp only [Pi.sub_apply, mul_sub, Finset.sum_sub_distrib, hxy i, sub_self, mul_zero]

end Birdtest.Base.Square
