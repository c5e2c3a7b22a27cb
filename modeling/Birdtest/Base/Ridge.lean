import Mathlib.Algebra.Module.Defs
import Birdtest.Base.Definite
import Mathlib.Analysis.Calculus.Deriv.Comp
import Mathlib.Analysis.Calculus.Deriv.Mul
import Mathlib.Analysis.Calculus.FDeriv.Add
import Mathlib.Analysis.Calculus.FDeriv.Linear
import Mathlib.GroupTheory.GroupAction.Ring
import Mathlib.Topology.Algebra.Module.ModuleTopology

namespace Birdtest.Base.Ridge

variable {m : ℕ} {ι : Type} [Fintype ι]

def dot (g : Fin m → ℝ) : (Fin m → ℝ) →L[ℝ] ℝ := ∑ a, g a • ContinuousLinearMap.proj a

@[simp] theorem dot_apply (g x : Fin m → ℝ) : dot g x = ∑ a, g a * x a := by
  simp [dot]

theorem dot_sum (c : ι → ℝ) (g : ι → Fin m → ℝ) :
    ∑ t, c t • dot (g t) = dot fun a ↦ ∑ t, c t * g t a := by
  ext x
  simp only [sum_apply, smul_apply, dot_apply, smul_eq_mul, Finset.mul_sum, Finset.sum_mul]
  rw [Finset.sum_comm]
  exact Finset.sum_congr rfl fun a _ ↦ Finset.sum_congr rfl fun t _ ↦ (mul_assoc _ _ _).symm

variable {f : ι → ℝ → ℝ} {f' f'' : ι → ℝ → ℝ} {offset : ι → ℝ} {form : ι → Fin m → ℝ}
  {x : Fin m → ℝ}

theorem hasFDerivAt_sum (hf : ∀ t y, HasDerivAt (f t) (f' t y) y) :
    HasFDerivAt (fun x ↦ ∑ t, f t (offset t + dot (form t) x))
      (dot fun a ↦ ∑ t, f' t (offset t + dot (form t) x) * form t a) x := by
  rw [← dot_sum]
  refine HasFDerivAt.fun_sum fun t _ ↦ ?_
  exact (hf t _).comp_hasFDerivAt x ((dot (form t)).hasFDerivAt.const_add _)

theorem hasFDerivAt_gradient (hf : ∀ t y, HasDerivAt (f' t) (f'' t y) y) (a : Fin m) :
    HasFDerivAt (fun x ↦ ∑ t, f' t (offset t + dot (form t) x) * form t a)
      (dot fun b ↦ ∑ t, f'' t (offset t + dot (form t) x) * form t a * form t b) x := by
  have hmul : ∀ t y, HasDerivAt (fun y ↦ f' t y * form t a) (f'' t y * form t a) y :=
    fun t y ↦ (hf t y).mul_const _
  exact hasFDerivAt_sum hmul

/-- `∑ t, c t * form t * form tᵀ` is positive definite where the forms of positive weight have
nothing but 0 in common. -/
theorem positiveDefinite {s : Square m ℝ} {c : ι → ℝ}
    (hs : ∀ a b, s.get a b = ∑ t, c t * form t a * form t b) (hc : ∀ t, 0 ≤ c t)
    (hzero : ∀ x, (∀ t, 0 < c t → dot (form t) x = 0) → x = 0) : s.PositiveDefinite := by
  intro x hx
  have hform : s.form x = ∑ t, c t * dot (form t) x ^ 2 := by
    simp only [Square.form, hs, Square.sum_squares, dot_apply]
  have hnonneg (t : ι) : 0 ≤ c t * dot (form t) x ^ 2 := mul_nonneg (hc t) (sq_nonneg _)
  rw [hform]
  refine lt_of_le_of_ne (Finset.sum_nonneg fun t _ ↦ hnonneg t) fun heq ↦ hx (hzero x fun t ht ↦ ?_)
  have hterm := (Finset.sum_eq_zero_iff_of_nonneg fun t _ ↦ hnonneg t).1 heq.symm t
    (Finset.mem_univ t)
  exact pow_eq_zero_iff two_ne_zero |>.1 ((mul_eq_zero.1 hterm).resolve_left ht.ne')

end Birdtest.Base.Ridge
