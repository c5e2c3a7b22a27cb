import Birdtest.Stats.BradleyTerry.Derivatives
import Mathlib.Analysis.SpecialFunctions.Log.Deriv
import Mathlib.Analysis.SpecialFunctions.Sigmoid

namespace Birdtest.Stats.BradleyTerry

open Birdtest.Base Birdtest.Base.Ridge

section Logistic

theorem winProbability_eq (a b : ℝ) : winProbability a b = Real.sigmoid (a - b) := by
  rw [winProbability, Real.sigmoid_def, neg_sub, one_div]

theorem logSumExp_eq (d : ℝ) : logSumExp d 0 = Real.log (1 + Real.exp d) := by
  rw [logSumExp, sub_zero]
  obtain h | h := le_total 0 d
  · rw [max_eq_left h, abs_of_nonneg h, ← Real.log_exp d, ← Real.log_mul (Real.exp_ne_zero _)
      (by positivity), Real.log_exp, mul_add, mul_one, ← Real.exp_add, add_neg_cancel,
      Real.exp_zero, add_comm]
  · rw [max_eq_right h, abs_of_nonpos h, neg_neg, zero_add]

theorem hasDerivAt_logSumExp (d : ℝ) :
    HasDerivAt (fun d ↦ logSumExp d 0) (Real.sigmoid d) d := by
  simp only [logSumExp_eq]
  have hpos : 0 < 1 + Real.exp d := by positivity
  have hsigmoid : Real.sigmoid d = Real.exp d / (1 + Real.exp d) := by
    rw [Real.sigmoid_def, Real.exp_neg]
    field_simp
    exact add_comm _ _
  rw [hsigmoid]
  exact ((Real.hasDerivAt_exp d).const_add 1).log hpos.ne'

end Logistic

section Terms

variable {n : ℕ} (matrix : Matrix n ℝ) (anchor : ℕ) (theta : Fin n → ℝ)

def moved (x : Fin (free n anchor).length → ℝ) (i : Fin n) : ℝ :=
  match slot anchor i with
  | some a => theta i + x a
  | none => theta i

/-- What the objective sums: a head-to-head's term, or a config's virtual games'. -/
abbrev Term (matrix : Matrix n ℝ) : Type := Fin (played matrix).length ⊕ Fin n

namespace Term

noncomputable def value : Term matrix → ℝ → ℝ
  | .inl t, d => (played matrix)[t].score * d - (played matrix)[t].games * logSumExp d 0
  | .inr i, d => virtualGames matrix i * (d / 2 - logSumExp d 0)

noncomputable def rate : Term matrix → ℝ → ℝ
  | .inl t, d => (played matrix)[t].score - (played matrix)[t].games * Real.sigmoid d
  | .inr i, d => virtualGames matrix i * (1 / 2 - Real.sigmoid d)

noncomputable def bend : Term matrix → ℝ → ℝ
  | .inl t, d => -((played matrix)[t].games * Real.sigmoid d * (1 - Real.sigmoid d))
  | .inr i, d => -(virtualGames matrix i * Real.sigmoid d * (1 - Real.sigmoid d))

noncomputable def offset : Term matrix → ℝ
  | .inl t => theta (played matrix)[t].i - theta (played matrix)[t].j
  | .inr i => slope * (theta i - mean theta)

noncomputable def form : Term matrix → Fin (free n anchor).length → ℝ
  | .inl t => difference anchor (played matrix)[t]
  | .inr i => fun a ↦ slope * centred anchor i a

theorem hasDerivAt_value (t : Term matrix) (d : ℝ) :
    HasDerivAt (value matrix t) (rate matrix t d) d := by
  cases t with
  | inl t =>
    have hscore := (hasDerivAt_id d).const_mul (played matrix)[t].score
    rw [mul_one] at hscore
    exact hscore.sub ((hasDerivAt_logSumExp d).const_mul _)
  | inr i => exact (((hasDerivAt_id d).div_const 2).sub (hasDerivAt_logSumExp d)).const_mul _

theorem hasDerivAt_rate (t : Term matrix) (d : ℝ) :
    HasDerivAt (rate matrix t) (bend matrix t d) d := by
  cases t with
  | inl t =>
    refine (((Real.hasDerivAt_sigmoid d).const_mul _).const_sub _).congr_deriv ?_
    rw [bend, mul_assoc]
  | inr i =>
    refine (((Real.hasDerivAt_sigmoid d).const_sub _).const_mul _).congr_deriv ?_
    rw [bend, mul_neg, mul_assoc]

end Term

theorem moved_eq (x : Fin (free n anchor).length → ℝ) (i : Fin n) :
    moved anchor theta x i = theta i + dot (unit anchor i) x := by
  have hsum : dot (unit anchor i) x = ∑ a, if slot anchor i = some a then x a else 0 := by
    rw [dot_apply]
    refine Finset.sum_congr rfl fun a _ ↦ ?_
    rw [← ite_slot, ite_mul, one_mul, zero_mul]
  rw [hsum, moved]
  cases h : slot anchor i with
  | some a => simp
  | none => simp

theorem moved_zero : moved anchor theta 0 = theta := by
  funext i
  rw [moved_eq, map_zero, add_zero]

theorem offset_inl (x : Fin (free n anchor).length → ℝ) (c : Call n ℝ) :
    moved anchor theta x c.i - moved anchor theta x c.j =
      theta c.i - theta c.j + dot (difference anchor c) x := by
  have hdot : dot (difference anchor c) x = dot (unit anchor c.i) x - dot (unit anchor c.j) x := by
    simp only [dot_apply, difference, sub_mul, Finset.sum_sub_distrib]
  rw [moved_eq, moved_eq, hdot]
  ring

theorem mean_moved (x : Fin (free n anchor).length → ℝ) :
    mean (moved anchor theta x) = mean theta + 1 / n * ∑ a, x a := by
  have hunit (a : Fin (free n anchor).length) : ∑ i, unit anchor i a = 1 := by simp [unit]
  simp only [mean, moved_eq, Finset.sum_add_distrib, dot_apply]
  rw [Finset.sum_comm]
  simp only [← Finset.sum_mul, hunit, one_mul]
  ring

theorem offset_inr (x : Fin (free n anchor).length → ℝ) (i : Fin n) :
    slope * (moved anchor theta x i - mean (moved anchor theta x)) =
      slope * (theta i - mean theta) + dot (fun a ↦ slope * centred anchor i a) x := by
  have hdot : dot (fun a ↦ slope * centred anchor i a) x =
      slope * (dot (unit anchor i) x - 1 / n * ∑ a, x a) := by
    simp only [dot_apply, centred, mul_assoc, sub_mul, Finset.mul_sum, ← Finset.sum_sub_distrib]
  rw [moved_eq, mean_moved, hdot]
  ring

theorem objective_eq_sum (x : Fin (free n anchor).length → ℝ) :
    objective matrix (moved anchor theta x) = ∑ t, Term.value matrix t
      (Term.offset matrix theta t + dot (Term.form matrix anchor t) x) := by
  rw [Fintype.sum_sum_type]
  simp only [Term.value, Term.offset, Term.form, ← offset_inl, ← offset_inr]
  rw [objective, ← Fin.sum_univ_fun_getElem]
  rfl

theorem pulls_eq (theta : Fin n → ℝ) (i : Fin n) : pulls matrix theta i =
    slope * (virtualGames matrix i * (1 / 2 - Real.sigmoid (slope * (theta i - mean theta)))) := by
  rw [pulls, winProbability_eq, ← mul_sub, mul_assoc]

theorem weights_eq (theta : Fin n → ℝ) (i : Fin n) : weights matrix theta i =
    slope * slope * (virtualGames matrix i * Real.sigmoid (slope * (theta i - mean theta)) *
      (1 - Real.sigmoid (slope * (theta i - mean theta)))) := by
  rw [weights, winProbability_eq, ← mul_sub]
  ring

theorem gradient_eq_sum (x : Fin (free n anchor).length → ℝ) (a : Fin (free n anchor).length) :
    (derivatives matrix anchor (moved anchor theta x)).1 a = ∑ t, Term.rate matrix t
      (Term.offset matrix theta t + dot (Term.form matrix anchor t) x) *
        Term.form matrix anchor t a := by
  rw [Fintype.sum_sum_type, gradient_exact, ← Fin.sum_univ_fun_getElem]
  simp only [Term.rate, Term.offset, Term.form, ← offset_inl, ← offset_inr, pulls_eq, surplus,
    winProbability_eq]
  congr 1
  exact Finset.sum_congr rfl fun i _ ↦ by ring

theorem curvature_eq_sum (a b : Fin (free n anchor).length) :
    -(derivatives matrix anchor theta).2.get a b = ∑ t, Term.bend matrix t
      (Term.offset matrix theta t + dot (Term.form matrix anchor t) 0) *
        Term.form matrix anchor t a * Term.form matrix anchor t b := by
  rw [Fintype.sum_sum_type, curvature_exact, ← Fin.sum_univ_fun_getElem, neg_add,
    ← Finset.sum_neg_distrib, ← Finset.sum_neg_distrib]
  simp only [Term.bend, Term.offset, Term.form, map_zero, add_zero, weights_eq, information,
    winProbability_eq, Fin.getElem_fin]
  congr 1
  · exact Finset.sum_congr rfl fun t _ ↦ by ring
  · exact Finset.sum_congr rfl fun i _ ↦ by ring

theorem hasFDerivAt_objective :
    HasFDerivAt (fun x ↦ objective matrix (moved anchor theta x))
      (dot (derivatives matrix anchor theta).1) 0 := by
  have hgradient : (derivatives matrix anchor theta).1 = fun a ↦ ∑ t, Term.rate matrix t
      (Term.offset matrix theta t + dot (Term.form matrix anchor t) 0) *
        Term.form matrix anchor t a := by
    funext a
    rw [← gradient_eq_sum, moved_zero]
  simp only [objective_eq_sum, hgradient]
  exact hasFDerivAt_sum (Term.hasDerivAt_value matrix)

theorem hasFDerivAt_gradient (a : Fin (free n anchor).length) :
    HasFDerivAt (fun x ↦ (derivatives matrix anchor (moved anchor theta x)).1 a)
      (dot fun b ↦ -(derivatives matrix anchor theta).2.get a b) 0 := by
  simp only [gradient_eq_sum, curvature_eq_sum]
  exact Ridge.hasFDerivAt_gradient (Term.hasDerivAt_rate matrix) a

theorem symmetric_curvature : (derivatives matrix anchor theta).2.Symmetric := by
  intro a b
  rw [← neg_inj, curvature_eq_sum, curvature_eq_sum]
  exact Finset.sum_congr rfl fun t _ ↦ by ring

end Terms

section Positive

variable {n : ℕ} (matrix : Matrix n ℝ) (theta : Fin n → ℝ)

theorem games_pos {c : Call n ℝ} (h : c ∈ played matrix) : 0 < c.games := by
  obtain ⟨i, -, hi⟩ := List.mem_flatMap.1 h
  obtain ⟨j, -, hj⟩ := List.mem_filterMap.1 hi
  dsimp only at hj
  split at hj
  · next hpos =>
    cases hj
    exact hpos
  · cases hj

theorem virtualGames_pos (i : Fin n) : 0 < virtualGames matrix i :=
  lt_max_of_lt_right (by norm_num [priorFloorGames])

theorem weights_pos (i : Fin n) : 0 < weights matrix theta i := by
  have hp := Real.sigmoid_pos (slope * (theta i - mean theta))
  have hq := sub_pos.2 (Real.sigmoid_lt_one (slope * (theta i - mean theta)))
  have hslope : 0 < slope := by norm_num [slope, priorScale]
  have hvirtual := virtualGames_pos matrix i
  rw [weights_eq]
  positivity

theorem information_nonneg {c : Call n ℝ} (h : c ∈ played matrix) : 0 ≤ information theta c := by
  have hgames := games_pos matrix h
  have hp := Real.sigmoid_pos (theta c.i - theta c.j)
  have hq := sub_pos.2 (Real.sigmoid_lt_one (theta c.i - theta c.j))
  rw [information, winProbability_eq]
  positivity

/-- The virtual games alone reach every direction: strengths that are all at their mean are all at
the anchor's, whoever has played whom. -/
theorem eq_zero_of_centred {anchor : Fin n} {x : Fin (free n anchor).length → ℝ}
    (h : ∀ i, dot (centred (anchor : ℕ) i) x = 0) : x = 0 := by
  have hdot (i : Fin n) : dot (centred (anchor : ℕ) i) x =
      dot (unit (anchor : ℕ) i) x - 1 / n * ∑ a, x a := by
    simp only [dot_apply, centred, sub_mul, Finset.mul_sum, ← Finset.sum_sub_distrib]
  have hanchor : dot (unit (anchor : ℕ) anchor) x = 0 := by
    rw [dot_apply]
    refine Finset.sum_eq_zero fun a _ ↦ ?_
    have hne : (free n anchor).get a ≠ anchor := by
      have hmem := (List.mem_filter.1 ((free n anchor).get_mem a)).2
      exact fun heq ↦ of_decide_eq_true hmem (congrArg Fin.val heq)
    rw [unit, if_neg hne, zero_mul]
  have hmean : 1 / n * ∑ a, x a = 0 := by
    have := h anchor
    rwa [hdot, hanchor, zero_sub, neg_eq_zero] at this
  funext b
  have hb := h ((free n anchor).get b)
  rw [hdot, hmean, sub_zero, dot_apply, Finset.sum_eq_single_of_mem b (Finset.mem_univ b), unit,
    if_pos rfl, one_mul] at hb
  · exact hb
  · intro a _ hab
    rw [unit, if_neg fun heq ↦ hab (get_free_inj.1 heq), zero_mul]

theorem positiveDefinite_curvature (anchor : Fin n) :
    (derivatives matrix anchor theta).2.PositiveDefinite := by
  have hcurvature (a b : Fin (free n anchor).length) :
      (derivatives matrix anchor theta).2.get a b = ∑ t : Term matrix,
        Sum.elim (fun t ↦ information theta (played matrix)[t]) (weights matrix theta) t *
          Sum.elim (fun t ↦ difference anchor (played matrix)[t]) (centred anchor) t a *
          Sum.elim (fun t ↦ difference anchor (played matrix)[t]) (centred anchor) t b := by
    rw [curvature_exact, Fintype.sum_sum_type, ← Fin.sum_univ_fun_getElem]
    rfl
  refine positiveDefinite hcurvature ?_ ?_
  · rintro (t | i)
    · exact information_nonneg matrix theta ((played matrix).get_mem t)
    · exact (weights_pos matrix theta i).le
  · exact fun x h ↦ eq_zero_of_centred fun i ↦ h (.inr i) (weights_pos matrix theta i)

end Positive

section Step

variable {m : ℕ}

def damp (curvature : Square m ℝ) (damping : ℝ) : Square m ℝ :=
  (List.finRange m).foldl (fun damped k ↦ damped.set k k (damped.get k k + damping)) curvature

noncomputable def dampedStep (curvature : Square m ℝ) (gradient : Fin m → ℝ) (scale : ℝ) :
    ℕ → ℝ → Except Stop (Fin m → ℝ)
  | 0, _ => .error .refused
  | tries + 1, damping =>
    match cholesky (damp curvature damping) with
    | .ok factor => choleskySolve factor gradient
    | .error .refused =>
      dampedStep curvature gradient scale tries
        (if damping = 0 then scale * 1e-12 else damping * 10)
    | .error .divisionByZero => .error .divisionByZero

noncomputable def dampedNewtonStep (curvature : Square m ℝ) (gradient : Fin m → ℝ) :
    Except Stop (Fin m → ℝ) :=
  let scale := (List.finRange m).foldl (fun scale k ↦ max scale |curvature.get k k|) 1e-12
  dampedStep curvature gradient scale 40 0

variable {curvature : Square m ℝ}

theorem damp_zero : damp curvature 0 = curvature := by
  have hfold (l : List (Fin m)) :
      l.foldl (fun damped k ↦ damped.set k k (damped.get k k + 0)) curvature = curvature := by
    induction l with
    | nil => rfl
    | cons k l ih => rw [List.foldl_cons, add_zero, Square.set_get, ih]
  exact hfold _

theorem exists_step (hsymmetric : curvature.Symmetric) (hpositive : curvature.PositiveDefinite)
    (gradient : Fin m → ℝ) : ∃ factor step, cholesky curvature = .ok factor ∧
      choleskySolve factor gradient = .ok step ∧
      dampedNewtonStep curvature gradient = .ok step ∧
      ∀ a, ∑ b, curvature.get a b * step b = gradient a := by
  obtain ⟨factor, hfactor, hlower, hgram⟩ := (ends_cholesky hsymmetric).mono
    (fun _ ↦ id) (fun e he ↦ he.2 hpositive) |>.exists_ok
  obtain ⟨step, hstep, hsolve⟩ := hlower.exists_solution hgram gradient
  refine ⟨factor, step, hfactor, hstep, ?_, hsolve⟩
  rw [dampedNewtonStep, dampedStep, damp_zero, hfactor]
  exact hstep

/-- What solves a positive definite matrix is on the side of what it solves it for. -/
theorem ascends (hpositive : curvature.PositiveDefinite) {gradient step : Fin m → ℝ}
    (h : ∀ a, ∑ b, curvature.get a b * step b = gradient a) (hne : gradient ≠ 0) :
    0 < ∑ a, gradient a * step a := by
  have hstep : step ≠ 0 := by
    rintro rfl
    refine hne (funext fun a ↦ ?_)
    rw [← h a]
    simp
  have hform : curvature.form step = ∑ a, gradient a * step a := by
    rw [Square.form_eq_sum_mul]
    exact Finset.sum_congr rfl fun a _ ↦ by rw [h a, mul_comm]
  exact hform ▸ hpositive step hstep

end Step

/-- Of every matrix, anchor and strengths: the fit's derivatives are the gradient and the negated
Hessian of its objective over the free strengths, the Hessian is definite, and a Newton step needs
no damping and goes up. -/
theorem derivatives_exact {n : ℕ} (calls : List (Call n ℝ)) (anchor : Fin n) (theta : Fin n → ℝ) :
    let matrix := Matrix.addAll calls
    let gradient := (derivatives matrix anchor theta).1
    let curvature := (derivatives matrix anchor theta).2
    HasFDerivAt (fun x ↦ objective matrix (moved anchor theta x)) (dot gradient) 0 ∧
    (∀ a, HasFDerivAt (fun x ↦ (derivatives matrix anchor (moved anchor theta x)).1 a)
      (dot fun b ↦ -curvature.get a b) 0) ∧
    (∀ a b, curvature.get a b =
      ((played matrix).map fun c ↦ c.games * winProbability (theta c.i) (theta c.j) *
        (1 - winProbability (theta c.i) (theta c.j)) * (unit anchor c.i a - unit anchor c.j a) *
          (unit anchor c.i b - unit anchor c.j b)).sum +
      ∑ i, weights matrix theta i * (unit anchor i a - 1 / n) * (unit anchor i b - 1 / n)) ∧
    curvature.Symmetric ∧ curvature.PositiveDefinite ∧
    ∃ factor step, cholesky curvature = .ok factor ∧ choleskySolve factor gradient = .ok step ∧
      dampedNewtonStep curvature gradient = .ok step ∧
      (∀ a, ∑ b, curvature.get a b * step b = gradient a) ∧
      (gradient ≠ 0 → 0 < ∑ a, gradient a * step a) := by
  have hsymmetric := symmetric_curvature (Matrix.addAll calls) anchor theta
  have hpositive := positiveDefinite_curvature (Matrix.addAll calls) theta anchor
  obtain ⟨factor, step, hfactor, hsolve, hstep, hexact⟩ := exists_step hsymmetric hpositive
    (derivatives (Matrix.addAll calls) anchor theta).1
  exact ⟨hasFDerivAt_objective _ _ _, hasFDerivAt_gradient _ _ _, fun a b ↦ curvature_exact _ _,
    hsymmetric, hpositive, factor, step, hfactor, hsolve, hstep, hexact, ascends hpositive hexact⟩

end Birdtest.Stats.BradleyTerry
