import Birdtest.Stats.Outcomes

namespace Birdtest.Stats

open Exact

inductive Counts
  | games (tally : Tally)
  | pairs (pentanomial : Pentanomial)

namespace Counts

def units : Counts → ℕ
  | games tally => tally.total
  | pairs pentanomial => pentanomial.pairs

def sample {F : Type} [Double F] : Counts → Sample F
  | games tally => Sample.fromGames tally
  | pairs pentanomial => Sample.fromPentanomial pentanomial

def swapped : Counts → Counts
  | games tally => games tally.swapped
  | pairs pentanomial => pairs pentanomial.swapped

variable {counts : Counts}

@[simp] theorem units_swapped : counts.swapped.units = counts.units := by
  cases counts with
  | games tally => exact tally.total_swapped
  | pairs pentanomial => exact pentanomial.pairs_swapped

theorem sample_exact (h : counts.units ≠ 0) : ∃ mean variance : ℝ, 0 ≤ mean ∧ mean ≤ 1 ∧
    counts.sample = ⟨counts.units, (mean : Exact), variance⟩ ∧
    counts.swapped.sample = ⟨counts.units, ((1 - mean : ℝ) : Exact), variance⟩ := by
  cases counts with
  | games tally =>
    have hswap : tally.swapped.total ≠ 0 := by rwa [tally.total_swapped]
    refine ⟨tally.mean, tally.variance, Tally.mean_nonneg, Tally.mean_le_one h,
      Tally.fromGames_exact h, ?_⟩
    rw [← Tally.mean_swapped h, ← Tally.variance_swapped h]
    exact (Tally.fromGames_exact hswap).trans (by rw [tally.total_swapped]; rfl)
  | pairs pentanomial =>
    have hswap : pentanomial.swapped.pairs ≠ 0 := by rwa [pentanomial.pairs_swapped]
    refine ⟨pentanomial.mean, pentanomial.variance, Pentanomial.mean_nonneg,
      Pentanomial.mean_le_one h, Pentanomial.fromPentanomial_exact h, ?_⟩
    rw [← Pentanomial.mean_swapped h, ← Pentanomial.variance_swapped h]
    exact (Pentanomial.fromPentanomial_exact hswap).trans (by rw [pentanomial.pairs_swapped]; rfl)

end Counts

section Width

variable {alpha : ℝ}

theorem tuningUnits_exact (minUnits maxUnits : ℕ) :
    ∃ nStar : ℝ, 0 < nStar ∧ tuningUnits minUnits maxUnits = (nStar : Exact) := by
  have hmin : (0 : ℝ) < (Nat.max minUnits 1 : ℕ) := Nat.cast_pos.2 (Nat.le_max_right _ _)
  have hmax : (0 : ℝ) < (Nat.max maxUnits 1 : ℕ) := Nat.cast_pos.2 (Nat.le_max_right _ _)
  refine ⟨_, Real.sqrt_pos.2 (mul_pos hmin hmax), ?_⟩
  rw [tuningUnits, ofNat_eq, ofNat_eq, ofReal_mul, sqrt_ofReal (mul_pos hmin hmax).le]

theorem planningVariance_exact (unit : TestUnit) :
    ∃ variance : ℝ, 0 < variance ∧ planningVariance unit = (variance : Exact) := by
  cases unit with
  | game => exact ⟨0.25, by norm_num, ofScientific_eq _ _ _⟩
  | pair => exact ⟨0.0625, by norm_num, ofScientific_eq _ _ _⟩

theorem rhoSquared_exact {nStar variance : ℝ} (hpos : 0 < alpha) (hlt : alpha < 1)
    (hstar : 0 < nStar) (hvariance : 0 < variance) :
    ∃ rho2 : ℝ, 0 < rho2 ∧ rhoSquared (alpha : Exact) nStar variance = (rho2 : Exact) := by
  have hlog : 0 < -2.0 * Real.log alpha :=
    mul_pos_of_neg_of_neg (by norm_num) (Real.log_neg hpos hlt)
  have hone : 1 < -2.0 * Real.log alpha + 1.0 := by
    norm_num at hlog ⊢
    exact hlog
  refine ⟨_, div_pos (add_pos hlog (Real.log_pos hone)) (mul_pos hstar hvariance), ?_⟩
  simp only [rhoSquared, ln_ofReal hpos, ofScientific_eq, ofReal_neg, ofReal_mul, ofReal_add]
  rw [ln_ofReal (one_pos.trans hone), ofReal_add, ofReal_div (mul_pos hstar hvariance).ne']

/-- The boundary is real and above 0 at every `n`: its root is of at least 1, and `alpha` is below
1, so the logarithm is above 0. -/
theorem halfWidth_exact {n : ℕ} {rho2 : ℝ} (hn : n ≠ 0) (hpos : 0 < alpha) (hlt : alpha < 1)
    (hrho : 0 < rho2) (variance : ℝ) :
    ∃ width : ℝ, 0 < width ∧ halfWidth n (variance : Exact) alpha rho2 = (width : Exact) := by
  have hn' : (0 : ℝ) < n := Nat.cast_pos.2 (Nat.pos_of_ne_zero hn)
  have hx : 1 ≤ n * max variance 0.0 * rho2 + 1.0 := by
    have : 0 ≤ max variance 0.0 := le_max_of_le_right (by norm_num)
    have : 0 ≤ n * max variance 0.0 * rho2 := by positivity
    norm_num at this ⊢
    exact this
  generalize hdef : n * max variance 0.0 * rho2 + 1.0 = x at hx
  have hden : 0 < (n * n * rho2 : ℝ) := by positivity
  have hroot : 1 < √x / alpha := by
    rw [lt_div_iff₀ hpos, one_mul]
    exact hlt.trans_le (Real.one_le_sqrt.2 hx)
  have hwidth : 0 < 2.0 * x / (n * n * rho2) * Real.log (√x / alpha) := by
    have hlog := Real.log_pos hroot
    have : 0 < 2.0 * x := by
      norm_num
      exact one_pos.trans_le hx
    positivity
  refine ⟨_, Real.sqrt_pos.2 hwidth, ?_⟩
  simp only [halfWidth, if_neg hn, ofNat_eq, ofScientific_eq, ofReal_max, ofReal_mul, ofReal_add,
    hdef]
  rw [sqrt_ofReal (zero_le_one.trans hx), ofReal_div hpos.ne', ln_ofReal (one_pos.trans hroot),
    ofReal_div hden.ne', ofReal_mul, sqrt_ofReal hwidth.le]

end Width

def TestStatus.swapped : TestStatus → TestStatus
  | .player1Better => .player2Better
  | .player2Better => .player1Better
  | .running => .running
  | .inconclusive => .inconclusive

section Status

variable {lower upper : ℝ} (unitsCompleted minUnits maxUnits : ℕ)

theorem statusOf_exact :
    statusOf (lower : Exact) upper unitsCompleted minUnits maxUnits =
      if unitsCompleted < minUnits then
        if maxUnits ≤ unitsCompleted then .inconclusive else .running
      else if 1 / 2 < lower then .player1Better
      else if upper < 1 / 2 then .player2Better
      else if maxUnits ≤ unitsCompleted then .inconclusive
      else .running := by
  have hhalf : (0.5 : ℝ) = 1 / 2 := by norm_num
  simp only [statusOf, ofScientific_eq, lt_ofReal, hhalf]

theorem statusOf_reflect (h : lower ≤ upper) :
    statusOf ((1 - upper : ℝ) : Exact) ((1 - lower : ℝ) : Exact) unitsCompleted minUnits maxUnits =
      (statusOf (lower : Exact) upper unitsCompleted minUnits maxUnits).swapped := by
  have hlower : 1 / 2 < 1 - upper ↔ upper < 1 / 2 := by constructor <;> intro h <;> linarith
  have hupper : 1 - lower < 1 / 2 ↔ 1 / 2 < lower := by constructor <;> intro h <;> linarith
  simp only [statusOf_exact, hlower, hupper]
  by_cases hbelow : unitsCompleted < minUnits
  · by_cases hcap : maxUnits ≤ unitsCompleted
    · simp only [if_pos hbelow, if_pos hcap, TestStatus.swapped]
    · simp only [if_pos hbelow, if_neg hcap, TestStatus.swapped]
  · simp only [if_neg hbelow]
    by_cases h1 : 1 / 2 < lower
    · have h2 : ¬upper < 1 / 2 := not_lt.2 (h1.le.trans h)
      simp only [if_pos h1, if_neg h2, TestStatus.swapped]
    · by_cases h2 : upper < 1 / 2
      · simp only [if_pos h2, if_neg h1, TestStatus.swapped]
      · by_cases hcap : maxUnits ≤ unitsCompleted
        · simp only [if_neg h1, if_neg h2, if_pos hcap, TestStatus.swapped]
        · simp only [if_neg h1, if_neg h2, if_neg hcap, TestStatus.swapped]

theorem lt_lower_of_player1Better
    (h : statusOf (lower : Exact) upper unitsCompleted minUnits maxUnits = .player1Better) :
    1 / 2 < lower := by
  rw [statusOf_exact] at h
  split_ifs at h with hbelow hcap h1
  exact h1

theorem upper_lt_of_player2Better
    (h : statusOf (lower : Exact) upper unitsCompleted minUnits maxUnits = .player2Better) :
    upper < 1 / 2 := by
  rw [statusOf_exact] at h
  split_ifs at h with hbelow hcap h1 h2
  exact h2

theorem statusOf_eq_running :
    statusOf (lower : Exact) upper unitsCompleted minUnits maxUnits = .running ↔
      unitsCompleted < maxUnits ∧
        (unitsCompleted < minUnits ∨ lower ≤ 1 / 2 ∧ 1 / 2 ≤ upper) := by
  rw [statusOf_exact]
  by_cases hcap : maxUnits ≤ unitsCompleted
  · simp only [if_pos hcap, not_lt.2 hcap, false_and, iff_false]
    split_ifs <;> nofun
  · have hlt := not_le.1 hcap
    by_cases hbelow : unitsCompleted < minUnits
    · rw [if_pos hbelow, if_neg hcap]
      exact iff_of_true rfl ⟨hlt, .inl hbelow⟩
    · rw [if_neg hbelow, if_neg hcap]
      by_cases h1 : 1 / 2 < lower
      · rw [if_pos h1]
        exact iff_of_false nofun fun h ↦ (h.2.resolve_left hbelow).1.not_gt h1
      · rw [if_neg h1]
        by_cases h2 : upper < 1 / 2
        · rw [if_pos h2]
          exact iff_of_false nofun fun h ↦ (h.2.resolve_left hbelow).2.not_gt h2
        · rw [if_neg h2]
          exact iff_of_true rfl ⟨hlt, .inr ⟨not_lt.1 h1, not_lt.1 h2⟩⟩

end Status

def widthOf {F : Type} [Double F] (sample : Sample F) (unit : TestUnit) (confidencePct : F)
    (minUnits maxUnits : ℕ) : F :=
  halfWidth sample.n sample.variance (1.0 - confidencePct / 100.0)
    (rhoSquared (1.0 - confidencePct / 100.0) (tuningUnits minUnits maxUnits)
      (planningVariance unit))

theorem evaluate_eq {F : Type} [Double F] (sample : Sample F) (unit : TestUnit)
    (unitsCompleted : ℕ) (confidencePct : F) (minUnits maxUnits : ℕ) :
    evaluate sample unit unitsCompleted confidencePct minUnits maxUnits =
      let width := widthOf sample unit confidencePct minUnits maxUnits
      let mean := if sample.n = 0 then 0.5 else sample.mean
      let lower := Double.max (mean - width) 0.0
      let upper := Double.min (mean + width) 1.0
      ⟨mean, lower, upper, confidencePct, statusOf lower upper unitsCompleted minUnits maxUnits⟩ :=
  rfl

section Evaluate

variable {confidencePct : ℝ} (unit : TestUnit) (unitsCompleted minUnits maxUnits : ℕ)

theorem widthOf_exact {n : ℕ} (mean : Exact) (variance : ℝ) (hn : n ≠ 0) (h50 : 50 < confidencePct)
    (h100 : confidencePct < 100) : ∃ width : ℝ, 0 < width ∧
      widthOf ⟨n, mean, (variance : Exact)⟩ unit confidencePct minUnits maxUnits =
        (width : Exact) := by
  have hhundred : (100.0 : ℝ) ≠ 0 := by norm_num
  obtain ⟨alpha, halpha⟩ : ∃ alpha : ℝ, alpha = 1.0 - confidencePct / 100.0 := ⟨_, rfl⟩
  have hpos : 0 < alpha := by
    norm_num at halpha
    linarith
  have hlt : alpha < 1 := by
    norm_num at halpha
    linarith
  obtain ⟨nStar, hstar, hnStar⟩ := tuningUnits_exact minUnits maxUnits
  obtain ⟨planned, hplanned, hunit⟩ := planningVariance_exact unit
  obtain ⟨rho2, hrho, hrho2⟩ := rhoSquared_exact hpos hlt hstar hplanned
  obtain ⟨width, hwidth, heq⟩ := halfWidth_exact hn hpos hlt hrho variance
  refine ⟨width, hwidth, ?_⟩
  rw [widthOf, ofScientific_eq, ofScientific_eq, ofReal_div hhundred, ofReal_sub, ← halpha,
    hnStar, hunit, hrho2, heq]

theorem evaluate_of_width {n : ℕ} {mean variance width : ℝ} (hn : n ≠ 0)
    (h : widthOf ⟨n, (mean : Exact), (variance : Exact)⟩ unit confidencePct minUnits maxUnits =
      (width : Exact)) :
    evaluate ⟨n, (mean : Exact), (variance : Exact)⟩ unit unitsCompleted confidencePct minUnits
        maxUnits =
      ⟨mean, (max (mean - width) 0 : ℝ), (min (mean + width) 1 : ℝ), confidencePct,
        statusOf ((max (mean - width) 0 : ℝ) : Exact) (min (mean + width) 1 : ℝ) unitsCompleted
          minUnits maxUnits⟩ := by
  have hzero : (0.0 : ℝ) = 0 := by norm_num
  have hone : (1.0 : ℝ) = 1 := by norm_num
  rw [evaluate_eq, h]
  simp only [if_neg hn, ofReal_sub, ofReal_add, ofScientific_eq, ofReal_max, ofReal_min, hzero,
    hone]

end Evaluate

end Birdtest.Stats
