import Birdtest.Stats.Exact
import Mathlib.Tactic.FieldSimp
import Mathlib.Tactic.Linarith
import Mathlib.Tactic.Positivity
import Mathlib.Tactic.Ring

namespace Birdtest.Stats

open Exact

namespace Tally

variable (tally : Tally)

noncomputable def mean : ℝ := (tally.wins + tally.draws / 2) / tally.total

noncomputable def variance : ℝ :=
  (tally.wins + tally.draws / 4) / tally.total - tally.mean * tally.mean

def swapped : Tally := ⟨tally.losses, tally.wins, tally.draws⟩

@[simp] theorem total_swapped : tally.swapped.total = tally.total := by
  simp only [swapped, total]
  omega

theorem total_cast : (tally.total : ℝ) = tally.wins + tally.losses + tally.draws := by
  simp [total]

variable {tally}

theorem fromGames_exact (h : tally.total ≠ 0) :
    Sample.fromGames tally = ⟨tally.total, (tally.mean : Exact), tally.variance⟩ := by
  have hn : (tally.total : ℝ) ≠ 0 := Nat.cast_ne_zero.2 h
  simp only [Sample.fromGames, if_neg h, ofNat_eq, ofScientific_eq, ofReal_mul, ofReal_add,
    ofReal_div hn, ofReal_sub, Sample.mk.injEq, ofReal_inj, true_and]
  have hmean : ((tally.wins : ℝ) + 0.5 * tally.draws) / tally.total = tally.mean := by
    rw [mean]
    congr 1
    ring
  rw [hmean, variance]
  refine ⟨rfl, ?_⟩
  congr 2
  ring

theorem mean_swapped (h : tally.total ≠ 0) : tally.swapped.mean = 1 - tally.mean := by
  have hn : (tally.total : ℝ) ≠ 0 := Nat.cast_ne_zero.2 h
  rw [mean, mean, total_swapped, eq_sub_iff_add_eq, ← add_div, div_eq_one_iff_eq hn, total_cast]
  simp only [swapped]
  ring

theorem variance_swapped (h : tally.total ≠ 0) : tally.swapped.variance = tally.variance := by
  have hn : (tally.total : ℝ) ≠ 0 := Nat.cast_ne_zero.2 h
  have hlosses : (tally.losses : ℝ) = tally.total - tally.wins - tally.draws := by
    rw [total_cast]
    ring
  rw [variance, variance, mean_swapped h, mean, total_swapped]
  simp only [swapped, hlosses]
  field_simp
  ring

theorem mean_nonneg : 0 ≤ tally.mean := by
  rw [mean]
  positivity

theorem mean_le_one (h : tally.total ≠ 0) : tally.mean ≤ 1 := by
  have hswapped : 0 ≤ tally.swapped.mean := mean_nonneg
  rw [mean_swapped h] at hswapped
  exact sub_nonneg.1 hswapped

theorem variance_le : tally.variance ≤ tally.mean * (1 - tally.mean) := by
  have hle : (tally.wins + tally.draws / 4 : ℝ) / tally.total ≤ tally.mean := by
    rw [mean]
    gcongr
    norm_num
  rw [variance]
  linarith

end Tally

theorem mul_one_sub_le (m : ℝ) : m * (1 - m) ≤ 1 / 4 := by
  have h : 0 ≤ (m - 1 / 2) * (m - 1 / 2) := mul_self_nonneg _
  linarith

namespace Pentanomial

variable (pentanomial : Pentanomial)

noncomputable def mean : ℝ := pentanomial.halfPoints / (4 * pentanomial.pairs)

noncomputable def secondMoment : ℝ :=
  (pentanomial.counts 1 + 4 * pentanomial.counts 2 + 9 * pentanomial.counts 3 +
    16 * pentanomial.counts 4) / (16 * pentanomial.pairs)

noncomputable def variance : ℝ := pentanomial.secondMoment - pentanomial.mean * pentanomial.mean

def swapped : Pentanomial := ⟨fun i ↦ pentanomial.counts i.rev⟩

@[simp] theorem pairs_swapped : pentanomial.swapped.pairs = pentanomial.pairs := by
  simp only [swapped, pairs, Fin.reduceRev]
  omega

theorem pairs_cast : (pentanomial.pairs : ℝ) = pentanomial.counts 0 + pentanomial.counts 1 +
    pentanomial.counts 2 + pentanomial.counts 3 + pentanomial.counts 4 := by
  simp [pairs]

theorem halfPoints_cast : (pentanomial.halfPoints : ℝ) = pentanomial.counts 1 +
    2 * pentanomial.counts 2 + 3 * pentanomial.counts 3 + 4 * pentanomial.counts 4 := by
  simp [halfPoints]

variable {pentanomial}

theorem foldl_buckets {n : ℕ} (hn : n ≠ 0) (buckets : List (ℕ × ℕ)) (mean secondMoment : ℝ) :
    buckets.foldl
      (fun (mean, secondMoment) (i, count) ↦
        let score : Exact := Double.ofNat i / 4.0
        let weight := Double.ofNat count / Double.ofNat n
        (mean + score * weight, secondMoment + score * score * weight))
      ((mean : Exact), (secondMoment : Exact)) =
    (((mean + (buckets.map fun b ↦ b.1 / 4 * (b.2 / n : ℝ)).sum : ℝ) : Exact),
      ((secondMoment + (buckets.map fun b ↦ b.1 / 4 * (b.1 / 4) * (b.2 / n : ℝ)).sum : ℝ) :
        Exact)) := by
  have hn' : (n : ℝ) ≠ 0 := Nat.cast_ne_zero.2 hn
  have h4 : (4.0 : ℝ) = 4 := by norm_num
  induction buckets generalizing mean secondMoment with
  | nil => simp
  | cons b buckets ih =>
    rw [List.foldl_cons]
    simp only [ofNat_eq, ofScientific_eq, h4, ofReal_div four_ne_zero, ofReal_div hn', ofReal_mul,
      ofReal_add] at ih ⊢
    rw [ih, List.map_cons, List.sum_cons, List.map_cons, List.sum_cons, add_assoc, add_assoc]

theorem fromPentanomial_exact (h : pentanomial.pairs ≠ 0) :
    Sample.fromPentanomial pentanomial =
      ⟨pentanomial.pairs, (pentanomial.mean : Exact), pentanomial.variance⟩ := by
  have hn : (pentanomial.pairs : ℝ) ≠ 0 := Nat.cast_ne_zero.2 h
  have hzero : (0.0 : Exact) = (0 : ℝ) := by
    rw [ofScientific_eq]
    norm_num
  rw [Sample.fromPentanomial, if_neg h]
  simp only [hzero]
  rw [foldl_buckets h]
  simp only [ofReal_mul, ofReal_sub, zero_add, List.map_ofFn, Function.comp_def, List.sum_ofFn]
  have hmean : (∑ i : Fin 5, (i : ℕ) / 4 * (pentanomial.counts i / pentanomial.pairs : ℝ)) =
      pentanomial.mean := by
    simp only [mean, halfPoints_cast, Fin.sum_univ_five, Fin.coe_ofNat_eq_mod, Nat.reduceMod]
    push_cast
    field_simp
    ring
  have hsecond : (∑ i : Fin 5, (i : ℕ) / 4 * ((i : ℕ) / 4) *
      (pentanomial.counts i / pentanomial.pairs : ℝ)) = pentanomial.secondMoment := by
    simp only [secondMoment, Fin.sum_univ_five, Fin.coe_ofNat_eq_mod, Nat.reduceMod]
    push_cast
    field_simp
    ring
  rw [hmean, hsecond, variance]

theorem mean_swapped (h : pentanomial.pairs ≠ 0) :
    pentanomial.swapped.mean = 1 - pentanomial.mean := by
  have hn : (4 * pentanomial.pairs : ℝ) ≠ 0 := by positivity
  rw [mean, mean, pairs_swapped, eq_sub_iff_add_eq, ← add_div, div_eq_one_iff_eq hn, pairs_cast,
    halfPoints_cast, halfPoints_cast]
  simp only [swapped, Fin.reduceRev]
  ring

theorem variance_swapped (h : pentanomial.pairs ≠ 0) :
    pentanomial.swapped.variance = pentanomial.variance := by
  have hn : (pentanomial.pairs : ℝ) ≠ 0 := Nat.cast_ne_zero.2 h
  have hlost : (pentanomial.counts 0 : ℝ) = pentanomial.pairs - pentanomial.counts 1 -
      pentanomial.counts 2 - pentanomial.counts 3 - pentanomial.counts 4 := by
    rw [pairs_cast]
    ring
  rw [variance, variance, mean_swapped h, mean, halfPoints_cast, secondMoment, secondMoment,
    pairs_swapped]
  simp only [swapped, Fin.reduceRev, hlost]
  field_simp
  ring

theorem mean_nonneg : 0 ≤ pentanomial.mean := by
  rw [mean]
  positivity

theorem mean_le_one (h : pentanomial.pairs ≠ 0) : pentanomial.mean ≤ 1 := by
  have hswapped : 0 ≤ pentanomial.swapped.mean := mean_nonneg
  rw [mean_swapped h] at hswapped
  exact sub_nonneg.1 hswapped

theorem variance_nonneg (h : pentanomial.pairs ≠ 0) : 0 ≤ pentanomial.variance := by
  have hn : (0 : ℝ) < pentanomial.pairs := Nat.cast_pos.2 (Nat.pos_of_ne_zero h)
  have hsum : pentanomial.variance * (16 * (pentanomial.pairs * pentanomial.pairs)) =
      pentanomial.counts 0 * pentanomial.counts 1 + 4 * (pentanomial.counts 0 *
        pentanomial.counts 2) + 9 * (pentanomial.counts 0 * pentanomial.counts 3) +
      16 * (pentanomial.counts 0 * pentanomial.counts 4) +
      pentanomial.counts 1 * pentanomial.counts 2 + 4 * (pentanomial.counts 1 *
        pentanomial.counts 3) + 9 * (pentanomial.counts 1 * pentanomial.counts 4) +
      pentanomial.counts 2 * pentanomial.counts 3 + 4 * (pentanomial.counts 2 *
        pentanomial.counts 4) + pentanomial.counts 3 * pentanomial.counts 4 := by
    rw [variance, mean, halfPoints_cast, secondMoment]
    field_simp
    rw [pairs_cast]
    ring
  have hnonneg : 0 ≤ pentanomial.variance * (16 * (pentanomial.pairs * pentanomial.pairs)) := by
    rw [hsum]
    positivity
  exact nonneg_of_mul_nonneg_left hnonneg (by positivity)

end Pentanomial

end Birdtest.Stats
