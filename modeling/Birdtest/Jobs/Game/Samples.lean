import Birdtest.Jobs.Game.Pairs
import Birdtest.Stats.Outcomes

namespace Birdtest.Jobs.Game

open Birdtest.Stats

def gameTally (pairs : List Pair) : Tally :=
  ⟨(gamesOf pairs).count .win, (gamesOf pairs).count .loss, (gamesOf pairs).count .tie⟩

def pairBuckets (pairs : List Pair) : Pentanomial := ⟨fun i ↦ pairs.countP (Pair.score · = i)⟩

/-- The buckets, and the tally by the buckets and the middle one's pairs of two draws. -/
structure Counted (buckets : Fin 5 → ℝ) (pairs wins draws drawn : ℝ) : Prop where
  nonneg : ∀ i, 0 ≤ buckets i
  drawn_le : drawn ≤ buckets 2
  pairs : pairs = buckets 0 + buckets 1 + buckets 2 + buckets 3 + buckets 4
  wins : wins = buckets 2 - drawn + buckets 3 + 2 * buckets 4
  draws : draws = buckets 1 + buckets 3 + 2 * drawn

variable (pairs : List Pair)

theorem length_gamesOf : (gamesOf pairs).length = 2 * pairs.length := by
  induction pairs with
  | nil => rfl
  | cons pair pairs ih =>
    rw [gamesOf, List.flatMap_cons, List.length_append, ← gamesOf, ih, List.length_cons]
    simp only [List.length_cons, List.length_nil]
    omega

theorem count_outcomes (games : List Outcome) :
    games.count .win + games.count .loss + games.count .tie = games.length := by
  induction games with
  | nil => rfl
  | cons outcome games ih =>
    cases outcome <;> simp only [List.count_cons, List.length_cons, beq_iff_eq, reduceCtorEq,
      if_true, if_false] <;> omega

theorem total_gameTally : (gameTally pairs).total = 2 * pairs.length := by
  rw [← length_gamesOf, ← count_outcomes]
  rfl

theorem counted : ∃ drawn : ℝ, Counted (fun i ↦ (pairBuckets pairs).counts i) pairs.length
    (gameTally pairs).wins (gameTally pairs).draws drawn := by
  obtain ⟨drawn, h⟩ := agrees_of_pairs pairs
  have hgames : 2 * (pairs.length : ℤ) = (aggregateOf pairs).games := by
    rw [aggregateOf, length_gamesOf]
    push_cast
    rfl
  have hbuckets (i : Fin 5) : pentanomialOf pairs i = (pairBuckets pairs).counts i := rfl
  have hwins : (aggregateOf pairs).wins = (gameTally pairs).wins := rfl
  have hties : (aggregateOf pairs).ties = (gameTally pairs).draws := rfl
  refine ⟨drawn, fun i ↦ Nat.cast_nonneg _, ?_, ?_, ?_, ?_⟩
  · have := h.drawn_le
    rw [hbuckets] at this
    exact_mod_cast this
  · have := hgames.trans h.games
    simp only [hbuckets] at this
    exact_mod_cast mul_left_cancel₀ two_ne_zero this
  · have := h.wins
    simp only [hwins, hbuckets] at this
    exact_mod_cast this
  · have := h.ties
    simp only [hties, hbuckets] at this
    exact_mod_cast this

theorem pairs_pairBuckets : (pairBuckets pairs).pairs = pairs.length := by
  obtain ⟨drawn, h⟩ := counted pairs
  have := h.pairs
  rw [← Pentanomial.pairs_cast] at this
  exact_mod_cast this.symm

theorem halfPoints_pairBuckets :
    (pairBuckets pairs).halfPoints = 2 * (gameTally pairs).wins + (gameTally pairs).draws := by
  obtain ⟨drawn, h⟩ := counted pairs
  have : ((pairBuckets pairs).halfPoints : ℝ) =
      2 * (gameTally pairs).wins + (gameTally pairs).draws := by
    rw [Pentanomial.halfPoints_cast, h.wins, h.draws]
    ring
  exact_mod_cast this

theorem mean_gameTally : (gameTally pairs).mean = (pairBuckets pairs).mean := by
  rw [Tally.mean, Pentanomial.mean, total_gameTally, pairs_pairBuckets, halfPoints_pairBuckets]
  push_cast
  rw [← mul_div_mul_left _ _ (two_ne_zero (α := ℝ))]
  congr 1 <;> ring

/-- A pair's score is the mean of its two games', and the square of a mean is at most the mean of
the squares: less by 1/16 for a draw and a decided game, and by 1/4 for a win and a loss. -/
theorem variance_pairBuckets_le :
    (pairBuckets pairs).variance ≤ (gameTally pairs).variance := by
  obtain ⟨drawn, h⟩ := counted pairs
  have hmoments : (pairBuckets pairs).secondMoment ≤
      ((gameTally pairs).wins + (gameTally pairs).draws / 4) / (gameTally pairs).total := by
    rw [Pentanomial.secondMoment, total_gameTally, pairs_pairBuckets, h.wins, h.draws]
    push_cast
    rw [← mul_div_mul_left _ (2 * (pairs.length : ℝ)) (show (8 : ℝ) ≠ 0 by norm_num),
      show 8 * (2 * (pairs.length : ℝ)) = 16 * pairs.length by ring]
    refine div_le_div_of_nonneg_right ?_ (by positivity)
    have h1 := h.nonneg 1
    have h3 := h.nonneg 3
    have h2 := h.drawn_le
    linarith
  rw [Pentanomial.variance, Tally.variance, mean_gameTally]
  exact sub_le_sub_right hmoments _

end Birdtest.Jobs.Game
