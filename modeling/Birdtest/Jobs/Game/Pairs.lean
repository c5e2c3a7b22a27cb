import Birdtest.Jobs.Game.Results
import Mathlib.Data.List.Count
import Mathlib.Data.List.Flatten

namespace Birdtest.Jobs.Game

open Birdtest.Base.Checked Birdtest.Stats

/-- How player 1 did in a game. -/
inductive Outcome
  | win | loss | tie
  deriving DecidableEq

def Outcome.halfPoints : Outcome → ℕ
  | .win => 2
  | .loss => 0
  | .tie => 1

abbrev Pair := Outcome × Outcome

def Pair.score (pair : Pair) : ℕ := pair.1.halfPoints + pair.2.halfPoints

def gamesOf (pairs : List Pair) : List Outcome := pairs.flatMap fun pair ↦ [pair.1, pair.2]

def aggregateOf (pairs : List Pair) : GameAggregate where
  games := (gamesOf pairs).length
  wins := (gamesOf pairs).count .win
  losses := (gamesOf pairs).count .loss
  ties := (gamesOf pairs).count .tie

def pentanomialOf (pairs : List Pair) (i : Fin 5) : ℤ := pairs.countP (Pair.score · = i)

structure Agrees (all : GameAggregate) (pentanomial : Fin 5 → ℤ) (drawn : ℤ) : Prop where
  nonneg : ∀ i, 0 ≤ pentanomial i
  drawn_nonneg : 0 ≤ drawn
  drawn_le : drawn ≤ pentanomial 2
  games : all.games = 2 * (pentanomial 0 + pentanomial 1 + pentanomial 2 + pentanomial 3 +
    pentanomial 4)
  wins : all.wins = pentanomial 2 - drawn + pentanomial 3 + 2 * pentanomial 4
  losses : all.losses = 2 * pentanomial 0 + pentanomial 1 + (pentanomial 2 - drawn)
  ties : all.ties = pentanomial 1 + pentanomial 3 + 2 * drawn

section Pairs

variable {all all' : GameAggregate} {pentanomial pentanomial' : Fin 5 → ℤ} {drawn drawn' : ℤ}

instance : Add GameAggregate where
  add all all' := ⟨all.games + all'.games, all.wins + all'.wins, all.losses + all'.losses,
    all.ties + all'.ties⟩

@[simp] theorem games_add : (all + all').games = all.games + all'.games := rfl
@[simp] theorem wins_add : (all + all').wins = all.wins + all'.wins := rfl
@[simp] theorem losses_add : (all + all').losses = all.losses + all'.losses := rfl
@[simp] theorem ties_add : (all + all').ties = all.ties + all'.ties := rfl

@[ext] theorem GameAggregate.ext (hgames : all.games = all'.games) (hwins : all.wins = all'.wins)
    (hlosses : all.losses = all'.losses) (hties : all.ties = all'.ties) : all = all' := by
  cases all
  cases all'
  cases hgames
  cases hwins
  cases hlosses
  cases hties
  rfl

theorem aggregateOf_append (pairs pairs' : List Pair) :
    aggregateOf (pairs ++ pairs') = aggregateOf pairs + aggregateOf pairs' := by
  ext <;> simp [aggregateOf, gamesOf]

theorem pentanomialOf_append (pairs pairs' : List Pair) :
    pentanomialOf (pairs ++ pairs') = pentanomialOf pairs + pentanomialOf pairs' := by
  funext i
  simp [pentanomialOf]

theorem Agrees.add (h : Agrees all pentanomial drawn) (h' : Agrees all' pentanomial' drawn') :
    Agrees (all + all') (pentanomial + pentanomial') (drawn + drawn') where
  nonneg i := Int.add_nonneg (h.nonneg i) (h'.nonneg i)
  drawn_nonneg := Int.add_nonneg h.drawn_nonneg h'.drawn_nonneg
  drawn_le := Int.add_le_add h.drawn_le h'.drawn_le
  games := by
    rw [games_add, h.games, h'.games]
    simp only [Pi.add_apply]
    omega
  wins := by
    rw [wins_add, h.wins, h'.wins]
    simp only [Pi.add_apply]
    omega
  losses := by
    rw [losses_add, h.losses, h'.losses]
    simp only [Pi.add_apply]
    omega
  ties := by
    rw [ties_add, h.ties, h'.ties]
    simp only [Pi.add_apply]
    omega

theorem agrees_singleton (pair : Pair) : ∃ drawn, Agrees (aggregateOf [pair])
    (pentanomialOf [pair]) drawn := by
  refine ⟨if pair = (.tie, .tie) then 1 else 0, ?_⟩
  obtain ⟨first, second⟩ := pair
  cases first <;> cases second <;> constructor <;> decide +kernel

/-- Whatever the outcomes of some pairs, their tally and pentanomial agree. -/
theorem agrees_of_pairs (pairs : List Pair) :
    ∃ drawn, Agrees (aggregateOf pairs) (pentanomialOf pairs) drawn := by
  induction pairs with
  | nil => exact ⟨0, by constructor <;> decide⟩
  | cons pair pairs ih =>
    obtain ⟨drawn, hdrawn⟩ := ih
    obtain ⟨drawn', hdrawn'⟩ := agrees_singleton pair
    rw [← List.singleton_append, aggregateOf_append, pentanomialOf_append]
    exact ⟨drawn' + drawn, hdrawn'.add hdrawn⟩

def pairsFor (pentanomial : Fin 5 → ℕ) (drawn : ℕ) : List Pair :=
  List.replicate (pentanomial 0) (.loss, .loss) ++ List.replicate (pentanomial 1) (.loss, .tie) ++
    List.replicate (pentanomial 2 - drawn) (.win, .loss) ++ List.replicate drawn (.tie, .tie) ++
    List.replicate (pentanomial 3) (.win, .tie) ++ List.replicate (pentanomial 4) (.win, .win)

theorem aggregateOf_pairsFor {pentanomial : Fin 5 → ℕ} {drawn : ℕ}
    (h : Agrees all (fun i ↦ pentanomial i) drawn) :
    aggregateOf (pairsFor pentanomial drawn) = all := by
  obtain ⟨-, -, hle, hgames, hwins, hlosses, hties⟩ := h
  ext <;> simp [aggregateOf, gamesOf, pairsFor, List.count_flatMap] <;> omega

theorem pentanomialOf_pairsFor {pentanomial : Fin 5 → ℕ} {drawn : ℕ}
    (h : drawn ≤ pentanomial 2) (i : Fin 5) :
    pentanomialOf (pairsFor pentanomial drawn) i = pentanomial i := by
  match i with
  | 0 | 1 | 3 | 4 => simp [pentanomialOf, pairsFor, List.countP_replicate, Pair.score,
      Outcome.halfPoints]
  | 2 =>
    have hsplit : pentanomial 2 - drawn + drawn = pentanomial 2 := Nat.sub_add_cancel h
    simp [pentanomialOf, pairsFor, List.countP_replicate, Pair.score, Outcome.halfPoints, hsplit]

theorem exists_counts (h : ∀ i, 0 ≤ pentanomial i) :
    ∃ counts : Fin 5 → ℕ, pentanomial = fun i ↦ (counts i : ℤ) :=
  ⟨fun i ↦ (pentanomial i).toNat, funext fun i ↦ (Int.toNat_of_nonneg (h i)).symm⟩

theorem exists_pairs_iff :
    (∃ pairs, aggregateOf pairs = all ∧ pentanomialOf pairs = pentanomial) ↔
      ∃ drawn, Agrees all pentanomial drawn := by
  constructor
  · rintro ⟨pairs, rfl, rfl⟩
    exact agrees_of_pairs pairs
  · rintro ⟨drawn, h⟩
    obtain ⟨counts, rfl⟩ := exists_counts h.nonneg
    obtain ⟨drawn, rfl⟩ := Int.eq_ofNat_of_zero_le h.drawn_nonneg
    refine ⟨pairsFor counts drawn, aggregateOf_pairsFor h, funext fun i ↦ ?_⟩
    exact pentanomialOf_pairsFor (Int.ofNat_le.1 h.drawn_le) i

theorem length_eq_sum (pairs : List Pair) : (pairs.length : ℤ) = pentanomialOf pairs 0 +
    pentanomialOf pairs 1 + pentanomialOf pairs 2 + pentanomialOf pairs 3 +
      pentanomialOf pairs 4 := by
  obtain ⟨drawn, h⟩ := agrees_of_pairs pairs
  have hlength : (aggregateOf pairs).games = 2 * pairs.length := by
    simp [aggregateOf, gamesOf, Int.mul_comm]
  have hgames := h.games
  omega

theorem checkPentanomial_eq_ok (hall : all.isConsistent = true) :
    checkPentanomial all pentanomial = .ok () ↔ ∃ drawn, Agrees all pentanomial drawn := by
  obtain ⟨hgames, hwins, hlosses, hties, htotal⟩ := of_decide_eq_true hall
  simp only [checkPentanomial, ensure_bind_eq_ok, ensure_eq_ok]
  constructor
  · rintro ⟨hcounts, hpairs, hscore, hnonneg, heven, hle⟩
    obtain ⟨counts, rfl⟩ := exists_counts fun i ↦ (hcounts i).1
    obtain ⟨drawn, hdrawn⟩ : ∃ drawn, all.ties - counts 1 - counts 3 = 2 * drawn :=
      ⟨_, (Int.mul_ediv_cancel' (Int.dvd_of_emod_eq_zero heven)).symm⟩
    beta_reduce at hnonneg hle
    rw [hdrawn, Int.mul_ediv_cancel_left _ (by decide)] at hle
    simp only [Pentanomial.pairs, Pentanomial.halfPoints, Int.toNat_natCast] at hpairs hscore
    clear hcounts heven
    refine ⟨drawn, fun i ↦ Int.natCast_nonneg _, ?_, hle, ?_, ?_, ?_, ?_⟩
    all_goals omega
  · rintro ⟨drawn, hnonneg, hdrawn, hle, hgames', hwins', hlosses', hties'⟩
    obtain ⟨counts, rfl⟩ := exists_counts hnonneg
    beta_reduce at hle hgames' hwins' hlosses' hties' ⊢
    refine ⟨fun i ↦ ⟨hnonneg i, ?_⟩, ?_, ?_, by omega, by omega, by omega⟩
    · obtain rfl | rfl | rfl | rfl | rfl : i = 0 ∨ i = 1 ∨ i = 2 ∨ i = 3 ∨ i = 4 := by
        revert i
        decide
      all_goals omega
    · simp only [Pentanomial.pairs, Int.toNat_natCast]
      omega
    · simp only [Pentanomial.halfPoints, Int.toNat_natCast]
      omega

theorem Agrees.isConsistent (h : Agrees all pentanomial drawn) : all.isConsistent = true := by
  obtain ⟨hnonneg, hdrawn, hle, hgames, hwins, hlosses, hties⟩ := h
  have h₀ := hnonneg 0
  have h₁ := hnonneg 1
  have h₂ := hnonneg 2
  have h₃ := hnonneg 3
  have h₄ := hnonneg 4
  exact decide_eq_true ⟨by omega, by omega, by omega, by omega, by omega⟩

end Pairs

section Response

variable {checks : Checks P} {response : GameResultsResponse P} {pentanomial : Fin 5 → ℤ}

theorem processGamePairs_eq_ok (hpentanomial : response.pentanomial = some pentanomial)
    (hmoments : checks.gameAggregate response.rest "all_games" = .ok ())
    (hpositions : checks.validatePositions response.rest = .ok ()) :
    (∃ record, processGamePairs checks response = .ok record) ↔ response.allGames.games ≠ 0 ∧
      (∃ drawn, Agrees response.allGames pentanomial drawn) ∧
        checkDivergentGames checks response pentanomial = .ok () := by
  simp only [processGamePairs, validateAggregate, ensure_bind_eq_ok, hmoments, ok_bind,
    hpentanomial]
  constructor
  · rintro ⟨record, hconsistent, ⟨hgames, -⟩, h⟩
    obtain ⟨⟨⟩, hcheck, h⟩ := bind_eq_ok h
    obtain ⟨⟨⟩, hdivergent, -⟩ := bind_eq_ok h
    exact ⟨hgames, (checkPentanomial_eq_ok hconsistent).1 hcheck, hdivergent⟩
  · rintro ⟨hgames, ⟨drawn, hagrees⟩, hdivergent⟩
    have hconsistent := hagrees.isConsistent
    have heven : response.allGames.games % 2 = 0 := by
      have htwice := hagrees.games
      omega
    refine ⟨⟨response.allGames, some pentanomial, response.divergentGames⟩, hconsistent,
      ⟨hgames, heven⟩, ?_⟩
    rw [(checkPentanomial_eq_ok hconsistent).2 ⟨drawn, hagrees⟩, hdivergent, hpositions]
    rfl

/-- The cross-check of the pentanomial is exact: it passes the results of some pairs, and no
others. -/
theorem processGamePairs_exact (hdivergent : response.divergentGames = none)
    (hpentanomial : response.pentanomial = some pentanomial)
    (hmoments : checks.gameAggregate response.rest "all_games" = .ok ())
    (hpositions : checks.validatePositions response.rest = .ok ()) :
    (∃ record, processGamePairs checks response = .ok record) ↔
      ∃ pairs : List Pair, 1 ≤ pairs.length ∧ (pairs.length : ℤ) = pentanomial 0 + pentanomial 1 +
        pentanomial 2 + pentanomial 3 + pentanomial 4 ∧ aggregateOf pairs = response.allGames ∧
          pentanomialOf pairs = pentanomial := by
  have hpart : checkDivergentGames checks response pentanomial = .ok () := by
    rw [checkDivergentGames, hdivergent]
  rw [processGamePairs_eq_ok hpentanomial hmoments hpositions, ← exists_pairs_iff]
  constructor
  · rintro ⟨hgames, ⟨pairs, hall, rfl⟩, -⟩
    refine ⟨pairs, List.length_pos_of_ne_nil ?_, length_eq_sum pairs, hall, rfl⟩
    rintro rfl
    rw [← hall] at hgames
    exact hgames rfl
  · rintro ⟨pairs, hlength, -, hall, hpentanomial⟩
    refine ⟨?_, ⟨pairs, hall, hpentanomial⟩, hpart⟩
    obtain ⟨drawn, hagrees⟩ := agrees_of_pairs pairs
    have hsum := length_eq_sum pairs
    have hgames := hagrees.games
    rw [← hall]
    omega

/-- One pair, drawn twice. -/
theorem processGamePairs_exact_drawn :
    ∃ record, processGamePairs ⟨fun _ _ ↦ .ok (), fun _ ↦ .ok (), fun _ ↦ .ok ()⟩
      ⟨⟨2, 0, 0, 2⟩, some ![0, 0, 1, 0, 0], none, ()⟩ = .ok record :=
  (processGamePairs_exact rfl rfl rfl rfl).2
    ⟨[(.tie, .tie)], by decide, by decide, by decide, funext (by decide)⟩

end Response

/-- Pairs, each with whether its games diverged, that are as a result describes them. -/
structure Realises (played : List (Pair × Bool)) (all : GameAggregate) (pentanomial : Fin 5 → ℤ)
    (divergent : GameAggregate) : Prop where
  all : aggregateOf (played.map Prod.fst) = all
  pentanomial : pentanomialOf (played.map Prod.fst) = pentanomial
  same : ∀ pair, (pair, false) ∈ played → pair.score = 2
  divergent : aggregateOf ((played.filter Prod.snd).map Prod.fst) = divergent

/-- What the pairs outside `divergent` are, when each scores a point: `split` wins and losses, and
`drawn` pairs of two draws. -/
structure LeavesSame (all : GameAggregate) (pentanomial : Fin 5 → ℤ) (divergent : GameAggregate)
    (split drawn : ℤ) : Prop where
  split_nonneg : 0 ≤ split
  drawn_nonneg : 0 ≤ drawn
  wins : all.wins = divergent.wins + split
  losses : all.losses = divergent.losses + split
  ties : all.ties = divergent.ties + 2 * drawn
  unsplit : 2 * (pentanomial 0 + pentanomial 1 + pentanomial 3 + pentanomial 4) ≤ divergent.games

section Divergent

variable {all divergent : GameAggregate} {pentanomial : Fin 5 → ℤ} {pairs pairs' : List Pair}

theorem aggregateOf_perm (h : pairs.Perm pairs') : aggregateOf pairs = aggregateOf pairs' := by
  have hgames : (gamesOf pairs).Perm (gamesOf pairs') := h.flatMap_right _
  ext
  · exact congrArg Nat.cast hgames.length_eq
  · exact congrArg Nat.cast (hgames.count_eq _)
  · exact congrArg Nat.cast (hgames.count_eq _)
  · exact congrArg Nat.cast (hgames.count_eq _)

theorem pentanomialOf_perm (h : pairs.Perm pairs') : pentanomialOf pairs = pentanomialOf pairs' :=
  funext fun _ ↦ congrArg Nat.cast (h.countP_eq _)

theorem agrees_of_score (h : ∀ pair ∈ pairs, pair.score = 2) :
    ∃ drawn, Agrees (aggregateOf pairs) (pentanomialOf pairs) drawn ∧ pentanomialOf pairs 0 = 0 ∧
      pentanomialOf pairs 1 = 0 ∧ pentanomialOf pairs 3 = 0 ∧ pentanomialOf pairs 4 = 0 := by
  have hzero (i : Fin 5) (hi : i.val ≠ 2) : pentanomialOf pairs i = 0 := by
    refine congrArg Nat.cast (List.countP_eq_zero.2 fun pair hpair ↦ ?_)
    rw [decide_eq_true_eq, h pair hpair]
    exact hi.symm
  obtain ⟨drawn, hagrees⟩ := agrees_of_pairs pairs
  exact ⟨drawn, hagrees, hzero 0 (by decide), hzero 1 (by decide), hzero 3 (by decide),
    hzero 4 (by decide)⟩

theorem pentanomialOf_score_ne_zero {pair : Pair} (hpair : pair ∈ pairs) (i : Fin 5)
    (hi : pair.score = i) : pentanomialOf pairs i ≠ 0 := by
  have hpos : 0 < pairs.countP (Pair.score · = i) :=
    List.countP_pos_iff.2 ⟨pair, hpair, decide_eq_true hi⟩
  simp only [pentanomialOf]
  omega

theorem score_of_pentanomialOf {count : ℤ} (h : pentanomialOf pairs = ![0, 0, count, 0, 0])
    {pair : Pair} (hpair : pair ∈ pairs) : pair.score = 2 := by
  have hne := pentanomialOf_score_ne_zero hpair
  rw [h] at hne
  obtain ⟨first, second⟩ := pair
  cases first <;> cases second
  case win.loss | loss.win | tie.tie => rfl
  case loss.loss => exact absurd rfl (hne 0 rfl)
  case loss.tie | tie.loss => exact absurd rfl (hne 1 rfl)
  case win.tie | tie.win => exact absurd rfl (hne 3 rfl)
  case win.win => exact absurd rfl (hne 4 rfl)

theorem checkDivergent_eq_ok (hall : all.isConsistent = true)
    (hdivergent : divergent.isConsistent = true) :
    ((divergent.games % 2 = 0 ∧ divergent.games ≤ all.games) ∧
      checkDivergentAgainstTheWhole all pentanomial divergent = .ok ()) ↔
        all.games % 2 = 0 ∧ ∃ split drawn, LeavesSame all pentanomial divergent split drawn := by
  obtain ⟨hgames, hwins, hlosses, hties, htotal⟩ := of_decide_eq_true hall
  obtain ⟨hgames', hwins', hlosses', hties', htotal'⟩ := of_decide_eq_true hdivergent
  simp only [checkDivergentAgainstTheWhole, ensure_bind_eq_ok, ensure_eq_ok]
  constructor
  · rintro ⟨⟨heven, hle⟩, ⟨hw, hl, ht⟩, ⟨hsame, htwo⟩, hunsplit⟩
    refine ⟨by omega, all.wins - divergent.wins, (all.ties - divergent.ties) / 2, ?_⟩
    constructor <;> omega
  · rintro ⟨heven, split, drawn, hsplit, hdrawn, hw, hl, ht, hunsplit⟩
    omega

structure Fits (all : GameAggregate) (pentanomial : Fin 5 → ℤ) (divergent : GameAggregate) :
    Prop where
  whole : ∃ drawn, Agrees all pentanomial drawn
  consistent : divergent.isConsistent = true
  rest : ∃ split drawn, LeavesSame all pentanomial divergent split drawn

/-- The subset counts the draws and the wins of the pairs outside the middle bucket. -/
def Covers (pentanomial : Fin 5 → ℤ) (divergent : GameAggregate) : Prop :=
  pentanomial 1 + pentanomial 3 ≤ divergent.ties ∧
    pentanomial 3 + 2 * pentanomial 4 ≤ divergent.wins

theorem exists_realises_iff : (∃ played, Realises played all pentanomial divergent) ↔
    ∃ diverged same : List Pair, (∀ pair ∈ same, pair.score = 2) ∧
    aggregateOf diverged = divergent ∧
      aggregateOf diverged + aggregateOf same = all ∧
        pentanomialOf diverged + pentanomialOf same = pentanomial := by
  constructor
  · rintro ⟨played, rfl, rfl, hsame, rfl⟩
    have hperm := (List.filter_append_perm Prod.snd played).map Prod.fst
    rw [List.map_append] at hperm
    refine ⟨_, (played.filter fun marked ↦ !marked.2).map Prod.fst, ?_, rfl, ?_, ?_⟩
    · intro pair hpair
      obtain ⟨⟨pair, diverged⟩, hmarked, rfl⟩ := List.mem_map.1 hpair
      obtain ⟨hmem, hfalse⟩ := List.mem_filter.1 hmarked
      rw [Bool.not_eq_true'] at hfalse
      cases hfalse
      exact hsame pair hmem
    · rw [← aggregateOf_append, aggregateOf_perm hperm]
    · rw [← pentanomialOf_append, pentanomialOf_perm hperm]
  · rintro ⟨diverged, same, hsame, rfl, rfl, rfl⟩
    refine ⟨diverged.map (·, true) ++ same.map (·, false), ?_, ?_, ?_, ?_⟩
    · simp [Function.comp_def, aggregateOf_append]
    · simp [Function.comp_def, pentanomialOf_append]
    · intro pair hpair
      exact hsame pair (by simpa using hpair)
    · simp [List.filter_append, List.filter_map, Function.comp_def]

theorem fits_of_add {same : GameAggregate} {diverged middle : Fin 5 → ℤ} {drawn drawn' : ℤ}
    (h : Agrees divergent diverged drawn) (h' : Agrees same middle drawn')
    (h₀ : middle 0 = 0) (h₁ : middle 1 = 0) (h₃ : middle 3 = 0) (h₄ : middle 4 = 0) :
    Fits (divergent + same) (diverged + middle) divergent ∧
    Covers (diverged + middle) divergent := by
  have hconsistent := h.isConsistent
  have hwhole := h.add h'
  obtain ⟨hnonneg, hdrawn, hle, hgames, hwins, hlosses, hties⟩ := h
  obtain ⟨-, hdrawn', hle', -, hwins', hlosses', hties'⟩ := h'
  have h₂ := hnonneg 2
  refine ⟨⟨⟨_, hwhole⟩, hconsistent, middle 2 - drawn', drawn', ?_⟩, ?_⟩
  · refine ⟨by omega, hdrawn', ?_, ?_, ?_, ?_⟩
    all_goals
      simp only [wins_add, losses_add, ties_add, Pi.add_apply]
      omega
  · simp only [Covers, Pi.add_apply]
    omega

theorem exists_pairs_of_fits (h : Fits all pentanomial divergent)
    (hcovers : Covers pentanomial divergent) : ∃ diverged same : List Pair,
      (∀ pair ∈ same, pair.score = 2) ∧ aggregateOf diverged = divergent ∧
        aggregateOf diverged + aggregateOf same = all ∧
          pentanomialOf diverged + pentanomialOf same = pentanomial := by
  obtain ⟨⟨drawn, hwhole⟩, hconsistent, split, drawn', hrest⟩ := h
  obtain ⟨hgames, hwins, hlosses, hties, htotal⟩ := of_decide_eq_true hconsistent
  obtain ⟨hnonneg, hdrawn, hle, hgames', hwins', hlosses', hties'⟩ := hwhole
  obtain ⟨hsplit, hdrawn', hw, hl, ht, hunsplit⟩ := hrest
  obtain ⟨hcoversTies, hcoversWins⟩ := hcovers
  have h₀ := hnonneg 0
  have h₁ := hnonneg 1
  have h₃ := hnonneg 3
  have h₄ := hnonneg 4
  have hpart : Agrees divergent ![pentanomial 0, pentanomial 1, pentanomial 2 - split - drawn',
      pentanomial 3, pentanomial 4] (drawn - drawn') := by
    refine ⟨fun i ↦ ?_, by omega, ?_, ?_, ?_, ?_, ?_⟩
    · match i with
      | 0 | 1 | 2 | 3 | 4 =>
        simp only [Matrix.cons_val]
        omega
    all_goals
      simp only [Matrix.cons_val]
      omega
  have hsame : Agrees ⟨2 * split + 2 * drawn', split, split, 2 * drawn'⟩
      ![0, 0, split + drawn', 0, 0] drawn' := by
    refine ⟨fun i ↦ ?_, hdrawn', ?_, ?_, ?_, ?_, ?_⟩
    · match i with
      | 0 | 1 | 2 | 3 | 4 =>
        simp only [Matrix.cons_val]
        omega
    all_goals
      simp only [Matrix.cons_val]
      omega
  obtain ⟨diverged, hdiverged, hdiverged'⟩ := exists_pairs_iff.2 ⟨_, hpart⟩
  obtain ⟨same, haggregate, hpentanomial⟩ := exists_pairs_iff.2 ⟨_, hsame⟩
  refine ⟨diverged, same, fun pair hpair ↦ score_of_pentanomialOf hpentanomial hpair, hdiverged,
    ?_, ?_⟩
  · rw [hdiverged, haggregate]
    ext
    · change divergent.games + (2 * split + 2 * drawn') = all.games
      omega
    · exact hw.symm
    · exact hl.symm
    · exact ht.symm
  · funext i
    rw [Pi.add_apply, hdiverged', hpentanomial]
    match i with
    | 0 | 1 | 2 | 3 | 4 =>
      simp only [Matrix.cons_val]
      omega

/-- Pairs that make a result are there when it fits and covers what it has to. -/
theorem realisable_iff : (∃ played, Realises played all pentanomial divergent) ↔
    Fits all pentanomial divergent ∧ Covers pentanomial divergent := by
  rw [exists_realises_iff]
  constructor
  · rintro ⟨diverged, same, hsame, rfl, rfl, rfl⟩
    obtain ⟨drawn, hagrees⟩ := agrees_of_pairs diverged
    obtain ⟨drawn', hagrees', h₀, h₁, h₃, h₄⟩ := agrees_of_score hsame
    exact fits_of_add hagrees hagrees' h₀ h₁ h₃ h₄
  · rintro ⟨hfits, hcovers⟩
    exact exists_pairs_of_fits hfits hcovers

/-- The checks of a result with a divergent part pass where it fits. -/
theorem processGamePairs_eq_ok_of_divergent {checks : Checks P} {response : GameResultsResponse P}
    (hpentanomial : response.pentanomial = some pentanomial)
    (hdivergent : response.divergentGames = some divergent)
    (hmoments : ∀ field, checks.gameAggregate response.rest field = .ok ())
    (hpositions : checks.validatePositions response.rest = .ok ()) :
    (∃ record, processGamePairs checks response = .ok record) ↔
      response.allGames.games ≠ 0 ∧ Fits response.allGames pentanomial divergent := by
  rw [processGamePairs_eq_ok hpentanomial (hmoments _) hpositions]
  simp only [checkDivergentGames, hdivergent, validateAggregate, ensure_bind_eq_ok, hmoments,
    ok_bind]
  constructor
  · rintro ⟨hgames, ⟨drawn, hagrees⟩, hconsistent, hcheck⟩
    have hrest := (checkDivergent_eq_ok hagrees.isConsistent hconsistent).1 hcheck
    exact ⟨hgames, ⟨drawn, hagrees⟩, hconsistent, hrest.2⟩
  · rintro ⟨hgames, ⟨drawn, hagrees⟩, hconsistent, hrest⟩
    have heven : response.allGames.games % 2 = 0 := by
      have htwice := hagrees.games
      omega
    exact ⟨hgames, ⟨drawn, hagrees⟩, hconsistent,
      (checkDivergent_eq_ok hagrees.isConsistent hconsistent).2 ⟨heven, hrest⟩⟩

def Nothing (all : GameAggregate) (pentanomial : Fin 5 → ℤ) (divergent : GameAggregate) : Prop :=
  all = ⟨0, 0, 0, 0⟩ ∧ pentanomial = (fun _ ↦ 0) ∧ divergent = ⟨0, 0, 0, 0⟩

theorem nothing_of_fits (h : Fits all pentanomial divergent) (hgames : all.games = 0) :
    Nothing all pentanomial divergent := by
  obtain ⟨⟨drawn, hwhole⟩, hconsistent, split, drawn', hrest⟩ := h
  obtain ⟨hgames'', hwins, hlosses, hties, htotal⟩ := of_decide_eq_true hconsistent
  obtain ⟨hnonneg, hdrawn, hle, hgames', hwins', hlosses', hties'⟩ := hwhole
  obtain ⟨hsplit, hdrawn', hw, hl, ht, hunsplit⟩ := hrest
  have h₀ := hnonneg 0
  have h₁ := hnonneg 1
  have h₃ := hnonneg 3
  have h₄ := hnonneg 4
  refine ⟨?_, funext fun i ↦ ?_, ?_⟩
  · ext
    all_goals
      dsimp only
      omega
  · match i with
    | 0 | 1 | 2 | 3 | 4 => omega
  · ext
    all_goals
      dsimp only
      omega

theorem realises_of_nothing (h : Nothing all pentanomial divergent) :
    Realises [] all pentanomial divergent := by
  obtain ⟨rfl, rfl, rfl⟩ := h
  exact ⟨rfl, rfl, fun _ hpair ↦ absurd hpair List.not_mem_nil, rfl⟩

/-- A result that fits is of some pairs only where the subset covers those outside the middle
bucket; and the refused result of no games is of no pairs. -/
theorem processGamePairs_exact_iff {checks : Checks P} {response : GameResultsResponse P}
    (hpentanomial : response.pentanomial = some pentanomial)
    (hdivergent : response.divergentGames = some divergent)
    (hmoments : ∀ field, checks.gameAggregate response.rest field = .ok ())
    (hpositions : checks.validatePositions response.rest = .ok ()) :
    ((∃ record, processGamePairs checks response = .ok record) ↔
      ∃ played, Realises played response.allGames pentanomial divergent) ↔
        ¬ Nothing response.allGames pentanomial divergent ∧
          (Fits response.allGames pentanomial divergent → Covers pentanomial divergent) := by
  rw [processGamePairs_eq_ok_of_divergent hpentanomial hdivergent hmoments hpositions]
  constructor
  · intro h
    have hnothing : ¬ Nothing response.allGames pentanomial divergent := by
      intro hnothing
      have haccepted := h.2 ⟨[], realises_of_nothing hnothing⟩
      rw [hnothing.1] at haccepted
      exact haccepted.1 rfl
    refine ⟨hnothing, fun hfits ↦ ?_⟩
    have hgames : response.allGames.games ≠ 0 := fun hzero ↦ hnothing (nothing_of_fits hfits hzero)
    exact (realisable_iff.1 (h.1 ⟨hgames, hfits⟩)).2
  · rintro ⟨hnothing, hcovers⟩
    rw [realisable_iff]
    refine ⟨fun ⟨_, hfits⟩ ↦ ⟨hfits, hcovers hfits⟩, fun ⟨hfits, _⟩ ↦ ⟨?_, hfits⟩⟩
    exact fun hzero ↦ hnothing (nothing_of_fits hfits hzero)

/-- Three pairs, of which the one won twice diverged. -/
theorem processGamePairs_exact_iff_won :
    (∃ record, processGamePairs ⟨fun _ _ ↦ .ok (), fun _ ↦ .ok (), fun _ ↦ .ok ()⟩
      ⟨⟨6, 3, 1, 2⟩, some ![0, 0, 2, 0, 1], some ⟨2, 2, 0, 0⟩, ()⟩ = .ok record) ↔
        ∃ played, Realises played ⟨6, 3, 1, 2⟩ ![0, 0, 2, 0, 1] ⟨2, 2, 0, 0⟩ := by
  refine (processGamePairs_exact_iff rfl rfl (fun _ ↦ rfl) rfl).2 ⟨?_, fun _ ↦ ?_⟩
  · exact fun h ↦ absurd h.1 (by decide)
  · exact ⟨by decide, by decide⟩

/-- Two wins, two losses and four draws, of a pair in each of buckets 1 and 3 and two in the middle
one: of the subset of a win and a loss twice, no pair is one that must have diverged. -/
theorem not_processGamePairs_exact :
    ¬ ((∃ record, processGamePairs ⟨fun _ _ ↦ .ok (), fun _ ↦ .ok (), fun _ ↦ .ok ()⟩
      ⟨⟨8, 2, 2, 4⟩, some ![0, 1, 2, 1, 0], some ⟨4, 2, 2, 0⟩, ()⟩ = .ok record) ↔
        ∃ played, Realises played ⟨8, 2, 2, 4⟩ ![0, 1, 2, 1, 0] ⟨4, 2, 2, 0⟩) := by
  intro h
  have hcovers := (realisable_iff.1 (h.1 ⟨_, rfl⟩)).2
  exact absurd hcovers.1 (by decide)

end Divergent

end Birdtest.Jobs.Game
