import Birdtest.Base.Checked
import Birdtest.Stats.MatchTest
import Mathlib.Algebra.BigOperators.Group.List.Basic
import Mathlib.Algebra.Ring.Int.Defs
import Mathlib.Data.Fin.VecNotation
import Mathlib.Data.Int.Notation

namespace Birdtest.Jobs.Game

open Birdtest.Base.Checked Birdtest.Stats

variable {F P : Type}

structure GameAggregate where
  games : ℤ
  wins : ℤ
  losses : ℤ
  ties : ℤ
  deriving DecidableEq

structure GameResultsResponse (P : Type) where
  allGames : GameAggregate
  pentanomial : Option (Fin 5 → ℤ)
  divergentGames : Option GameAggregate
  /-- The scores and the captured positions. -/
  rest : P

structure GameResultsRecord where
  allGames : GameAggregate
  pentanomial : Option (Fin 5 → ℤ)
  divergentGames : Option GameAggregate

/-- What is checked of the scores (`check_game_aggregate`) and of the captured positions, as a
response is read and once its batch is found to be of the right size. -/
structure Checks (P : Type) where
  gameAggregate : P → String → Except String Unit
  validatePositions : P → Except String Unit
  capturedPositions : P → Except String Unit

def GameAggregate.isConsistent (aggregate : GameAggregate) : Bool :=
  0 ≤ aggregate.games ∧ 0 ≤ aggregate.wins ∧ 0 ≤ aggregate.losses ∧ 0 ≤ aggregate.ties ∧
    aggregate.wins + aggregate.losses + aggregate.ties = aggregate.games

def validateAggregate (aggregate : GameAggregate) (field : String) : Except String Unit :=
  ensure (aggregate.isConsistent = true)
    s!"{field}: wins + losses + ties must equal games, and all must be non-negative"

/-- `GameHandler::process_response` -/
def processGames (checks : Checks P) (response : GameResultsResponse P) :
    Except String GameResultsRecord := do
  validateAggregate response.allGames "all_games"
  checks.gameAggregate response.rest "all_games"
  ensure (response.allGames.games ≠ 0) "a games result must contain at least one game"
  checks.validatePositions response.rest
  .ok ⟨response.allGames, none, none⟩

def checkDivergentAgainstTheWhole (all : GameAggregate) (pentanomial : Fin 5 → ℤ)
    (divergent : GameAggregate) : Except String Unit := do
  let wins := all.wins - divergent.wins
  let losses := all.losses - divergent.losses
  let ties := all.ties - divergent.ties
  ensure (0 ≤ wins ∧ 0 ≤ losses ∧ 0 ≤ ties)
    "divergent_games has more wins, losses or draws than all_games"
  ensure (wins = losses ∧ ties % 2 = 0)
    "the pairs outside divergent_games must each be a win and a loss or two draws"
  let unsplit := pentanomial 0 + pentanomial 1 + pentanomial 3 + pentanomial 4
  let diverged := divergent.games / 2
  ensure (unsplit ≤ diverged)
    s!"{unsplit} pairs were not split, and divergent_games says only {diverged} diverged"

def checkDivergentGames (checks : Checks P) (response : GameResultsResponse P)
    (pentanomial : Fin 5 → ℤ) : Except String Unit :=
  match response.divergentGames with
  | none => .ok ()
  | some divergent => do
    validateAggregate divergent "divergent_games"
    checks.gameAggregate response.rest "divergent_games"
    ensure (divergent.games % 2 = 0 ∧ divergent.games ≤ response.allGames.games)
      "divergent_games must be even and no larger than the total games played"
    checkDivergentAgainstTheWhole response.allGames pentanomial divergent

def checkPentanomial (all : GameAggregate) (pentanomial : Fin 5 → ℤ) : Except String Unit := do
  ensure (∀ i, 0 ≤ pentanomial i ∧ pentanomial i ≤ all.games)
    "pentanomial counts must be non-negative, and none can exceed the games played"
  let counts : Pentanomial := ⟨fun i ↦ (pentanomial i).toNat⟩
  ensure (counts.pairs * 2 = all.games.toNat)
    "pentanomial pair count must be exactly half the games played"
  ensure (counts.halfPoints = 2 * all.wins.toNat + all.ties.toNat)
    "pentanomial disagrees with the game counts about player 1's score"
  let drawsInEvenPairs := all.ties - pentanomial 1 - pentanomial 3
  ensure (0 ≤ drawsInEvenPairs ∧ drawsInEvenPairs % 2 = 0 ∧ drawsInEvenPairs / 2 ≤ pentanomial 2)
    "pentanomial disagrees with the game counts about the draws"

/-- `GamePairHandler::process_response` -/
def processGamePairs (checks : Checks P) (response : GameResultsResponse P) :
    Except String GameResultsRecord := do
  validateAggregate response.allGames "all_games"
  checks.gameAggregate response.rest "all_games"
  ensure (response.allGames.games ≠ 0 ∧ response.allGames.games % 2 = 0)
    "a game_pairs result must contain an even, non-zero number of games (two per pair)"
  match response.pentanomial with
  | none => .error "a game_pairs result must report a pentanomial"
  | some pentanomial => do
    checkPentanomial response.allGames pentanomial
    checkDivergentGames checks response pentanomial
    checks.validatePositions response.rest
    .ok ⟨response.allGames, some pentanomial, response.divergentGames⟩

def gamesDispatched (batchSize : ℤ) (gamePairs : Bool) : ℤ :=
  if gamePairs then min (batchSize * 2) (2 ^ 31 - 1) else batchSize

def checkBatchSize (reported expected : ℤ) : Except String Unit :=
  ensure (reported = expected)
    s!"result reports {reported} games but this task dispatched {expected}"

structure GameConfig (F : Type) where
  gamesPerBatch : ℤ
  testEnabled : Bool
  minGames : ℤ
  maxGames : ℤ
  confidencePct : F
  gamesPerBatch_pos : 1 ≤ gamesPerBatch
  maxGames_pos : 1 ≤ maxGames
  int32 : gamesPerBatch < 2 ^ 31 ∧ maxGames < 2 ^ 31

structure GamePairConfig (F : Type) where
  pairsPerBatch : ℤ
  testEnabled : Bool
  minPairs : ℤ
  maxPairs : ℤ
  confidencePct : F
  pairsPerBatch_pos : 1 ≤ pairsPerBatch
  maxPairs_pos : 1 ≤ maxPairs
  int32 : pairsPerBatch < 2 ^ 31 ∧ maxPairs < 2 ^ 31

inductive JobKind (F : Type)
  | games (config : GameConfig F)
  | gamePairs (config : GamePairConfig F)

def decodeResult (checks : Checks P) (kind : JobKind F) (response : GameResultsResponse P) :
    Except String GameResultsRecord :=
  match kind with
  | .games config => do
    let record ← processGames checks response
    checkBatchSize record.allGames.games (gamesDispatched config.gamesPerBatch false)
    checks.capturedPositions response.rest
    .ok record
  | .gamePairs config => do
    let record ← processGamePairs checks response
    checkBatchSize record.allGames.games (gamesDispatched config.pairsPerBatch true)
    checks.capturedPositions response.rest
    .ok record

structure TestParams (F : Type) where
  enabled : Bool
  minUnits : ℤ
  maxUnits : ℤ
  confidencePct : F

def JobKind.testParams : JobKind F → TestParams F
  | .games config => ⟨config.testEnabled, config.minGames, config.maxGames, config.confidencePct⟩
  | .gamePairs config =>
    ⟨config.testEnabled, config.minPairs, config.maxPairs, config.confidencePct⟩

structure GameStats (F : Type) where
  unit : TestUnit
  wins : ℕ
  losses : ℕ
  draws : ℕ
  unitsCompleted : ℕ
  pentanomial : Option Pentanomial
  minUnits : ℤ
  maxUnits : ℤ
  test : Option (TestResult F)

inductive Finish (F : Type)
  | test (result : TestResult F) (units : ℕ)
  | reachedTarget

section Stats

variable [Double F]

def buildGameStats (unit : TestUnit) (tally : Tally) (sample : Sample F) (unitsCompleted : ℕ)
    (pentanomial : Option Pentanomial) (params : TestParams F) : GameStats F where
  unit
  wins := tally.wins
  losses := tally.losses
  draws := tally.draws
  unitsCompleted
  pentanomial
  minUnits := params.minUnits
  maxUnits := params.maxUnits
  test := if params.enabled then
      some (evaluate sample unit unitsCompleted params.confidencePct params.minUnits.toNat
        params.maxUnits.toNat)
    else none

def sumOf (results : List GameResultsRecord) (column : GameResultsRecord → ℤ) : ℤ :=
  (results.map column).sum

def tallyOf (results : List GameResultsRecord) : Tally where
  wins := (sumOf results (·.allGames.wins)).toNat
  losses := (sumOf results (·.allGames.losses)).toNat
  draws := (sumOf results (·.allGames.ties)).toNat

def pent (i : Fin 5) (record : GameResultsRecord) : ℤ := (record.pentanomial.map (· i)).getD 0

def gameStats (kind : JobKind F) (results : List GameResultsRecord) : GameStats F :=
  let tally := tallyOf results
  match kind with
  | .games _ =>
    let games := (sumOf results (·.allGames.games)).toNat
    buildGameStats .game tally (Sample.fromGames tally) games none kind.testParams
  | .gamePairs _ =>
    let pentanomial : Pentanomial := ⟨fun i ↦ (sumOf results (pent i)).toNat⟩
    buildGameStats .pair tally (Sample.fromPentanomial pentanomial) pentanomial.pairs
      (some pentanomial) kind.testParams

def finishConditionMet (kind : JobKind F) (results : List GameResultsRecord) : Option (Finish F) :=
  let games := gameStats kind results
  match games.test with
  | some test => if test.status.isFinished then some (.test test games.unitsCompleted) else none
  | none => if games.maxUnits.toNat ≤ games.unitsCompleted then some .reachedTarget else none

end Stats

section Units

variable {checks : Checks P} {response : GameResultsResponse P} {record : GameResultsRecord}

def JobKind.batch : JobKind F → ℤ
  | .games config => config.gamesPerBatch
  | .gamePairs config => config.pairsPerBatch

def Played (kind : JobKind F) (record : GameResultsRecord) : Prop :=
  match kind with
  | .games _ => record.allGames.games = kind.batch
  | .gamePairs _ => (∀ i, 0 ≤ pent i record) ∧
    pent 0 record + pent 1 record + pent 2 record + pent 3 record + pent 4 record = kind.batch

theorem of_checkPentanomial {all : GameAggregate} {pentanomial : Fin 5 → ℤ}
    (hgames : 0 ≤ all.games) (h : checkPentanomial all pentanomial = .ok ()) :
    (∀ i, 0 ≤ pentanomial i) ∧ 2 * (pentanomial 0 + pentanomial 1 + pentanomial 2 +
      pentanomial 3 + pentanomial 4) = all.games := by
  obtain ⟨⟨⟩, hcounts, h⟩ := bind_eq_ok h
  obtain ⟨⟨⟩, hpairs, -⟩ := bind_eq_ok h
  have hnonneg (i : Fin 5) : 0 ≤ pentanomial i := (of_ensure_eq_ok hcounts i).1
  have hsum := of_ensure_eq_ok hpairs
  simp only [Pentanomial.pairs] at hsum
  have h₀ := hnonneg 0
  have h₁ := hnonneg 1
  have h₂ := hnonneg 2
  have h₃ := hnonneg 3
  have h₄ := hnonneg 4
  exact ⟨hnonneg, by omega⟩

theorem of_processGamePairs (h : processGamePairs checks response = .ok record) :
    (∀ i, 0 ≤ pent i record) ∧ 2 * (pent 0 record + pent 1 record + pent 2 record +
      pent 3 record + pent 4 record) = record.allGames.games := by
  obtain ⟨⟨⟩, hconsistent, h⟩ := bind_eq_ok h
  obtain ⟨⟨⟩, -, h⟩ := bind_eq_ok h
  obtain ⟨⟨⟩, -, h⟩ := bind_eq_ok h
  have hgames : 0 ≤ response.allGames.games :=
    (of_decide_eq_true (of_ensure_eq_ok hconsistent)).1
  cases hpentanomial : response.pentanomial with
  | none =>
    rw [hpentanomial] at h
    cases h
  | some pentanomial =>
    rw [hpentanomial] at h
    obtain ⟨⟨⟩, hcheck, h⟩ := bind_eq_ok h
    obtain ⟨⟨⟩, -, h⟩ := bind_eq_ok h
    obtain ⟨⟨⟩, -, h⟩ := bind_eq_ok h
    cases h
    exact of_checkPentanomial hgames hcheck

theorem played_of_decodeResult {kind : JobKind F}
    (h : decodeResult checks kind response = .ok record) : Played kind record := by
  cases kind with
  | games config =>
    obtain ⟨record', -, h⟩ := bind_eq_ok h
    obtain ⟨⟨⟩, hsize, h⟩ := bind_eq_ok h
    obtain ⟨⟨⟩, -, h⟩ := bind_eq_ok h
    cases h
    have hgames : record.allGames.games = config.gamesPerBatch := of_ensure_eq_ok hsize
    exact hgames
  | gamePairs config =>
    obtain ⟨record', hrecord, h⟩ := bind_eq_ok h
    obtain ⟨⟨⟩, hsize, h⟩ := bind_eq_ok h
    obtain ⟨⟨⟩, -, h⟩ := bind_eq_ok h
    cases h
    obtain ⟨hnonneg, htwice⟩ := of_processGamePairs hrecord
    have hgames : record.allGames.games = min (config.pairsPerBatch * 2) (2 ^ 31 - 1) :=
      of_ensure_eq_ok hsize
    -- A batch whose games do not fit has an odd number of them, which no pairs make.
    refine ⟨hnonneg, ?_⟩
    change _ = config.pairsPerBatch
    omega

theorem sumOf_cons (record : GameResultsRecord) (results : List GameResultsRecord)
    (column : GameResultsRecord → ℤ) :
    sumOf (record :: results) column = column record + sumOf results column := by
  rw [sumOf, List.map_cons, List.sum_cons, sumOf]

theorem sumOf_nonneg {results : List GameResultsRecord} {column : GameResultsRecord → ℤ}
    (h : ∀ record ∈ results, 0 ≤ column record) : 0 ≤ sumOf results column := by
  induction results with
  | nil => exact Int.le_refl 0
  | cons record results ih =>
    have hrest := ih fun record' hrecord' ↦ h record' (List.mem_cons_of_mem _ hrecord')
    have hfirst := h record List.mem_cons_self
    rw [sumOf_cons]
    omega

theorem sumOf_games {results : List GameResultsRecord} {n : ℤ}
    (h : ∀ record ∈ results, record.allGames.games = n) :
    sumOf results (·.allGames.games) = results.length * n := by
  induction results with
  | nil => simp [sumOf]
  | cons record results ih =>
    have hrest := ih fun record' hrecord' ↦ h record' (List.mem_cons_of_mem _ hrecord')
    rw [sumOf_cons, hrest, h record List.mem_cons_self, List.length_cons, Int.natCast_succ,
      Int.add_mul, Int.one_mul, Int.add_comm]

theorem sumOf_pent {results : List GameResultsRecord} {kind : JobKind F}
    (h : ∀ record ∈ results, pent 0 record + pent 1 record + pent 2 record + pent 3 record +
      pent 4 record = kind.batch) :
    sumOf results (pent 0) + sumOf results (pent 1) + sumOf results (pent 2) +
      sumOf results (pent 3) + sumOf results (pent 4) = results.length * kind.batch := by
  induction results with
  | nil => simp [sumOf]
  | cons record results ih =>
    have hrest := ih fun record' hrecord' ↦ h record' (List.mem_cons_of_mem _ hrecord')
    have hfirst := h record List.mem_cons_self
    simp only [sumOf_cons, List.length_cons]
    rw [Int.natCast_succ, Int.add_mul]
    omega

variable [Double F]

/-- The units that the finish check counts are a batch for each result. -/
theorem unitsCompleted_eq {kind : JobKind F} {results : List GameResultsRecord}
    (h : ∀ record ∈ results, Played kind record) (hbatch : 0 ≤ kind.batch) :
    ((gameStats kind results).unitsCompleted : ℤ) = results.length * kind.batch := by
  cases kind with
  | games config =>
    change ((sumOf results (·.allGames.games)).toNat : ℤ) = results.length * config.gamesPerBatch
    rw [sumOf_games h]
    exact Int.toNat_of_nonneg (Int.mul_nonneg (Int.natCast_nonneg _) hbatch)
  | gamePairs config =>
    have hsum := sumOf_pent fun record hrecord ↦ (h record hrecord).2
    have hnonneg (i : Fin 5) : 0 ≤ sumOf results (pent i) :=
      sumOf_nonneg fun record hrecord ↦ (h record hrecord).1 i
    have h₀ := hnonneg 0
    have h₁ := hnonneg 1
    have h₂ := hnonneg 2
    have h₃ := hnonneg 3
    have h₄ := hnonneg 4
    rw [← hsum]
    simp only [gameStats, buildGameStats, Pentanomial.pairs]
    omega

/-- Once its cap is played a job is done, with a verdict or without a test. -/
theorem finishConditionMet_of_le {kind : JobKind F} {results : List GameResultsRecord}
    (h : kind.testParams.maxUnits.toNat ≤ (gameStats kind results).unitsCompleted) :
    (finishConditionMet kind results).isSome = true := by
  have hstats : ∃ (unit : TestUnit) (tally : Tally) (sample : Sample F)
      (pentanomial : Option Pentanomial), gameStats kind results = buildGameStats unit tally sample
        (gameStats kind results).unitsCompleted pentanomial kind.testParams := by
    cases kind
    · exact ⟨_, _, _, _, rfl⟩
    · exact ⟨_, _, _, _, rfl⟩
  obtain ⟨unit, tally, sample, pentanomial, hstats⟩ := hstats
  rw [finishConditionMet, hstats]
  cases henabled : kind.testParams.enabled with
  | true =>
    simp only [buildGameStats, henabled, if_true, evaluate]
    rw [isFinished_statusOf _ _ h]
    rfl
  | false =>
    simp only [buildGameStats, henabled, Bool.false_eq_true, if_false]
    rw [if_pos h]
    rfl

end Units

end Birdtest.Jobs.Game
