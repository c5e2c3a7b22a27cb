import Birdtest.Admin.Players
import Birdtest.Board
import Birdtest.Jobs.Finish
import Birdtest.Jobs.OpeningRack.Requests
import Birdtest.Version

namespace Birdtest.Admin.Jobs

open Birdtest.Base Birdtest.Base.Checked Birdtest.Admin.Solvers Birdtest.Admin.Players
open Birdtest.Jobs.Finish (JobType)
open Birdtest.Models.Job (JobStatus)
open Birdtest.Jobs
open Birdtest.Jobs.Racks (Quoted Text)

section Body

structure TestRequest where
  testEnabled : Bool := false
  confidencePct : Option ℚ := none

structure LeaveConfig where
  playerConfigId : ℕ
  numIterations : ℤ
  targetRackCounts : List ℤ
  racksPerTask : ℤ

structure OpeningRackConfig where
  playerConfigId : ℕ
  racksPerBatch : ℤ := 500
  rackSize : ℤ := 7
  consensusPct : ℚ := 100
  minResultsPerRack : ℤ := 1
  maxResultsPerRack : ℤ := 1

structure GameConfig where
  playerConfigIds : List ℕ
  gamesPerBatch : ℤ := 2
  maxGames : ℤ
  minGames : Option ℤ := none
  test : TestRequest := {}
  capturePositions : Bool := false
  captureFirstDivergence : Bool := false
  threadingMode : String := "igp"

structure GamePairConfig where
  playerConfigIds : List ℕ
  pairsPerBatch : ℤ := 1
  maxPairs : ℤ
  minPairs : Option ℤ := none
  test : TestRequest := {}
  capturePositions : Bool := false
  captureFirstDivergence : Bool := false
  threadingMode : String := "igp"

inductive JobTypeConfig
  | leave (config : LeaveConfig)
  | openingRack (config : OpeningRackConfig)
  | game (config : GameConfig)
  | gamePair (config : GamePairConfig)

structure CreateJobBody where
  title : Option Text := none
  jobType : JobType
  variant : String
  letterdistId : ℕ
  layoutId : ℕ
  minMagpieVersion : Option Text := none
  bingoBonus : Option ℤ := none
  simCutoff : Option ℚ := none
  maxTaskSeconds : Option ℤ := none
  config : JobTypeConfig

end Body

section Limits

def minTaskSeconds : ℤ := 600
def maxTaskSeconds : ℤ := 86400
def defaultTaskSeconds : ℤ := 3600
def maxRacksPerBatch : ℤ := 10000
def maxResultsPerRack : ℤ := 100
def maxGamesPerBatch : ℤ := 10000
def maxCapturedGamesPerBatch : ℤ := 1000
def maxBingoBonus : ℤ := 500
def maxRoundRobinConfigs : ℕ := 12
def maxRacksPerTask : ℤ := 10000
def maxLeaveGenerations : ℕ := 100
def maxTargetRackCount : ℤ := 1000000
def magpieMaxWordmapBlanks : ℕ := 2

def bingoBonusDefault : ℤ := 50

def simCutoffDefault : ℚ := 5764607523034235 / 1152921504606846976

end Limits

section Validate

def timeLimitProblem (seconds : ℤ) : Option String :=
  if ¬(minTaskSeconds ≤ seconds ∧ seconds ≤ maxTaskSeconds) then
    some s!"must be between {minTaskSeconds} and {maxTaskSeconds} (ten minutes to a day)"
  else none

def problemFields (field : String) (problem : Option String) : Fields :=
  (problem.map fun message ↦ (field, message)).toList

def jobTitle (body : CreateJobBody) : Text := trim (body.title.getD [])

def simCutoffFields (jobType : JobType) (cutoff : ℚ) : Fields :=
  if ¬(0 ≤ cutoff ∧ cutoff ≤ 100) then [("sim_cutoff", "must be between 0 and 100")]
  else
    refuse (jobType = .leaveGeneration) "sim_cutoff"
      "a leave job never simulates, so it has no cutoff: leave it out"

def gamesBatchFields (unit : String) (gamesPerUnit batch : ℤ) (capture : Bool) : Fields :=
  let cap := (if capture then maxCapturedGamesPerBatch else maxGamesPerBatch) / gamesPerUnit
  refuse (cap < batch) s!"{unit}s_per_batch"
    (s!"must be at most {cap}" ++ if capture then " when capturing positions" else "")

def consensusFields (consensusPct : ℚ) (least most : ℤ) : Fields :=
  refuse (¬(50 < consensusPct ∧ consensusPct ≤ 100)) "consensus_pct"
    "must be above 50 and at most 100" ++
  if ¬(1 ≤ least ∧ least ≤ maxResultsPerRack) then
    [("min_results_per_rack", s!"must be between 1 and {maxResultsPerRack}")]
  else
    refuse (¬(least ≤ most ∧ most ≤ maxResultsPerRack)) "max_results_per_rack"
      s!"must be between min_results_per_rack ({least}) and {maxResultsPerRack}"

def named : List ℕ → List ℕ → Option ℕ
  | _, [] => none
  | seen, id :: ids => if id ∈ seen then some id else named (id :: seen) ids

def roundRobinFields (ids : List ℕ) : Fields :=
  (if ids = [] then [("player_config_ids", "must name at least one player")]
  else
    refuse (maxRoundRobinConfigs < ids.length) "player_config_ids"
      (s!"must name at most {maxRoundRobinConfigs} players (" ++
        s!"{maxRoundRobinConfigs * (maxRoundRobinConfigs - 1) / 2} jobs)")) ++
  problemFields "player_config_ids"
    ((named [] ids).map fun twice ↦
      s!"names {twice} twice; name a player alone for a self-play job")

def threadingModeFields (threadingMode : String) : Fields :=
  refuse (threadingMode ∉ ["igp", "pgp"]) "threading_mode" "must be 'igp' or 'pgp'"

def minUnitsFields (unit : String) (minUnits : Option ℤ) (maxUnits : ℤ) : Fields :=
  match minUnits with
  | none => [(s!"min_{unit}s", "is required when the job runs the match test")]
  | some least =>
    if least < 1 then [(s!"min_{unit}s", "must be at least 1")]
    else refuse (maxUnits < least ∧ 1 ≤ maxUnits) s!"min_{unit}s"
      s!"must be at most max_{unit}s ({maxUnits})"

def TestRequest.confidence (test : TestRequest) : ℚ := test.confidencePct.getD 95

def matchTestFields (unit : String) (batch : ℤ) (minUnits : Option ℤ) (maxUnits : ℤ)
    (test : TestRequest) :
    Fields :=
  refuse (batch < 1) s!"{unit}s_per_batch" "must be at least 1" ++
  refuse (maxUnits < 1) s!"max_{unit}s" "must be at least 1" ++
  if ¬test.testEnabled then
    refuseStated [(s!"min_{unit}s", minUnits.isSome), ("confidence_pct", test.confidencePct.isSome)]
      "is a setting of the match test: send test_enabled: true to run it, or leave it out"
  else
    minUnitsFields unit minUnits maxUnits ++
    refuse (¬(50 < test.confidence ∧ test.confidence < 100)) "confidence_pct"
    "must be above 50 and below 100"

def targetFields (targets : List ℤ) : Fields :=
  if targets = [] then [("target_rack_counts", "must list at least one generation's target")]
  else if maxLeaveGenerations < targets.length then
    [("target_rack_counts", s!"must list at most {maxLeaveGenerations} generations")]
  else
    problemFields "target_rack_counts"
      ((targets.find? fun t ↦ ¬(1 ≤ t ∧ t ≤ maxTargetRackCount)).map fun bad ↦
        s!"every target must be between 1 and {maxTargetRackCount}, not {bad}")

def OpeningRackConfig.fields (config : OpeningRackConfig) : Fields :=
  refuse (¬(1 ≤ config.racksPerBatch ∧ config.racksPerBatch ≤ maxRacksPerBatch)) "racks_per_batch"
    s!"must be between 1 and {maxRacksPerBatch}" ++
  refuse (¬(1 ≤ config.rackSize ∧ config.rackSize ≤ Racks.rackSize)) "rack_size"
    s!"must be between 1 and {Racks.rackSize}" ++
  consensusFields config.consensusPct config.minResultsPerRack config.maxResultsPerRack

def GameConfig.fields (config : GameConfig) : Fields :=
  roundRobinFields config.playerConfigIds ++ threadingModeFields config.threadingMode ++
  matchTestFields "game" config.gamesPerBatch config.minGames config.maxGames config.test ++
  gamesBatchFields "game" 1 config.gamesPerBatch config.capturePositions ++
  refuse config.captureFirstDivergence "capture_first_divergence"
    "a games job plays no pairs, so its games have no first divergence" ++
  refuse (1 ≤ config.gamesPerBatch ∧ config.gamesPerBatch % 2 ≠ 0) "games_per_batch"
    "must be even, so each player moves first in half of every task's games"

def GamePairConfig.fields (config : GamePairConfig) : Fields :=
  roundRobinFields config.playerConfigIds ++ threadingModeFields config.threadingMode ++
  matchTestFields "pair" config.pairsPerBatch config.minPairs config.maxPairs config.test ++
  refuse (config.captureFirstDivergence ∧ ¬config.capturePositions) "capture_first_divergence"
    "keeps only some of the positions a job captures, so it needs capture_positions" ++
  gamesBatchFields "pair" 2 config.pairsPerBatch config.capturePositions

def LeaveConfig.fields (config : LeaveConfig) : Fields :=
  refuse (config.numIterations < 1) "num_iterations" "must be at least 1" ++
  refuse (config.racksPerTask < 1) "racks_per_task" "must be at least 1" ++
  targetFields config.targetRackCounts ++
  refuse (maxRacksPerTask < config.racksPerTask) "racks_per_task"
    s!"must be at most {maxRacksPerTask}"

def JobTypeConfig.fields : JobTypeConfig → Fields
  | .leave config => config.fields
  | .openingRack config => config.fields
  | .game config => config.fields
  | .gamePair config => config.fields

def validateJobBody (body : CreateJobBody) : Fields :=
  problemFields "title" (nameProblem (jobTitle body)) ++
  refuse (body.variant ∉ ["classic", "wordsmog"]) "variant" "must be 'classic' or 'wordsmog'" ++
  refuseEach [("bingo_bonus", body.bingoBonus)] (fun b ↦ ¬(0 ≤ b ∧ b ≤ maxBingoBonus))
    s!"must be between 0 and {maxBingoBonus}" ++
  problemFields "max_task_seconds" (body.maxTaskSeconds.bind timeLimitProblem) ++
  body.simCutoff.elim [] (simCutoffFields body.jobType) ++
  refuseEach [("min_magpie_version", body.minMagpieVersion)]
    (fun text ↦ (Version.parseStrict text).isNone) "must be a version such as 0.1.1" ++
  body.config.fields

end Validate

section Rows

/-- The columns of `jobs` that a job is made with the defaults of, and that what serves it
writes. -/
structure JobProgress where
  status : JobStatus := .inactive
  allocation : ℤ := 0
  claimsIssued : ℤ := 0
  testDecidedStatus : Option String := none
  testDecidedLower : Option ℚ := none
  testDecidedUpper : Option ℚ := none
  testDecidedUnits : Option ℤ := none
  timeLimitDeclines : ℤ := 0
  timeLimitStreak : ℤ := 0
  gamesCompleted : ℤ := 0
  racksAnalyzed : ℤ := 0
  racksSettled : ℤ := 0
  racksWithoutConsensus : ℤ := 0
  tasksTotal : ℤ := 0
  tasksCompleted : ℤ := 0
  movegens : ℤ := 0
  computeMs : ℤ := 0

structure JobRow where
  title : Text
  jobType : JobType
  variant : String
  letterdistId : ℕ
  layoutId : ℕ
  minMagpie : Version
  bingoBonus : ℤ
  simCutoff : ℚ
  maxTaskSeconds : ℤ
  progress : JobProgress

structure OpeningRackRow where
  playerConfigId : ℕ
  racksPerBatch : ℤ
  rackSize : ℤ
  totalRacks : ℤ
  consensusPct : ℚ
  minResultsPerRack : ℤ
  maxResultsPerRack : ℤ
  deriving DecidableEq

structure GameRow where
  player1ConfigId : ℕ
  player2ConfigId : ℕ
  gamesPerBatch : ℤ
  testEnabled : Bool
  minGames : ℤ
  maxGames : ℤ
  confidencePct : ℚ
  capturePositions : Bool
  threadingMode : String

structure GamePairRow where
  player1ConfigId : ℕ
  player2ConfigId : ℕ
  pairsPerBatch : ℤ
  testEnabled : Bool
  minPairs : ℤ
  maxPairs : ℤ
  confidencePct : ℚ
  capturePositions : Bool
  captureFirstDivergence : Bool
  threadingMode : String

structure LeaveRow where
  playerConfigId : ℕ
  numIterations : ℤ
  targetRackCounts : List ℤ
  racksPerTask : ℤ

/-- The row that a job has in one of the four tables of configs. -/
inductive ConfigRow
  | openingRack (row : OpeningRackRow)
  | game (row : GameRow)
  | gamePair (row : GamePairRow)
  | leave (row : LeaveRow)

def ConfigRow.jobType : ConfigRow → JobType
  | .openingRack _ => .openingRack
  | .game _ => .games
  | .gamePair _ => .gamePairs
  | .leave _ => .leaveGeneration

end Rows

section Schema

def below (a most : ℚ) : Sql.Truth :=
  Sql.compare (fun a most : ℚ ↦ decide (a < most)) (some a) (some most)

def atMost (a most : ℚ) : Sql.Truth :=
  Sql.compare (fun a most : ℚ ↦ decide (a ≤ most)) (some a) (some most)

def within (a low high : ℤ) : Sql.Truth := Sql.between (some a) (some low) (some high)

def JobProgress.counts (progress : JobProgress) : List ℤ :=
  [progress.claimsIssued, progress.timeLimitDeclines, progress.timeLimitStreak,
    progress.gamesCompleted, progress.racksAnalyzed, progress.racksSettled,
    progress.racksWithoutConsensus, progress.tasksTotal, progress.tasksCompleted, progress.movegens,
    progress.computeMs]

def allocationIsStatus (progress : JobProgress) : Sql.Truth :=
  same (some (progress.status = .active)) (some (decide (0 < progress.allocation)))

def testDecidedTogether (progress : JobProgress) : Sql.Truth :=
  let stated := Sql.isNull progress.testDecidedStatus
  Sql.and
    (Sql.and (same stated (Sql.isNull progress.testDecidedLower))
      (same stated (Sql.isNull progress.testDecidedUpper)))
    (same stated (Sql.isNull progress.testDecidedUnits))

def JobProgress.checks (progress : JobProgress) : List Sql.Truth :=
  [within progress.allocation 0 100, allocationIsStatus progress,
    Sql.isIn progress.testDecidedStatus ["player1_better", "player2_better", "inconclusive"],
    testDecidedTogether progress] ++
    progress.counts.map fun n ↦ atLeast 0 (some n)

def JobRow.checks (row : JobRow) : List Sql.Truth :=
  [nameCheck row.title, within row.bingoBonus 0 500,
    Sql.and (atMost 0 row.simCutoff) (atMost row.simCutoff 100),
    atLeast 0 (some row.minMagpie.major), atLeast 0 (some row.minMagpie.minor),
    atLeast 0 (some row.minMagpie.patch), within row.maxTaskSeconds 600 86400] ++
    row.progress.checks

def OpeningRackRow.checks (row : OpeningRackRow) : List Sql.Truth :=
  [atLeast 1 (some row.racksPerBatch), within row.rackSize 1 7, atLeast 0 (some row.totalRacks),
    Sql.and (below 50 row.consensusPct) (atMost row.consensusPct 100),
    atLeast 1 (some row.minResultsPerRack),
    Sql.and (atLeast row.minResultsPerRack (some row.maxResultsPerRack))
      (Sql.compare (fun a most : ℤ ↦ decide (a ≤ most)) (some row.maxResultsPerRack) (some 100))]

/-- `job_game_config_counts`, which `job_game_pair_config_counts` is in pairs -/
def countsCheck (batch least most : ℤ) (testEnabled : Bool) : Sql.Truth :=
  Sql.and (Sql.and (Sql.and (atLeast 1 (some batch)) (atLeast 1 (some most)))
    (atLeast 0 (some least)))
    (Sql.or (some !testEnabled) (within least 1 most))

def confidenceCheck (confidencePct : ℚ) : Sql.Truth :=
  Sql.and (below 50 confidencePct) (below confidencePct 100)

def threadingModeCheck (threadingMode : String) : Sql.Truth :=
  Sql.isIn (some threadingMode) ["igp", "pgp"]

def GameRow.checks (row : GameRow) : List Sql.Truth :=
  [confidenceCheck row.confidencePct, threadingModeCheck row.threadingMode,
    countsCheck row.gamesPerBatch row.minGames row.maxGames row.testEnabled]

def GamePairRow.checks (row : GamePairRow) : List Sql.Truth :=
  [confidenceCheck row.confidencePct, threadingModeCheck row.threadingMode,
    Sql.or (some row.capturePositions) (some !row.captureFirstDivergence),
    countsCheck row.pairsPerBatch row.minPairs row.maxPairs row.testEnabled]

/-- Of the array only its elements: it is flat, starts at 1 and holds no NULL. -/
def LeaveRow.checks (row : LeaveRow) : List Sql.Truth :=
  [Sql.and (atLeast 1 (some row.targetRackCounts.length))
    (Sql.all (row.targetRackCounts.map fun t ↦ atLeast 1 (some t))),
    atLeast 1 (some row.racksPerTask)]

def ConfigRow.checks : ConfigRow → List Sql.Truth
  | .openingRack row => row.checks
  | .game row => row.checks
  | .gamePair row => row.checks
  | .leave row => row.checks

end Schema

section Plan

def seatings (ids : List ℕ) : List (ℕ × ℕ) :=
  ids.zipIdx.flatMap fun (a, i) ↦ (ids.drop (i + 1)).map fun b ↦ (a, b)

def JobTypeConfig.playerConfigIds : JobTypeConfig → Option (List ℕ)
  | .game config => some config.playerConfigIds
  | .gamePair config => some config.playerConfigIds
  | _ => none

def pairings (config : JobTypeConfig) : List (ℕ × ℕ) :=
  match config.playerConfigIds with
  | none => []
  | some [only] => [(only, only)]
  | some ids => seatings ids

def jobName (title : Text) : Option (Text × Text) → Text
  | none => trim title
  | some (a, b) =>
    let players := a ++ " vs ".toList ++ b
    if trim title = [] then players else trim title ++ ": ".toList ++ players

structure PlannedJob where
  name : Text
  pair : Option (ℕ × ℕ)
  pairing : Option Text
  deriving DecidableEq

def PlannedJob.qualify (plan : PlannedJob) (err : BadRequest) : BadRequest :=
  match plan.pairing with
  | none => err
  | some pairing => { err with message := String.ofList pairing ++ ": " ++ err.message }

variable (names : ℕ → Option Text) (body : CreateJobBody)

def isOneJob : List (ℕ × ℕ) → Bool
  | [(a, b)] => a = b
  | _ => false

def planPair (oneJob : Bool) (pair : ℕ × ℕ) : PlannedJob :=
  let a := (names pair.1).getD []
  let b := (names pair.2).getD []
  { name := jobName (jobTitle body) (some (a, b))
    pair := some pair
    pairing := if oneJob then none else some (a ++ " vs ".toList ++ b) }

def planJobs : Except BadRequest (List PlannedJob) :=
  let pairs := pairings body.config
  if pairs = [] then .ok [⟨jobTitle body, none, none⟩]
  else match (pairs.flatMap fun pair ↦ [pair.1, pair.2]).find? fun id ↦ (names id).isNone with
    | some missing =>
      .error ⟨"player not found", [("player_config_ids", s!"no such player: {missing}")]⟩
    | none => .ok (pairs.map (planPair names body (isOneJob pairs)))

end Plan

section Players

structure Reads where
  players : ℕ → Option PlayerConfig
  files : ℕ → Option InputData

variable (reads : Reads) (quoted : Quoted) (ldName : Text)

def validateSharedPlayerOptions (player1 player2 : ℕ) : Except BadRequest Unit :=
  if player1 = player2 then .ok ()
  else match reads.players player1, reads.players player2 with
    | some p1, some p2 =>
      -- only two that simulate can disagree
      ensure (p1.winpctId = none ∨ p2.winpctId = none ∨ p1.winpctId = p2.winpctId)
        ⟨"the players disagree on the win% model, which MAGPIE cannot vary per player", []⟩
    | _, _ => .error ⟨"player not found", []⟩

def Reads.playerFileNames (id : ℕ) : Option (Text × Text) := do
  let player ← reads.players id
  let kwg ← reads.files player.kwgId
  let klv ← reads.files player.klvId
  some (kwg.name.toList, klv.name.toList)

def playerFiles : List (String × ℕ) → Except BadRequest (List Compat.PlayerFiles)
  | [] => .ok []
  | (label, id) :: rest => match reads.playerFileNames id with
    | none => .error ⟨"no such player", []⟩
    | some (lexicon, leaves) => (playerFiles rest).map (⟨label, lexicon, leaves⟩ :: ·)

def validatePlayerCompatibility (players : List (String × ℕ)) : Except BadRequest Unit := do
  let files ← playerFiles reads players
  (Compat.validateJobFiles quoted ldName files).mapError (⟨·, []⟩)

def capturesShort (player : PlayerConfig) : Bool :=
  0 < player.numPlies ∧ player.numPlays < player.numPlaysRecorded

def captureRefusal (player : PlayerConfig) : BadRequest :=
  ⟨"job settings are invalid", [("capture_positions",
    s!"{String.ofList player.name} simulates {player.numPlays} candidate plays, fewer than the " ++
    s!"{player.numPlaysRecorded} it captures per position; with capture on MAGPIE would raise " ++
    "it and play different games. Use a player with num_plays of at least " ++
    s!"{player.numPlaysRecorded}, or a lower num_plays_recorded.")]⟩

def validateCapturePlayCap (player1 player2 : ℕ) : Except BadRequest Unit :=
  each (fun player ↦ ensure (capturesShort player = false) (captureRefusal player))
    ([player1, player2].dedup.filterMap reads.players)

def validatePairing (capture : Bool) (pair : ℕ × ℕ) : Except BadRequest Unit := do
  validateSharedPlayerOptions reads pair.1 pair.2
  validatePlayerCompatibility reads quoted ldName [("player1", pair.1), ("player2", pair.2)]
  if capture then validateCapturePlayCap reads pair.1 pair.2 else .ok ()

def requirePlayer (id : ℕ) (message : String) : Except BadRequest PlayerConfig :=
  match reads.players id with
  | some player => .ok player
  | none => .error ⟨message, []⟩

def validateOpeningRackPlayer (id : ℕ) (maxResultsPerRack : ℤ) : Except BadRequest Unit := do
  let player ← requirePlayer reads id "player not found"
  ensure (¬(player.recorderType = "best" ∧ 1 < player.numPlaysRecorded ∧ player.numPlies = 0))
    ⟨"an opening-rack job cannot rank moves with a static 'best' recorder", [("player_config_id",
      "this static player records the single best move, so every rack would come back with one " ++
      s!"move rather than the {player.numPlaysRecorded} it asks for. Use a player with " ++
      "recorder_type 'all' " ++
      "('equity' keeps only the moves within its equity margin), a simulating one, or set " ++
      "num_plays_recorded to 1.")]⟩
  ensure (player.numPlaysRecorded ≤ player.numPlays)
    ⟨"an opening-rack job cannot record more moves than its player generates", [("player_config_id",
      s!"this player generates {player.numPlays} plays per rack, so every rack would come back " ++
      s!"with at most {player.numPlays} moves rather than the {player.numPlaysRecorded} it " ++
      s!"asks for. Use a player with num_plays of at least {player.numPlaysRecorded}, or a " ++
      "lower num_plays_recorded.")]⟩
  ensure (¬(player.numPlies = 0 ∧ 1 < maxResultsPerRack))
    ⟨"a static player's analyses of a rack always agree, so there is no consensus to seek",
      [("max_results_per_rack",
        "a static player analyses each rack once: set min_results_per_rack and " ++
        "max_results_per_rack to 1, or use a simulating player")]⟩

def leaveProblems (player : PlayerConfig) : List String :=
  (if 0 < player.numPlies then
    [s!"simulates {player.numPlies} plies (it must play statically: num_plies 0)"] else []) ++
  (if player.sortStrategy ≠ "equity" then
    [s!"sorts on {player.sortStrategy} (it must sort on equity)"] else []) ++
  (if player.useRit then ["asks for a rack info table (it must not)"] else []) ++
  if 0 < player.endgamePlies then
    [s!"solves endgames to {player.endgamePlies} plies (it must not: leave games end before the " ++
      "endgame, so set endgame_plies to 0)"] else []

def validateLeavePlayer (id : ℕ) : Except BadRequest Unit := do
  let player ← requirePlayer reads id "no such player"
  match reads.files player.kwgId with
  | none => .error ⟨"no such player", []⟩
  | some kwg => do
    ensure (leaveProblems player = [])
      ⟨"this player cannot generate leaves", [("player_config_id",
        "leave generation plays statically on equity; this player " ++
          ", ".intercalate (leaveProblems player))]⟩
    ensure (kwg.role = .kwg) ⟨s!"expected a kwg row, but {kwg.name} is a {roleText kwg.role} row",
      []⟩
    ensure (Compat.lexLdCompat kwg.name.toList ldName)
      ⟨s!"lexicon {quoted kwg.name.toList} is not compatible with letter distribution " ++
        quoted ldName, []⟩

end Players

section Create

variable (reads : Reads) (quoted : Quoted) (serverFloor : Text) (body : CreateJobBody)

structure CheckedJob where
  body : CreateJobBody
  floor : Version
  letterdistName : Text
  blanks : ℕ
  planned : List PlannedJob

def capturesPositions : JobTypeConfig → Bool
  | .game config => config.capturePositions
  | .gamePair config => config.capturePositions
  | _ => false

def bytesOf (file : InputData) : ByteArray := file.content.getD ByteArray.empty

def parseLetterdist (file : InputData) : Except BadRequest Racks.LetterDistribution :=
  (Racks.parse (bytesOf file) file.name).mapError fun e ↦
    ⟨"the letter distribution cannot be used", [("letterdist_id", e.message file.name quoted)]⟩

def blanksOf (distribution : Racks.LetterDistribution) : ℕ :=
  ((distribution.tiles.find? (·.letter = '?')).map (·.count)).getD 0

def qualified (plan : PlannedJob) (check : ℕ × ℕ → Except BadRequest Unit) :
    Except BadRequest Unit :=
  match plan.pair with
  | none => .ok ()
  | some pair => (check pair).mapError plan.qualify

def checkJob : Except BadRequest CheckedJob := do
  refuseFields "job settings are invalid" (validateJobBody body)
  let letterdist ← requireRole reads.files body.letterdistId .letterdist
  let layout ← requireRole reads.files body.layoutId .layout
  match Board.layoutProblem (bytesOf layout).data.toList with
  | some problem =>
    .error ⟨"the board layout cannot be used: every worker would fail every task",
      [("layout_id", problem.message quoted)]⟩
  | none => do
    let distribution ← parseLetterdist quoted letterdist
    let planned ← planJobs (fun id ↦ (reads.players id).map (·.name)) body
    each (fun plan ↦ qualified plan
      (validatePairing reads quoted letterdist.name.toList (capturesPositions body.config))) planned
    .ok ⟨body, Version.parseOrZero (body.minMagpieVersion.getD serverFloor), letterdist.name.toList,
      blanksOf distribution, planned⟩

def jobRow (checked : CheckedJob) : JobRow where
  title := jobTitle checked.body
  jobType := checked.body.jobType
  variant := checked.body.variant
  letterdistId := checked.body.letterdistId
  layoutId := checked.body.layoutId
  minMagpie := checked.floor
  bingoBonus := checked.body.bingoBonus.getD bingoBonusDefault
  simCutoff := checked.body.simCutoff.getD simCutoffDefault
  maxTaskSeconds := checked.body.maxTaskSeconds.getD defaultTaskSeconds
  progress := {}

def mismatch : BadRequest := ⟨"config fields do not match the requested job_type", []⟩

def rackIndex (letterdist : InputData) (size : ℕ) : Except BadRequest Racks.RackIndex := do
  let distribution ← parseLetterdist quoted letterdist
  (Racks.RackIndex.new distribution size).mapError fun reason ↦
    ⟨"cannot enumerate the racks of this distribution: " ++ reason.message letterdist.name quoted,
      []⟩

def openingRackRow (ldName : Text) (letterdist : InputData) (config : OpeningRackConfig) :
    Except BadRequest ConfigRow := do
  validatePlayerCompatibility reads quoted ldName [("player", config.playerConfigId)]
  validateOpeningRackPlayer reads config.playerConfigId config.maxResultsPerRack
  let index ← rackIndex quoted letterdist config.rackSize.toNat
  .ok (.openingRack
    { playerConfigId := config.playerConfigId
      racksPerBatch := config.racksPerBatch
      rackSize := config.rackSize
      totalRacks := OpeningRack.Requests.totalRacks index
      consensusPct := config.consensusPct
      minResultsPerRack := config.minResultsPerRack
      maxResultsPerRack := config.maxResultsPerRack })

def gameRow (config : GameConfig) : Option (ℕ × ℕ) → Except BadRequest ConfigRow
  | none => .error mismatch
  | some (player1, player2) => .ok (.game
    { player1ConfigId := player1
      player2ConfigId := player2
      gamesPerBatch := config.gamesPerBatch
      testEnabled := config.test.testEnabled
      minGames := config.minGames.getD 0
      maxGames := config.maxGames
      confidencePct := config.test.confidence
      capturePositions := config.capturePositions
      threadingMode := config.threadingMode })

def gamePairRow (config : GamePairConfig) : Option (ℕ × ℕ) → Except BadRequest ConfigRow
  | none => .error mismatch
  | some (player1, player2) => .ok (.gamePair
    { player1ConfigId := player1
      player2ConfigId := player2
      pairsPerBatch := config.pairsPerBatch
      testEnabled := config.test.testEnabled
      minPairs := config.minPairs.getD 0
      maxPairs := config.maxPairs
      confidencePct := config.test.confidence
      capturePositions := config.capturePositions
      captureFirstDivergence := config.captureFirstDivergence
      threadingMode := config.threadingMode })

def leaveRow (ldName : Text) (letterdist : InputData) (config : LeaveConfig) :
    Except BadRequest ConfigRow := do
  validateLeavePlayer reads quoted ldName config.playerConfigId
  let _ ← rackIndex quoted letterdist Racks.rackSize
  .ok (.leave ⟨config.playerConfigId, config.numIterations, config.targetRackCounts,
    config.racksPerTask⟩)

def jobConfig (checked : CheckedJob) (letterdist : InputData) (pair : Option (ℕ × ℕ)) :
    Except BadRequest ConfigRow :=
  match checked.body.jobType, checked.body.config with
  | .openingRack, .openingRack config =>
    openingRackRow reads quoted checked.letterdistName letterdist config
  | .games, .game config => gameRow config pair
  | .gamePairs, .gamePair config => gamePairRow config pair
  | .leaveGeneration, .leave config =>
    leaveRow reads quoted checked.letterdistName letterdist config
  | _, _ => .error mismatch

end Create

section Checks

variable {reads : Reads} {quoted : Quoted} {checked : CheckedJob} {body : CreateJobBody}
  {letterdist : InputData} {pair : Option (ℕ × ℕ)} {row : ConfigRow} {ldName : Text}
  {unit field : String} {batch most least : ℤ} {minUnits : Option ℤ} {test : TestRequest}

theorem problemFields_eq_nil {problem : Option String} : problemFields field problem = [] ↔
    problem = none := by
  cases problem <;> simp [problemFields]

theorem check_within {a low high : ℤ} : Sql.check (within a low high) ↔ low ≤ a ∧ a ≤ high := by
  rw [within, Sql.between, Sql.check_and, Sql.check_compare, Sql.check_compare, decide_eq_true_eq,
    decide_eq_true_eq]

theorem check_below {a most : ℚ} : Sql.check (below a most) ↔ a < most := by
  rw [below, Sql.check_compare, decide_eq_true_eq]

theorem check_atMost {a most : ℚ} : Sql.check (atMost a most) ↔ a ≤ most := by
  rw [atMost, Sql.check_compare, decide_eq_true_eq]

theorem length_of_nameProblem {name : Text} (h : nameProblem name = none) : name.length ≤ 100 := by
  by_contra hlong
  rw [nameProblem, if_pos (show maxNameChars < name.length from not_le.1 hlong)] at h
  cases h

structure ValidBody (body : CreateJobBody) : Prop where
  title : (jobTitle body).length ≤ 100
  bingoBonus : ∀ b ∈ body.bingoBonus, 0 ≤ b ∧ b ≤ 500
  maxTaskSeconds : ∀ n ∈ body.maxTaskSeconds, 600 ≤ n ∧ n ≤ 86400
  simCutoff : ∀ cutoff ∈ body.simCutoff, 0 ≤ cutoff ∧ cutoff ≤ 100
  version : ∀ text ∈ body.minMagpieVersion, (Version.parseStrict text).isSome
  config : body.config.fields = []

theorem validBody_of_validate (h : validateJobBody body = []) : ValidBody body := by
  simp only [validateJobBody, List.append_eq_nil_iff, problemFields_eq_nil, refuseEach_eq_nil,
    List.forall_mem_cons, List.not_mem_nil, false_implies, implies_true, and_true] at h
  obtain ⟨⟨⟨⟨⟨⟨htitle, -⟩, hbonus⟩, hseconds⟩, hcutoff⟩, hversion⟩, hconfig⟩ := h
  refine ⟨length_of_nameProblem htitle, fun b hb ↦ ?_, fun n hn ↦ ?_, fun cutoff hc ↦ ?_,
    fun text ht ↦ ?_, hconfig⟩
  · simpa [maxBingoBonus] using hbonus b hb
  · rw [show body.maxTaskSeconds = some n from hn, Option.bind_some, timeLimitProblem] at hseconds
    simpa [minTaskSeconds, maxTaskSeconds] using hseconds
  · rw [show body.simCutoff = some cutoff from hc, Option.elim_some, simCutoffFields] at hcutoff
    split_ifs at hcutoff with hrange
    exact hrange
  · simpa [Option.isSome_iff_ne_none] using hversion text ht

theorem check_progress : ∀ t ∈ ({} : JobProgress).checks, Sql.check t := by decide

theorem check_jobRow (h : ValidBody checked.body)
    (hfloor : 0 ≤ checked.floor.major ∧ 0 ≤ checked.floor.minor ∧ 0 ≤ checked.floor.patch) :
    ∀ t ∈ (jobRow checked).checks, Sql.check t := by
  rw [JobRow.checks, List.forall_mem_append]
  refine ⟨?_, check_progress⟩
  simp only [List.forall_mem_cons, List.not_mem_nil, false_implies, implies_true, and_true,
    Sql.check_and, check_within, check_atMost, check_atLeast_some]
  refine ⟨?_, ?_, ?_, hfloor.1, hfloor.2.1, hfloor.2.2, ?_⟩
  · rw [nameCheck, Sql.check_compare, decide_eq_true_eq]
    exact h.title
  · have hbonus := h.bingoBonus
    simp only [jobRow]
    cases hstated : checked.body.bingoBonus with
    | none => decide
    | some b => exact hbonus b hstated
  · have hcutoff := h.simCutoff
    simp only [jobRow]
    cases hstated : checked.body.simCutoff with
    | none => norm_num [simCutoffDefault]
    | some cutoff => exact hcutoff cutoff hstated
  · have hseconds := h.maxTaskSeconds
    simp only [jobRow]
    cases hstated : checked.body.maxTaskSeconds with
    | none => decide
    | some n => exact hseconds n hstated

theorem totalRacks_nonneg {distribution : Racks.LetterDistribution}
    {index : Racks.RackIndex} {size : ℕ} (hnew : Racks.RackIndex.new distribution size = .ok index)
    (hsize : size ≤ Racks.rackSize) :
    0 ≤ OpeningRack.Requests.totalRacks index := by
  obtain ⟨htiles, rfl⟩ := Racks.of_new hnew
  have hlength := Racks.length_draws_le_maxRacks distribution hsize
  have hlt := Racks.maxRacks_lt
  have htotal : index.total = min index.racks.length (2 ^ 64 - 1) := index.total_eq
  rw [Racks.RackIndex.racks, htiles] at htotal
  rw [OpeningRack.Requests.totalRacks, OpeningRack.Requests.wrapI64_eq (Int.natCast_nonneg _)]
  · exact Int.natCast_nonneg _
  · omega

theorem check_consensus {pct : ℚ} (h : consensusFields pct least most = []) :
    Sql.check (Sql.and (below 50 pct) (atMost pct 100)) ∧ Sql.check (atLeast 1 (some least)) ∧
      Sql.check (Sql.and (atLeast least (some most))
        (Sql.compare (fun a most : ℤ ↦ decide (a ≤ most)) (some most) (some 100))) := by
  rw [consensusFields, List.append_eq_nil_iff, refuse_eq_nil, not_not] at h
  obtain ⟨hpct, hresults⟩ := h
  split_ifs at hresults with hleast
  rw [refuse_eq_nil, not_not] at hresults
  rw [maxResultsPerRack] at hleast hresults
  simp only [Sql.check_and, check_below, check_atMost, check_atLeast_some, Sql.check_compare,
    decide_eq_true_eq]
  exact ⟨hpct, hleast.1, hresults⟩

theorem check_openingRackRow {config : OpeningRackConfig} (h : config.fields = [])
    (hrow : openingRackRow reads quoted ldName letterdist config = .ok row) :
    ∀ t ∈ row.checks, Sql.check t := by
  rw [openingRackRow] at hrow
  obtain ⟨⟨⟩, -, hrow⟩ := bind_eq_ok hrow
  obtain ⟨⟨⟩, -, hrow⟩ := bind_eq_ok hrow
  obtain ⟨index, hindex, hrow⟩ := bind_eq_ok hrow
  cases hrow
  obtain ⟨distribution, -, hindex⟩ := bind_eq_ok hindex
  have hnew := of_mapError_eq_ok hindex
  simp only [OpeningRackConfig.fields, List.append_eq_nil_iff, refuse_eq_nil, not_not] at h
  obtain ⟨⟨hbatch, hsize⟩, hconsensus⟩ := h
  rw [maxRacksPerBatch] at hbatch
  simp only [Racks.rackSize] at hsize
  simp only [ConfigRow.checks, OpeningRackRow.checks, List.forall_mem_cons, List.not_mem_nil,
    false_implies, implies_true, and_true]
  refine ⟨check_atLeast_some.2 hbatch.1, check_within.2 hsize, ?_, check_consensus hconsensus⟩
  refine check_atLeast_some.2 (totalRacks_nonneg hnew ?_)
  simp only [Racks.rackSize]
  omega

theorem of_matchTestFields (h : matchTestFields unit batch minUnits most test = []) :
    Sql.check (confidenceCheck test.confidence) ∧
      Sql.check (countsCheck batch (minUnits.getD 0) most test.testEnabled) := by
  simp only [matchTestFields, List.append_eq_nil_iff, refuse_eq_nil, not_lt] at h
  obtain ⟨⟨hbatch, hmost⟩, h⟩ := h
  simp only [confidenceCheck, countsCheck, Sql.check_and, Sql.check_or, check_below, check_within,
    check_atLeast_some]
  cases henabled : test.testEnabled with
  | false =>
    rw [henabled, if_pos Bool.false_ne_true, refuseStated_eq_nil] at h
    simp only [List.forall_mem_cons, Option.isSome_eq_false_iff, Option.isNone_iff_eq_none] at h
    obtain ⟨rfl, hconfidence, -⟩ := h
    rw [TestRequest.confidence, hconfidence]
    exact ⟨by norm_num, ⟨⟨hbatch, hmost⟩, Int.le_refl 0⟩, .inl (Sql.check_some.2 rfl)⟩
  | true =>
    rw [henabled, if_neg (not_not.2 rfl), List.append_eq_nil_iff, refuse_eq_nil, not_not] at h
    obtain ⟨hleast, hconfidence⟩ := h
    cases minUnits with
    | none => cases hleast
    | some least =>
      rw [minUnitsFields] at hleast
      split_ifs at hleast with hpos
      rw [refuse_eq_nil] at hleast
      rw [Option.getD_some]
      exact ⟨hconfidence, ⟨⟨hbatch, hmost⟩, by omega⟩, .inr ⟨by omega, by omega⟩⟩

theorem check_threadingMode {mode : String} (h : threadingModeFields mode = []) :
    Sql.check (threadingModeCheck mode) := by
  rw [threadingModeFields, refuse_eq_nil, not_not] at h
  rw [threadingModeCheck, Sql.isIn, Sql.check_compare, decide_eq_true_eq]
  exact h

theorem check_gameRow {config : GameConfig} (h : config.fields = [])
    (hrow : gameRow config pair = .ok row) :
    ∀ t ∈ row.checks, Sql.check t := by
  obtain _ | ⟨player1, player2⟩ := pair
  · cases hrow
  cases hrow
  simp only [GameConfig.fields, List.append_eq_nil_iff] at h
  obtain ⟨⟨⟨⟨⟨-, hmode⟩, htest⟩, -⟩, -⟩, -⟩ := h
  obtain ⟨hconfidence, hcounts⟩ := of_matchTestFields htest
  simp only [ConfigRow.checks, GameRow.checks, List.forall_mem_cons, List.not_mem_nil,
    false_implies, implies_true, and_true]
  exact ⟨hconfidence, check_threadingMode hmode, hcounts⟩

theorem check_gamePairRow {config : GamePairConfig} (h : config.fields = [])
    (hrow : gamePairRow config pair = .ok row) : ∀ t ∈ row.checks, Sql.check t := by
  obtain _ | ⟨player1, player2⟩ := pair
  · cases hrow
  cases hrow
  simp only [GamePairConfig.fields, List.append_eq_nil_iff, refuse_eq_nil] at h
  obtain ⟨⟨⟨⟨-, hmode⟩, htest⟩, hcapture⟩, -⟩ := h
  obtain ⟨hconfidence, hcounts⟩ := of_matchTestFields htest
  simp only [ConfigRow.checks, GamePairRow.checks, List.forall_mem_cons, List.not_mem_nil,
    false_implies, implies_true, and_true]
  refine ⟨hconfidence, check_threadingMode hmode, ?_, hcounts⟩
  rw [Sql.check_or]
  cases hpositions : config.capturePositions with
  | true => exact .inl (Sql.check_some.2 rfl)
  | false =>
    refine .inr ?_
    cases hdivergence : config.captureFirstDivergence with
    | false => exact Sql.check_some.2 rfl
    | true => exact absurd ⟨hdivergence, by simp [hpositions]⟩ hcapture

theorem check_leaveRow {config : LeaveConfig} (h : config.fields = [])
    (hrow : leaveRow reads quoted ldName letterdist config = .ok row) :
    ∀ t ∈ row.checks, Sql.check t := by
  rw [leaveRow] at hrow
  obtain ⟨⟨⟩, -, hrow⟩ := bind_eq_ok hrow
  obtain ⟨index, -, hrow⟩ := bind_eq_ok hrow
  cases hrow
  simp only [LeaveConfig.fields, List.append_eq_nil_iff, refuse_eq_nil, not_lt] at h
  obtain ⟨⟨⟨-, hracks⟩, htargets⟩, -⟩ := h
  simp only [ConfigRow.checks, LeaveRow.checks, List.forall_mem_cons, List.not_mem_nil,
    false_implies, implies_true, and_true, Sql.check_and, Sql.check_all, List.mem_map,
    forall_exists_index, and_imp,
    forall_apply_eq_imp_iff₂, check_atLeast_some]
  refine ⟨⟨?_, fun t ht ↦ ?_⟩, hracks⟩
  · rw [targetFields] at htargets
    split_ifs at htargets with hempty
    have hlength := List.length_pos_iff.2 hempty
    omega
  · rw [targetFields] at htargets
    split_ifs at htargets
    rw [problemFields_eq_nil, Option.map_eq_none_iff, List.find?_eq_none] at htargets
    have hbounds := htargets t ht
    simp only [decide_eq_true_eq, not_not] at hbounds
    exact hbounds.1

theorem jobType_of_jobConfig (hrow : jobConfig reads quoted checked letterdist pair = .ok row) :
    row.jobType = checked.body.jobType := by
  rw [jobConfig] at hrow
  split at hrow
  · next config htype hconfig =>
    rw [openingRackRow] at hrow
    obtain ⟨⟨⟩, -, hrow⟩ := bind_eq_ok hrow
    obtain ⟨⟨⟩, -, hrow⟩ := bind_eq_ok hrow
    obtain ⟨index, -, hrow⟩ := bind_eq_ok hrow
    cases hrow
    exact htype.symm
  · next config htype hconfig =>
    obtain _ | ⟨player1, player2⟩ := pair
    · cases hrow
    · cases hrow
      exact htype.symm
  · next config htype hconfig =>
    obtain _ | ⟨player1, player2⟩ := pair
    · cases hrow
    · cases hrow
      exact htype.symm
  · next config htype hconfig =>
    rw [leaveRow] at hrow
    obtain ⟨⟨⟩, -, hrow⟩ := bind_eq_ok hrow
    obtain ⟨index, -, hrow⟩ := bind_eq_ok hrow
    cases hrow
    exact htype.symm
  · cases hrow

theorem check_jobConfig (h : ValidBody checked.body)
    (hrow : jobConfig reads quoted checked letterdist pair = .ok row) :
    ∀ t ∈ row.checks, Sql.check t := by
  have hfields := h.config
  rw [jobConfig] at hrow
  split at hrow
  · next config htype hconfig =>
    rw [hconfig] at hfields
    exact check_openingRackRow hfields hrow
  · next config htype hconfig =>
    rw [hconfig] at hfields
    exact check_gameRow hfields hrow
  · next config htype hconfig =>
    rw [hconfig] at hfields
    exact check_gamePairRow hfields hrow
  · next config htype hconfig =>
    rw [hconfig] at hfields
    exact check_leaveRow hfields hrow
  · cases hrow

end Checks

end Birdtest.Admin.Jobs
