import Birdtest.Admin.Solvers
import Birdtest.Compat
import Birdtest.Derived.Cache
import Mathlib.Data.Rat.Floor

namespace Birdtest.Admin.Players

open Birdtest.Base Birdtest.Base.Checked Birdtest.Admin.Solvers Birdtest.Compat
open Birdtest.Derived.Cache (InputFile)
open Birdtest.Inputdata (InputRole)
open Birdtest.Jobs.Racks (Quoted Text isWhitespace trimMatches)

structure BadRequest where
  message : String
  fields : Fields := []
  deriving DecidableEq

structure InputData extends InputFile where
  tarballDate : String
  content : Option ByteArray

structure CreatePlayerConfigBody extends Solvers.CreatePlayerConfigBody where
  name : Text
  recorderType : String
  sortStrategy : Option String
  kwgId : ℕ
  klvId : ℕ
  winpctId : Option ℕ
  clonedFromId : Option ℕ
  maxIterations : Option ℤ
  numPlies : Option ℤ
  numPliesRecorded : Option ℤ
  numPlays : Option ℤ
  numPlaysRecorded : ℤ
  stoppingPct : Option ℚ
  useInference : Option Bool
  timeLimitSecs : Option ℤ
  movegensPerMove : Option ℤ
  useWordmap : Option Bool
  useRit : Option Bool
  useWit : Option Bool
  minPlayIterations : Option ℤ
  threshold : Option String
  samplingRule : Option String
  inferenceMargin : Option ℚ
  utilityWWinpct : Option ℚ
  utilityWSpread : Option ℚ
  utilitySpreadScale : Option ℚ
  movegenMargin : Option ℚ

structure PlayerConfig extends SolverSettings where
  name : Text
  recorderType : String
  sortStrategy : String
  kwgId : ℕ
  klvId : ℕ
  winpctId : Option ℕ
  clonedFromId : Option ℕ
  numPlies : ℤ
  numPliesRecorded : ℤ
  numPlays : ℤ
  numPlaysRecorded : ℤ
  maxIterations : Option ℤ
  stoppingPct : Option ℚ
  useInference : Option Bool
  timeLimitSecs : Option ℤ
  useWordmap : Bool
  useRit : Bool
  useWit : Bool
  minPlayIterations : Option ℤ
  threshold : Option String
  samplingRule : Option String
  inferenceMargin : Option ℚ
  utilityWWinpct : Option ℚ
  utilityWSpread : Option ℚ
  utilitySpreadScale : Option ℚ
  movegenMargin : ℚ
  movegensPerMove : Option ℤ
  deriving DecidableEq

section Settings

def magpieMaxPlies : ℤ := 25
def magpieMaxCapturedPlies : ℤ := 10

def magpieMaxMargin : ℚ := 4611686011984937 / 2147483648

def maxNumPlays : ℤ := 200000
def maxNumPlaysRecorded : ℤ := 32767
def maxNameChars : ℕ := 100

def isControl (c : Char) : Bool := c.toNat < 0x20 ∨ (0x7F ≤ c.toNat ∧ c.toNat < 0xA0)

def trim (text : Text) : Text := trimMatches isWhitespace text

def nameProblem (name : Text) : Option String :=
  if maxNameChars < name.length then some s!"at most {maxNameChars} characters"
  else if name.any fun c ↦ isControl c ∨ c.toNat = 0x2028 ∨ c.toNat = 0x2029 then
    some "one line, with no control characters"
  else none

def refuseEach {α : Type} (stated : List (String × Option α)) (p : α → Bool) (message : String) :
    Fields :=
  stated.flatMap fun (field, value) ↦ refuse (value.any p) field message

variable (body : CreatePlayerConfigBody)

def nameFields : Fields :=
  if trim body.name = [] then [("name", "must not be empty")]
  else (nameProblem (trim body.name)).elim [] fun problem ↦ [("name", problem)]

def validatePlayerConfigBody : Fields :=
  nameFields body ++
  refuseEach
    [("max_iterations", body.maxIterations), ("num_plays", body.numPlays),
      ("num_plies_recorded", body.numPliesRecorded),
      ("min_play_iterations", body.minPlayIterations)]
    (· < 1) "must be at least 1" ++
  refuse (body.numPlaysRecorded < 1) "num_plays_recorded" "must be at least 1" ++
  refuseEach [("num_plays", body.numPlays)] (maxNumPlays < ·) s!"must be at most {maxNumPlays}" ++
  refuse (maxNumPlaysRecorded < body.numPlaysRecorded) "num_plays_recorded"
    s!"must be at most {maxNumPlaysRecorded}" ++
  refuseEach [("num_plies", body.numPlies)] (· < 0) "must not be negative" ++
  refuseEach [("num_plies", body.numPlies)] (magpieMaxPlies < ·)
    s!"must be at most {magpieMaxPlies}" ++
  refuseEach [("num_plies_recorded", body.numPliesRecorded)] (magpieMaxCapturedPlies < ·)
    s!"must be at most {magpieMaxCapturedPlies}" ++
  refuseEach [("time_limit_secs", body.timeLimitSecs)] (· < 0) "must not be negative" ++
  refuseEach [("movegens_per_move", body.movegensPerMove)] (· < 1)
    "must be at least 1, or left empty for no budget" ++
  refuseEach [("stopping_pct", body.stoppingPct)] (fun v ↦ ¬(0 < v ∧ v < 100))
    "must be strictly between 0 and 100" ++
  refuseEach
    [("inference_margin", body.inferenceMargin), ("movegen_margin", body.movegenMargin),
      ("utility_w_winpct", body.utilityWWinpct), ("utility_w_spread", body.utilityWSpread)]
    (· < 0) "must be a finite, non-negative number" ++
  refuseEach [("inference_margin", body.inferenceMargin), ("movegen_margin", body.movegenMargin)]
    (magpieMaxMargin < ·) "must be at most 2147483.645" ++
  refuseEach [("utility_spread_scale", body.utilitySpreadScale)] (· ≤ 0)
    "must be a finite, positive number"

end Settings

section Create

def roleText : InputRole → String
  | .kwg => "kwg"
  | .klv => "klv"
  | .letterdist => "letterdist"
  | .layout => "layout"
  | .winpct => "winpct"

def refuseFields (message : String) (fields : Fields) : Except BadRequest Unit :=
  ensure (fields = []) ⟨message, fields⟩

variable (files : ℕ → Option InputData) (quoted : Quoted) (body : CreatePlayerConfigBody)

def requireRole (id : ℕ) (role : InputRole) : Except BadRequest InputData :=
  match files id with
  | none => .error ⟨s!"no input data row {id}", []⟩
  | some file =>
    if file.role ≠ role then
      .error ⟨s!"expected a {roleText role} row, but {file.name} is a {roleText file.role} row", []⟩
    else .ok file

def requireWinpct : Option ℕ → Except BadRequest Unit
  | none => .ok ()
  | some id => (requireRole files id .winpct).map fun _ ↦ ()

def simming : Bool := body.numPlies.any (1 ≤ ·)

def statesSimulation : Bool :=
  body.maxIterations.isSome || body.stoppingPct.isSome || body.useInference.isSome ||
    body.timeLimitSecs.isSome || body.minPlayIterations.isSome || body.threshold.isSome ||
    body.samplingRule.isSome || body.inferenceMargin.isSome || body.utilityWWinpct.isSome ||
    body.utilityWSpread.isSome || body.utilitySpreadScale.isSome

def defaultNumPlays : ℤ := 100

def simmerFields : Fields :=
  refuse (body.maxIterations = none) "max_iterations"
    "a simming player must set an iteration budget" ++
  refuse (body.timeLimitSecs ≠ some 0) "time_limit_secs"
    ("must be 0 for a simming player: a time limit makes results depend on the contributor's " ++
      "hardware, so the iteration budget bounds a simulation instead") ++
  refuse (body.numPlays.getD defaultNumPlays < 2) "num_plays"
    ("a simming player needs at least 2 candidate plays: with one, MAGPIE plays it without " ++
      "simulating")

def simulated {α : Type} (stated : Option α) (default : α) : Option α :=
  if simming body then some (stated.getD default) else none

def playerRow (solver : SolverSettings) : PlayerConfig := { solver with
  name := trim body.name
  recorderType := body.recorderType
  sortStrategy := body.sortStrategy.getD "equity"
  kwgId := body.kwgId
  klvId := body.klvId
  winpctId := body.winpctId
  clonedFromId := body.clonedFromId
  numPlies := body.numPlies.getD 0
  numPliesRecorded := body.numPliesRecorded.getD 2
  numPlays := body.numPlays.getD defaultNumPlays
  numPlaysRecorded := body.numPlaysRecorded
  maxIterations := body.maxIterations
  stoppingPct := simulated body body.stoppingPct 99
  useInference := simulated body body.useInference true
  timeLimitSecs := body.timeLimitSecs
  useWordmap := body.useWordmap.getD true
  useRit := body.useRit.getD true
  useWit := body.useWit.getD true
  minPlayIterations := simulated body body.minPlayIterations 500
  threshold := simulated body body.threshold "gk16"
  samplingRule := simulated body body.samplingRule "top_two_ids"
  inferenceMargin := simulated body body.inferenceMargin 5
  utilityWWinpct := simulated body body.utilityWWinpct 1
  utilityWSpread := simulated body body.utilityWSpread (1 / 2)
  utilitySpreadScale := simulated body body.utilitySpreadScale 100
  movegenMargin := body.movegenMargin.getD 5
  movegensPerMove := body.movegensPerMove }

def createPlayerConfig : Except BadRequest PlayerConfig := do
  refuseFields "player settings are invalid" (validatePlayerConfigBody body)
  let solver ← (resolveSolverSettings body.toCreatePlayerConfigBody).mapError
    (⟨"player settings are invalid", ·⟩)
  ensure (body.recorderType ∈ ["best", "equity", "all"])
    ⟨"recorder_type must be 'best', 'equity' or 'all'", []⟩
  ensure (∀ sort ∈ body.sortStrategy, sort ∈ ["equity", "score"])
    ⟨"sort_strategy must be 'equity', 'score' or null", []⟩
  ensure (∀ threshold ∈ body.threshold, threshold ∈ ["none", "gk16"])
    ⟨"threshold must be 'none', 'gk16' or null", []⟩
  ensure (∀ rule ∈ body.samplingRule, rule ∈ ["round_robin", "top_two_ids"])
    ⟨"sampling_rule must be 'round_robin', 'top_two_ids' or null", []⟩
  let kwg ← requireRole files body.kwgId .kwg
  let klv ← requireRole files body.klvId .klv
  requireWinpct files body.winpctId
  ensure (¬(statesSimulation body ∧ ¬simming body))
    ⟨"player settings are invalid",
      [("num_plies", "a simming player must simulate at least 1 ply")]⟩
  refuseFields "player settings are invalid" (if simming body then simmerFields body else [])
  ensure (¬(simming body ∧ body.winpctId = none))
    ⟨"a simming player must name a win% model (winpct_id)", []⟩
  ensure (¬(¬simming body ∧ body.winpctId ≠ none))
    ⟨"a static player must not name a win% model: MAGPIE never loads one for it", []⟩
  (validateLexiconAndLeaves quoted kwg.name.toList klv.name.toList).mapError (⟨·, []⟩)
  .ok (playerRow body solver)

end Create

section Schema

variable (row : PlayerConfig)

def atLeast (least : ℤ) (a : Option ℤ) : Sql.Truth :=
  Sql.compare (fun least a : ℤ ↦ decide (least ≤ a)) (some least) a

def nameCheck (name : Text) : Sql.Truth :=
  Sql.compare (fun a most : ℕ ↦ decide (a ≤ most)) (some name.length) (some 100)

def simulationColumns : List Bool :=
  [row.winpctId.isSome, row.maxIterations.isSome, row.stoppingPct.isSome, row.useInference.isSome,
    row.timeLimitSecs.isSome, row.minPlayIterations.isSome, row.threshold.isSome,
    row.samplingRule.isSome, row.inferenceMargin.isSome, row.utilityWWinpct.isSome,
    row.utilityWSpread.isSome, row.utilitySpreadScale.isSome]

/-- `player_configs_simulation_settings` -/
def simulationSettingsCheck : Sql.Truth :=
  Sql.or
    (Sql.and (isPositive row.numPlies) (Sql.all ((simulationColumns row).map some)))
    (Sql.and (isZero row.numPlies)
      (Sql.all ((simulationColumns row).map fun stated ↦ some (!stated))))

def checks : List Sql.Truth :=
  [nameCheck row.name, atLeast 0 (some row.numPlies), atLeast 1 (some row.numPliesRecorded),
    atLeast 1 (some row.numPlays), atLeast 1 (some row.numPlaysRecorded),
    atLeast 1 row.movegensPerMove,
    simulationSettingsCheck row, solverSettingsCheck row.toSolverSettings]

end Schema

section Accepted

variable {files : ℕ → Option InputData} {quoted : Quoted} {body : CreatePlayerConfigBody}
  {row : PlayerConfig} {message : String} {fields : Fields} {id : ℕ} {role : InputRole}
  {file : InputData}

theorem refuseFields_eq_ok : refuseFields message fields = .ok () ↔ fields = [] := ensure_eq_ok

theorem requireRole_eq_ok : requireRole files id role = .ok file ↔ files id = some file ∧
    file.role = role := by
  rw [requireRole]
  cases files id with
  | none => simp
  | some found =>
    dsimp only
    split_ifs with hrole
    · simp only [Option.some.injEq, false_iff]
      rintro ⟨rfl, h⟩
      exact hrole h
    · rw [not_not] at hrole
      simp only [Except.ok.injEq, Option.some.injEq, iff_self_and]
      rintro rfl
      exact hrole

theorem of_mapError_eq_ok {α ε ε' : Type} {x : Except ε α} {f : ε → ε'} {a : α}
    (h : x.mapError f = .ok a) : x = .ok a := by
  cases x with
  | error e => cases h
  | ok b => simpa [Except.mapError] using h

structure Accepted (files : ℕ → Option InputData) (body : CreatePlayerConfigBody)
    (row : PlayerConfig) :
    Prop where
  valid : validatePlayerConfigBody body = []
  solver : ∃ solver, resolveSolverSettings body.toCreatePlayerConfigBody = .ok solver ∧
    row = playerRow body solver
  pinned : ∃ kwg klv, files body.kwgId = some kwg ∧ kwg.role = .kwg ∧ files body.klvId = some klv ∧
    klv.role = .klv ∧ lexLexCompat kwg.name.toList klv.name.toList = true
  winpct : ∀ id ∈ body.winpctId, ∃ file, files id = some file ∧ file.role = .winpct
  static : simming body = false → statesSimulation body = false ∧ body.winpctId = none
  simmer : simming body = true → simmerFields body = [] ∧ body.winpctId.isSome

theorem of_requireWinpct {winpctId : Option ℕ} (h : requireWinpct files winpctId = .ok ()) :
    ∀ id ∈ winpctId, ∃ file, files id = some file ∧ file.role = .winpct := by
  rintro id hid
  cases winpctId with
  | none => cases hid
  | some given =>
    cases hid
    rw [requireWinpct] at h
    cases hrole : requireRole files id .winpct with
    | error e =>
      rw [hrole] at h
      cases h
    | ok file => exact ⟨file, requireRole_eq_ok.1 hrole⟩

theorem accepted_of_createPlayerConfig (h : createPlayerConfig files quoted body = .ok row) :
    Accepted files body row := by
  rw [createPlayerConfig] at h
  obtain ⟨⟨⟩, hvalid, h⟩ := bind_eq_ok h
  obtain ⟨solver, hsolver, h⟩ := bind_eq_ok h
  simp only [ensure_bind_eq_ok] at h
  obtain ⟨-, -, -, -, h⟩ := h
  obtain ⟨kwg, hkwg, h⟩ := bind_eq_ok h
  obtain ⟨klv, hklv, h⟩ := bind_eq_ok h
  obtain ⟨⟨⟩, hwinpct, h⟩ := bind_eq_ok h
  rw [ensure_bind_eq_ok] at h
  obtain ⟨hstates, h⟩ := h
  obtain ⟨⟨⟩, hsimmer, h⟩ := bind_eq_ok h
  simp only [ensure_bind_eq_ok] at h
  obtain ⟨hnamed, hunnamed, h⟩ := h
  obtain ⟨⟨⟩, hcompat, h⟩ := bind_eq_ok h
  rw [requireRole_eq_ok] at hkwg hklv
  rw [refuseFields_eq_ok] at hvalid hsimmer
  have hcompat := of_ensure_eq_ok (of_mapError_eq_ok hcompat)
  exact {
    valid := hvalid
    solver := ⟨solver, of_mapError_eq_ok hsolver, (Except.ok.inj h).symm⟩
    pinned := ⟨kwg, klv, hkwg.1, hkwg.2, hklv.1, hklv.2, hcompat⟩
    winpct := of_requireWinpct hwinpct
    static := fun hstatic ↦ by simpa [hstatic] using And.intro hstates hunnamed
    simmer := fun hsimming ↦ by
      rw [if_pos hsimming] at hsimmer
      exact ⟨hsimmer, by simpa [hsimming, Option.isSome_iff_ne_none] using hnamed⟩ }

end Accepted

section Checks

variable {files : ℕ → Option InputData} {quoted : Quoted} {body : CreatePlayerConfigBody}
  {row : PlayerConfig} {message : String}

theorem refuseEach_eq_nil {α : Type} {stated : List (String × Option α)} {p : α → Bool} :
    refuseEach stated p message = [] ↔ ∀ setting ∈ stated, ∀ v ∈ setting.2, p v = false := by
  simp only [refuseEach, List.flatMap_eq_nil_iff, refuse_eq_nil, Option.any_eq_true, not_exists,
    not_and, Bool.not_eq_true, Option.mem_def]

structure Bounded (body : CreatePlayerConfigBody) : Prop where
  name : (trim body.name).length ≤ 100
  maxIterations : ∀ n ∈ body.maxIterations, 1 ≤ n
  numPlays : ∀ n ∈ body.numPlays, 1 ≤ n
  numPliesRecorded : ∀ n ∈ body.numPliesRecorded, 1 ≤ n
  numPlaysRecorded : 1 ≤ body.numPlaysRecorded
  numPlies : ∀ n ∈ body.numPlies, 0 ≤ n
  movegensPerMove : ∀ n ∈ body.movegensPerMove, 1 ≤ n

theorem length_of_nameFields (h : nameFields body = []) : (trim body.name).length ≤ 100 := by
  rw [nameFields] at h
  split_ifs at h
  by_contra hlong
  rw [nameProblem, if_pos (show maxNameChars < (trim body.name).length from not_le.1 hlong)] at h
  cases h

theorem bounded_of_validate (h : validatePlayerConfigBody body = []) : Bounded body := by
  simp only [validatePlayerConfigBody, List.append_eq_nil_iff, refuseEach_eq_nil, refuse_eq_nil,
    List.forall_mem_cons, List.not_mem_nil, false_implies, implies_true, and_true,
    decide_eq_false_iff_not, not_lt] at h
  obtain ⟨⟨⟨⟨⟨⟨⟨⟨⟨⟨⟨⟨⟨hname, hpositive⟩, hrecorded⟩, -⟩, -⟩, hplies⟩, -⟩, -⟩, -⟩, hmovegens⟩, -⟩,
      -⟩, -⟩, -⟩ := h
  exact {
    name := length_of_nameFields hname
    maxIterations := hpositive.1
    numPlays := hpositive.2.1
    numPliesRecorded := hpositive.2.2.1
    numPlaysRecorded := hrecorded
    numPlies := hplies
    movegensPerMove := hmovegens }

theorem le_getD {least default : ℤ} {stated : Option ℤ} (h : ∀ n ∈ stated, least ≤ n)
    (hdefault : least ≤ default) : least ≤ stated.getD default := by
  cases stated with
  | none => exact hdefault
  | some n => exact h n rfl

theorem check_atLeast {least : ℤ} {a : Option ℤ} :
    Sql.check (atLeast least a) ↔ ∀ n ∈ a, least ≤ n := by
  cases a with
  | none => simp [atLeast, Sql.compare, Sql.check]
  | some n =>
    rw [atLeast, Sql.check_compare, decide_eq_true_eq]
    simp

theorem check_atLeast_some {least a : ℤ} : Sql.check (atLeast least (some a)) ↔ least ≤ a := by
  rw [check_atLeast]
  simp

theorem simming_iff : simming body = true ↔ 0 < body.numPlies.getD 0 := by
  cases hplies : body.numPlies with
  | none => simp [simming, hplies]
  | some n => simp [simming, hplies, Int.lt_iff_add_one_le]

theorem check_simulationSettings (h : Accepted files body row) (hplies : 0 ≤ body.numPlies.getD 0) :
    Sql.check (simulationSettingsCheck row) := by
  obtain ⟨solver, -, rfl⟩ := h.solver
  rw [simulationSettingsCheck, Sql.check_or, Sql.check_and, Sql.check_and, Sql.check_all,
    Sql.check_all]
  cases hsimming : simming body with
  | true =>
    obtain ⟨hfields, hwinpct⟩ := h.simmer hsimming
    refine .inl ⟨?_, ?_⟩
    · rw [isPositive, Sql.check_compare, decide_eq_true_eq]
      exact simming_iff.1 hsimming
    · simp only [simmerFields, List.append_eq_nil_iff, refuse_eq_nil, not_not, ← ne_eq,
        Option.ne_none_iff_isSome] at hfields
      simp [simulationColumns, playerRow, simulated, hsimming, hwinpct, hfields.1.1,
        hfields.1.2, Sql.check]
  | false =>
    obtain ⟨hstates, hwinpct⟩ := h.static hsimming
    refine .inr ⟨?_, ?_⟩
    · rw [isZero, Sql.check_compare, decide_eq_true_eq]
      have hnot : ¬0 < body.numPlies.getD 0 := fun hpos ↦ by
        rw [simming_iff.2 hpos] at hsimming
        cases hsimming
      exact le_antisymm (not_lt.1 hnot) hplies
    · simp only [statesSimulation, Bool.or_eq_false_iff] at hstates
      simp [simulationColumns, playerRow, simulated, hsimming, hwinpct, hstates, Sql.check]

/-- No player that is accepted is one that the table refuses. -/
theorem check_of_createPlayerConfig (h : createPlayerConfig files quoted body = .ok row) :
    ∀ t ∈ checks row, Sql.check t := by
  have haccepted := accepted_of_createPlayerConfig h
  have hbounded := bounded_of_validate haccepted.valid
  have hplies := le_getD hbounded.numPlies (Int.le_refl 0)
  have hsimulation := check_simulationSettings haccepted hplies
  obtain ⟨solver, hsolver, hrow⟩ := haccepted.solver
  obtain ⟨hfollows, hsolver⟩ := resolveSolverSettings_eq_ok.1 hsolver
  have hsettings : row.toSolverSettings = rowOf body.toCreatePlayerConfigBody := by
    rw [hrow, ← hsolver]; rfl
  simp only [checks, List.forall_mem_cons, List.not_mem_nil, false_implies, implies_true, and_true]
  refine ⟨?_, ?_, ?_, ?_, ?_, ?_, hsimulation, hsettings ▸ check_rowOf hfollows⟩
  · rw [nameCheck, Sql.check_compare, decide_eq_true_eq, hrow]
    exact hbounded.name
  · exact check_atLeast_some.2 (hrow ▸ hplies)
  · exact check_atLeast_some.2 (hrow ▸ le_getD hbounded.numPliesRecorded (by decide))
  · exact check_atLeast_some.2 (hrow ▸ le_getD hbounded.numPlays (by decide))
  · exact check_atLeast_some.2 (hrow ▸ hbounded.numPlaysRecorded)
  · rw [check_atLeast, hrow]
    exact hbounded.movegensPerMove

end Checks

end Birdtest.Admin.Players
