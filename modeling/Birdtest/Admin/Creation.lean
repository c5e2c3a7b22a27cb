import Birdtest.Admin.Loadable
import Birdtest.Base.Registries

namespace Birdtest.Admin.Creation

open Birdtest.Base Birdtest.Base.Checked Birdtest.Base.Runs Birdtest.Base.Tables
  Birdtest.Base.Registries
open Birdtest.Admin.Solvers hiding CreatePlayerConfigBody
open Birdtest.Admin.Players Birdtest.Admin.Jobs Birdtest.Admin.Loadable
open Birdtest.Inputdata (nameByte)
open Birdtest.Jobs.Racks (Quoted Text)

structure Job where
  row : JobRow
  config : ConfigRow

structure Pool where
  name : Text
  variant : String
  letterdistId : ℕ
  layoutId : ℕ
  anchorPlayerConfigId : ℕ
  anchorRating : ℚ
  members : List ℕ

structure CreatePoolBody where
  name : Text
  variant : String
  letterdistId : ℕ
  layoutId : ℕ
  anchorPlayerConfigId : ℕ
  anchorRating : ℚ := 2000

structure ConsensusBody where
  consensusPct : Option ℚ := none
  minResultsPerRack : Option ℤ := none
  maxResultsPerRack : Option ℤ := none

/-- A request that has been checked, and has not begun its transaction. -/
inductive Request
  | player (row : PlayerConfig)
  | pool (body : CreatePoolBody)
  | jobs (checked : CheckedJob)

structure State where
  inputs : Registry ℕ InputData
  players : Registry ℕ PlayerConfig
  pools : Table ℕ Pool
  jobs : Table ℕ Job
  requests : ℕ → Option Request

inductive Action
  | importFile (id : ℕ) (file : InputData)
  | deleteInputData (id : ℕ)
  | checkPlayerConfig (call : ℕ) (unseen : List ℕ) (body : CreatePlayerConfigBody)
  | checkPool (call : ℕ) (unseen : List ℕ) (body : CreatePoolBody)
  | checkJob (call : ℕ) (unseen : List ℕ) (body : CreateJobBody)
  | insert (call : ℕ) (ids : List ℕ)
  | deletePlayerConfig (id : ℕ)
  | addMember (pool player : ℕ)
  | removeMember (pool player : ℕ)
  | updatePool (pool : ℕ) (anchor : Option ℕ) (rating : Option ℚ)
  | deletePool (pool : ℕ)
  | updateTimeLimit (job : ℕ) (seconds : ℤ)
  | updateConsensus (job : ℕ) (body : ConsensusBody) (settled withoutConsensus unsettled : ℕ)
  -- what serves a job writes of it
  | serve (job : ℕ) (progress : JobProgress)
  | deleteJob (job : ℕ)

section Rows

def State.reads (s : State) : Reads := ⟨s.players.get, s.inputs.get⟩

def State.written (s : State) : Reads := ⟨s.players.log.get, s.inputs.log.get⟩

def State.view (s : State) (unseen : List ℕ) : Reads :=
  ⟨s.players.view unseen, s.inputs.view unseen⟩

def cachedPlayer (player : PlayerConfig) : Derived.Cache.PlayerConfig :=
  ⟨player.kwgId, player.klvId, player.winpctId, player.useWordmap, player.useRit, player.useWit⟩

def cachedConfig : ConfigRow → Derived.Cache.JobConfig
  | .openingRack row => .openingRack row.playerConfigId
  | .game row => .game row.player1ConfigId row.player2ConfigId
  | .gamePair row => .gamePair row.player1ConfigId row.player2ConfigId
  | .leave row => .leave row.playerConfigId

def Job.cached (job : Job) : Derived.Cache.Job :=
  ⟨job.row.letterdistId, job.row.layoutId, cachedConfig job.config⟩

variable (collation : Derived.Cache.Collation) (s : State)

def catalog : Derived.Cache.Catalog where
  jobs := s.jobs.select Job.cached
  players := s.players.live.select cachedPlayer
  pools := s.pools.rows.map fun pool ↦ ⟨pool.2.letterdistId, pool.2.layoutId⟩
  collation := collation

def inputFiles : Table ℕ Derived.Cache.InputFile := s.inputs.live.select InputData.toInputFile

end Rows

section Operations

variable (collation : Derived.Cache.Collation) (quoted : Quoted) (s : State)

/-- Why a transaction is rolled back: it refuses the request, or a constraint of the schema does. -/
inductive Refusal
  | badRequest (e : BadRequest)
  | conflict

def unknownConfig (field : String) (id : ℕ) : Refusal :=
  .badRequest ⟨"that player does not exist", [(field, s!"no player {id}")]⟩

def importable (file : InputData) : Bool :=
  file.name.toList.all nameByte ∧
    (file.content.isSome ↔ file.role = .letterdist ∨ file.role = .layout) ∧
    ∀ row ∈ s.inputs.live.rows, row.2.toInputFile ≠ file.toInputFile

def insertPlayerConfig (id : ℕ) (row : PlayerConfig) : Except Refusal State :=
  if s.players.live.rows.any (·.2.name = row.name) then .error .conflict
  else if (filesOf row).any fun fileId ↦ (s.inputs.get fileId).isNone then .error .conflict
  else match row.clonedFromId.filter fun source ↦ (s.players.get source).isNone with
    | some source => .error (unknownConfig "cloned_from_id" source)
    | none => .ok { s with players := s.players.insert id row }

def references (id : ℕ) : Bool :=
  s.jobs.rows.any (fun job ↦ id ∈ playersOf job.2.config) ||
    s.pools.rows.any (fun pool ↦ pool.2.anchorPlayerConfigId = id ∨ id ∈ pool.2.members) ||
    s.players.live.rows.any fun player ↦ player.2.clonedFromId = some id

def maxAbsAnchorRating : ℚ := 10000

def anchorRatingFields (rating : ℚ) : Fields :=
  refuse (¬(-maxAbsAnchorRating ≤ rating ∧ rating ≤ maxAbsAnchorRating)) "anchor_rating"
    "must be a number between -10000 and 10000"

def poolNameFields (name : Text) : Fields :=
  if trim name = [] then [("name", "must not be empty")]
  else (nameProblem (trim name)).elim [] fun problem ↦ [("name", problem)]

def createPool (files : ℕ → Option InputData) (body : CreatePoolBody) : Except BadRequest Unit := do
  refuseFields "rating pool details are invalid"
    (poolNameFields body.name ++
      refuse (body.variant ∉ ["classic", "wordsmog"]) "variant" "must be 'classic' or 'wordsmog'" ++
      anchorRatingFields body.anchorRating)
  let letterdist ← requireRole files body.letterdistId .letterdist
  let layout ← requireRole files body.layoutId .layout
  let _ ← (Birdtest.Jobs.Racks.parse (bytesOf letterdist) letterdist.name).mapError fun e ↦
    (⟨"no job can be created on that letter distribution",
      [("letterdist_id", e.message letterdist.name quoted)]⟩ : BadRequest)
  match Board.layoutProblem (bytesOf layout).data.toList with
  | some problem =>
    .error ⟨"no job can be created on that board layout", [("layout_id", problem.message quoted)]⟩
  | none => .ok ()

def insertPool (id : ℕ) (body : CreatePoolBody) : Except Refusal State :=
  if s.pools.rows.any (·.2.name = trim body.name) then .error .conflict
  else if (s.inputs.get body.letterdistId).isNone ∨ (s.inputs.get body.layoutId).isNone then
    .error .conflict
  else if (s.players.get body.anchorPlayerConfigId).isNone then
    .error (unknownConfig "anchor_player_config_id" body.anchorPlayerConfigId)
  else .ok { s with
    pools := s.pools.put id ⟨trim body.name, body.variant, body.letterdistId, body.layoutId,
      body.anchorPlayerConfigId, body.anchorRating, [body.anchorPlayerConfigId]⟩ }

def clash (file other : InputData) : Bool :=
  other.role = file.role ∧ other.name = file.name ∧ other.sha256 ≠ file.sha256

def refuseOneName : List InputData → Except BadRequest Unit
  | [] => .ok ()
  | file :: files => match files.find? (clash file) with
    | some other =>
      .error ⟨s!"this job would pin two different {roleText file.role} files named " ++
        quoted file.name.toList ++
        s!" (from {file.tarballDate} and {other.tarballDate}): a worker " ++
        "finds a file by its name and can hold only one of them. Choose players whose files " ++
        "come from the same data release.", []⟩
    | none => refuseOneName files

/-- `ORDER BY role, name` -/
def fileBefore (file other : InputData) : Bool :=
  if file.role = other.role then collation.le file.name other.name
  else collation.le (roleText file.role) (roleText other.role)

def expectedData (job : Job) : List InputData :=
  ((Derived.Cache.expectedData (catalog collation s) job.cached).dedup.filterMap
    s.inputs.get).insertionSort
    fun file other ↦ fileBefore collation file other

def needsWordmap (job : Job) : Bool :=
  (Derived.Cache.needs (catalog collation s) (inputFiles s)
    (cachedConfig job.config)).any fun need ↦ need.role ≠ .wit

def wordmapRefusal (checked : CheckedJob) : BadRequest :=
  ⟨"no wordmap or rack info table can be built for this letter distribution", [("letterdist_id",
    s!"{String.ofList checked.letterdistName} has {checked.blanks} blanks, and MAGPIE builds " ++
    s!"them for at most {magpieMaxWordmapBlanks}: no player of this job may use either")]⟩

def insertJob (checked : CheckedJob) (plan : PlannedJob) (id : ℕ) : Except Refusal State :=
  match s.inputs.get checked.body.letterdistId, s.inputs.get checked.body.layoutId with
  | some letterdist, some _ => do
    let config ← (jobConfig s.reads quoted checked letterdist plan.pair).mapError
      fun e ↦ .badRequest (plan.qualify e)
    ensure (∀ player ∈ playersOf config, (s.players.get player).isSome) .conflict
    let job : Job := ⟨jobRow checked, config⟩
    (refuseOneName quoted (expectedData collation s job)).mapError fun e ↦
      .badRequest (plan.qualify e)
    ensure (¬(magpieMaxWordmapBlanks < checked.blanks ∧ needsWordmap collation s job))
      (.badRequest (plan.qualify (wordmapRefusal checked)))
    .ok { s with jobs := s.jobs.put id job }
  | _, _ => .error .conflict

def insertJobs (checked : CheckedJob) (jobs : List (PlannedJob × ℕ)) : Except Refusal State :=
  jobs.foldlM (fun s job ↦ insertJob collation quoted s checked job.1 job.2) s

def addMember (pool : Pool) (player : ℕ) : Pool :=
  if player ∈ pool.members then pool else { pool with members := pool.members ++ [player] }

def ConsensusBody.apply (body : ConsensusBody) (row : OpeningRackRow) : OpeningRackRow := { row with
  consensusPct := body.consensusPct.getD row.consensusPct
  minResultsPerRack := body.minResultsPerRack.getD row.minResultsPerRack
  maxResultsPerRack := body.maxResultsPerRack.getD row.maxResultsPerRack }

/-- `consensus_request`: the row as it is, and as the request has it. -/
def consensusRequest (body : ConsensusBody) :
    ConfigRow → Except BadRequest (OpeningRackRow × OpeningRackRow)
  | .openingRack row => do
    let new := body.apply row
    refuseFields "consensus settings are invalid"
      (consensusFields new.consensusPct new.minResultsPerRack new.maxResultsPerRack)
    validateOpeningRackPlayer s.reads row.playerConfigId new.maxResultsPerRack
    .ok (row, new)
  | _ => .error ⟨"only an opening-rack job has consensus settings", []⟩

/-- `restate_racks`, which leaves so many racks settled and so many not, and the reopening of a
completed job that has racks to analyse again. -/
def restate (settled withoutConsensus unsettled : ℕ) (progress : JobProgress) : JobProgress :=
  { progress with
    racksSettled := settled
    racksWithoutConsensus := withoutConsensus
    status := if progress.status = .completed ∧ 0 < unsettled then .inactive else progress.status }

def setProgress (row : JobRow) (progress : JobProgress) : JobRow :=
  { row with progress := progress }

end Operations

section Machine

variable (collation : Derived.Cache.Collation) (quoted : Quoted) (serverFloor : Text)

def transaction (s : State) : Request → List ℕ → Option (Except Refusal State)
  | .player row, [id] =>
    if (s.players.log.get id).isNone then some (insertPlayerConfig s id row)
    else none
  | .pool body, [id] => if (s.pools.get id).isNone then some (insertPool s id body) else none
  | .jobs checked, ids =>
    if ids.length = checked.planned.length ∧ ids.Nodup ∧ ∀ id ∈ ids, (s.jobs.get id).isNone then
      some (insertJobs collation quoted s checked (checked.planned.zip ids))
    else none
  | _, _ => none

def hold (s : State) (call : ℕ) (request : Request) : Option State :=
  if (s.requests call).isSome then none
  else some { s with requests := Function.update s.requests call (some request) }

def drop (s : State) (call : ℕ) : State :=
  { s with requests := Function.update s.requests call none }

def next (s : State) : Action → Option State
  | .importFile id file =>
    if (s.inputs.log.get id).isNone ∧ importable s file then
      some { s with inputs := s.inputs.insert id file }
    else none
  | .deleteInputData id =>
    if (s.inputs.get id).isSome ∧ ¬ Derived.Cache.pins (catalog collation s) id then
      some { s with inputs := s.inputs.delete id }
    else none
  | .checkPlayerConfig call unseen body =>
    (createPlayerConfig (s.inputs.view unseen) quoted body).toOption.bind fun row ↦
      hold s call (.player row)
  | .checkPool call unseen body =>
    (createPool quoted (s.inputs.view unseen) body).toOption.bind fun _ ↦ hold s call (.pool body)
  | .checkJob call unseen body =>
    (checkJob (s.view unseen) quoted serverFloor body).toOption.bind fun checked ↦
      hold s call (.jobs checked)
  | .insert call ids =>
    (s.requests call).bind fun request ↦
      (transaction collation quoted s request ids).map fun result ↦
        drop (result.toOption.getD s) call
  | .deletePlayerConfig id =>
    if (s.players.get id).isSome ∧ ¬ references s id then
      some { s with players := s.players.delete id }
    else none
  | .addMember pool player =>
    if (s.players.get player).isSome then
      (s.pools.get pool).map fun row ↦ { s with pools := s.pools.put pool (addMember row player) }
    else none
  | .removeMember pool player =>
    (s.pools.get pool).bind fun row ↦
      if row.anchorPlayerConfigId = player then none
      else some { s with
        pools := s.pools.put pool { row with members := row.members.filter (· ≠ player) } }
  | .updatePool pool anchor rating =>
    (s.pools.get pool).bind fun row ↦
      let newAnchor := anchor.getD row.anchorPlayerConfigId
      let newRating := rating.getD row.anchorRating
      if newAnchor = row.anchorPlayerConfigId ∧ newRating = row.anchorRating then none
      else if rating.elim [] anchorRatingFields = [] ∧ (s.players.get newAnchor).isSome then
        some { s with
          pools := s.pools.put pool { addMember row newAnchor with
            anchorPlayerConfigId := newAnchor
            anchorRating := newRating } }
      else none
  | .deletePool pool => some { s with pools := s.pools.filter (· ≠ pool) }
  | .updateTimeLimit job seconds =>
    if timeLimitProblem seconds = none then
      (s.jobs.get job).map fun row ↦
        { s with
          jobs := s.jobs.put job { row with row := { row.row with maxTaskSeconds := seconds } } }
    else none
  | .updateConsensus job body settled withoutConsensus unsettled =>
    (s.jobs.get job).bind fun old ↦ (consensusRequest s body old.config).toOption.map fun new ↦
      if new.1 = new.2 then s
      else
        let progress := restate settled withoutConsensus unsettled old.row.progress
        { s with jobs := s.jobs.put job ⟨setProgress old.row progress, .openingRack new.2⟩ }
  | .serve job progress =>
    -- the table takes no other row
    if ∀ t ∈ progress.checks, Sql.check t then
      (s.jobs.get job).map fun old ↦
        { s with jobs := s.jobs.put job ⟨setProgress old.row progress, old.config⟩ }
    else none
  | .deleteJob job => some { s with jobs := s.jobs.filter (· ≠ job) }

def machine : Machine State Action where
  start s := s = ⟨.empty, .empty, .empty, .empty, fun _ ↦ none⟩
  next := next collation quoted serverFloor

end Machine

end Birdtest.Admin.Creation
