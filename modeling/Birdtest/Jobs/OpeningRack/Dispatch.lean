import Birdtest.Jobs.OpeningRack.Consensus
import Birdtest.Jobs.OpeningRack.Requests
import Birdtest.Jobs.Registry
import Mathlib.Data.List.Sort

namespace Birdtest.Jobs.OpeningRack.Dispatch

open Birdtest.Base.Runs Birdtest.Base.Tables Birdtest.Base.Checked Birdtest.Base.Batches
open Birdtest.Jobs.Racks Birdtest.Jobs.Registry Birdtest.Jobs.OpeningRack.Consensus
  Birdtest.Jobs.OpeningRack.Requests

variable {I M F : Type}

def maxRacksPerBatch : ℕ := 10000

/-- The settings of a job that its creation fixes, as it validates them, and whether the database's
collation puts a rack before another. -/
structure OpeningRackConfig where
  distribution : LetterDistribution
  rackSize : ℕ
  index : RackIndex
  racksPerBatch : ℕ
  collation : Text → Text → Bool
  index_eq : RackIndex.new distribution rackSize = .ok index
  rackSize_le : 1 ≤ rackSize ∧ rackSize ≤ Racks.rackSize
  racksPerBatch_le : 1 ≤ racksPerBatch ∧ racksPerBatch ≤ maxRacksPerBatch

inductive Phase
  | locked
  /-- No task is available that the claim may take. -/
  | noneAvailable
  | start (start : ℤ)
  | settings (start : ℤ)
  | inFlight (start : ℤ) (inFlight : List Text)
  /-- The task is to be made, with these racks. -/
  | request (start : ℤ) (racks : List Text)

structure Claim (I : Type) where
  identity : I
  phase : Phase

structure State (I M F : Type) where
  job : Job Text M F
  tasks : List (Task I Request)
  analysedBy : List (I × Text)
  claim : Option (Claim I)

inductive BatchError
  | dispatched (reported expected : ℕ)
  | stray (rack : Text)
  | twice (rack : Text)

def firstTwice (seen : List Text) : List Text → Option Text
  | [] => none
  | rack :: racks => if rack ∈ seen then some rack else firstTwice (rack :: seen) racks

def checkBatchAgainstTask (expected reported : List Text) : Except BatchError Unit :=
  if reported.length ≠ expected.length then .error (.dispatched reported.length expected.length)
  else
    match reported.find? (· ∉ expected) with
    | some stray => .error (.stray stray)
    | none =>
      match firstTwice [] reported with
      | some twice => .error (.twice twice)
      | none => .ok ()

section Statements

variable (config : OpeningRackConfig) (s : State I M F)

def inFlight : List Text :=
  (s.tasks.filter fun task ↦
    match task.state with
    | .available => totalRacks config.index ≤ task.seed
    | .claimed _ => true
    | .completed => false).flatMap fun task ↦ task.request.racks.getD []

variable [DecidableEq I]

def byResults (p q : Text × RackStanding M) : Prop :=
  p.2.results.toInt < q.2.results.toInt ∨
    (p.2.results.toInt = q.2.results.toInt ∧ config.collation p.1 q.1 = true)

def bySeen (identity : I) (p q : Text × RackStanding M) : Prop :=
  let seen (rack : Text) : Bool := (identity, rack) ∈ s.analysedBy
  (seen p.1 = false ∧ seen q.1 = true) ∨ (seen p.1 = seen q.1 ∧ byResults config p q)

instance : DecidableRel (byResults (M := M) config) := fun _ _ ↦
  inferInstanceAs (Decidable (_ ∨ (_ ∧ _)))

instance (identity : I) : DecidableRel (bySeen config s identity) := fun _ _ ↦
  inferInstanceAs (Decidable ((_ ∧ _) ∨ (_ ∧ _)))

def reissueWindowBatches : ℕ := 4

/-- The unsettled racks not in flight, fewest analyses first; of a window of them, those the
identity has not analysed first. -/
def nextReissue (identity : I) (inFlight : List Text) : List Text :=
  let unsettled := s.job.progress.rows.filter fun p ↦ !p.2.settled && p.1 ∉ inFlight
  let window := (unsettled.insertionSort (byResults config)).take
    (config.racksPerBatch * reissueWindowBatches)
  ((window.insertionSort (bySeen config s identity)).take config.racksPerBatch).map Prod.fst

def answer (identity : I) : Except Panic (Option (ℤ × List Text)) :=
  nextRequest config.index config.racksPerBatch (s.tasks.map (·.seed)) s.job.settings.reissues
    (nextReissue config s identity (inFlight config s))

def finished : Bool :=
  totalRacks config.index ≤ s.job.racksSettled ∧ s.tasks ≠ [] ∧
    ∀ task ∈ s.tasks, task.state = .completed

/-- The claim's next statement; `none` where it ends without a task. -/
def claimStatement (claim : Claim I) : Option Phase :=
  match claim.phase with
  | .locked => none
  | .noneAvailable => some (.start (nextStart config.racksPerBatch (s.tasks.map (·.seed))))
  | .start start =>
    if start < totalRacks config.index then
      match config.index.racksInRange (asU64 start) config.racksPerBatch with
      | .ok (rack :: racks) => some (.request start (rack :: racks))
      | _ => none
    else if s.job.settings.reissues then some (.settings start)
    else none
  | .settings start => some (.inFlight start (inFlight config s))
  | .inFlight start inFlight =>
    match nextReissue config s claim.identity inFlight with
    | [] => none
    | rack :: racks => some (.request start (rack :: racks))
  | .request start racks => some (.request start racks)

end Statements

inductive Action (I M F : Type)
  | lock (identity : I)
  | takeAvailable (i : ℕ)
  | noneAvailable
  | statement
  | commit
  | rollback
  | submit (i : ℕ) (reported : List (Text × M))
  | decline (i : ℕ)
  | lapse (i : ℕ)
  | edit (settings : ConsensusSettings F)

section Machine

variable [DecidableEq I] [LinearOrder M] (arithmetic : Arithmetic F) (config : OpeningRackConfig)

def submit (s : State I M F) (i : ℕ) (reported : List (Text × M)) : Option (State I M F) :=
  (complete s.tasks i).bind fun (identity, task, tasks) ↦
    match taskRacks config.index task.request with
    | .error _ => none
    | .ok expected =>
      match checkBatchAgainstTask expected (reported.map Prod.fst) with
      | .error _ => none
      | .ok () =>
        (accept arithmetic s.job reported).toOption.map fun job ↦
          { s with
            job
            tasks
            analysedBy := s.analysedBy ++ reported.map fun analysis ↦ (identity, analysis.1) }

def next (s : State I M F) : Action I M F → Option (State I M F)
  | .lock identity =>
    if s.claim.isNone then some { s with claim := some ⟨identity, .locked⟩ }
    else none
  | .takeAvailable i =>
    s.claim.bind fun claim ↦
      match claim.phase with
      | .locked =>
        (takeAvailable s.tasks claim.identity i).map fun tasks ↦ { s with tasks, claim := none }
      | _ => none
  | .noneAvailable =>
    s.claim.bind fun claim ↦
      match claim.phase with
      | .locked =>
        if noneAvailable s.tasks claim.identity then
          some { s with claim := some ⟨claim.identity, .noneAvailable⟩ }
        else none
      | _ => none
  | .statement =>
    s.claim.map fun claim ↦
      { s with claim := (claimStatement config s claim).map fun phase ↦ ⟨claim.identity, phase⟩ }
  | .commit =>
    s.claim.bind fun claim ↦
      match claim.phase with
      | .request start racks =>
        some { s with
          tasks := insertOnDemandTask s.tasks start (insertRequest config.index start racks)
            claim.identity
          claim := none }
      | _ => none
  | .rollback => some { s with claim := none }
  | .submit i reported => submit arithmetic config s i reported
  | .decline i => (decline s.tasks i).map fun tasks ↦ { s with tasks }
  | .lapse i => (lapse s.tasks i).map fun tasks ↦ { s with tasks }
  | .edit settings =>
    -- An edit holds the dispatch lock, so no claim is under way.
    if s.claim.isNone ∧ settings.isValid arithmetic then
      some { s with job := restateRacks arithmetic s.job settings }
    else none

def created (s : State I M F) : Prop :=
  Consensus.empty s.job ∧ s.job.settings.isValid arithmetic ∧ s.tasks = [] ∧ s.claim = none

def machine : Machine (State I M F) (Action I M F) := ⟨created arithmetic, next arithmetic config⟩

end Machine

end Birdtest.Jobs.OpeningRack.Dispatch
