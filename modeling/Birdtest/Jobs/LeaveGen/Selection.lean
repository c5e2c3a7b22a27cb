import Birdtest.Base.Runs
import Birdtest.Models.Job
import Mathlib.Algebra.GroupWithZero.Nat
import Mathlib.Data.List.Dedup
import Mathlib.Order.Defs.LinearOrder
import Mathlib.Order.Lattice

namespace Birdtest.Jobs.LeaveGen.Selection

open Birdtest.Base.Runs Birdtest.Models.Job

variable {R : Type}

/-- A generation: its rack universe in primary-key order, its `target_for(generation)` and the
job's `racks_per_task`. -/
structure Generation (R : Type) [LinearOrder R] where
  racks : List R
  sorted : racks.Pairwise (· < ·)
  target : ℕ
  racksPerTask : ℕ
  target_pos : 0 < target
  racksPerTask_pos : 0 < racksPerTask

structure Task (R : Type) where
  forcedRacks : List R
  state : TaskState
  deriving DecidableEq

structure TaskClaim where
  task : ℕ
  state : ClaimState
  deriving DecidableEq

structure Staged (R : Type) where
  id : ℕ
  task : ℕ
  racks : List (R × ℕ)
  deriving DecidableEq

/-- The generation's `leave_generation_transitions` row: within the takeover timeout, past it (or
backdated by an owner that failed), or of a generation that is closed. -/
inductive Transition
  | started | lapsed | completed
  deriving DecidableEq

/-- A generation is opened as the one before it is closed, and the rows of its universe are written
once a claim has asked for them. -/
inductive Opening
  | unopened | opened | seeded
  deriving DecidableEq

inductive Answer
  | needsUniverse | noWork | needsMerge | transition
  deriving DecidableEq

/-- What the claim that holds the job's dispatch lock runs next. -/
inductive Stage (R : Type)
  | idle
  /-- The claim has read an earlier generation as the current one, and `next_step` reads it
  again. -/
  | earlierGeneration
  | transitionInProgress
  | universeExists
  | nextAvailable
  | nextStep
  | selectionCursor
  | continueLap (cursor : R)
  | claimsInFlight
  | anythingStaged
  | belowTarget
  | sweep
  | furthestBelowTarget
  | tailClaimsInFlight
  | tailAnythingStaged
  | anyRackBelowTarget
  | claimTransition
  | reissue (task : ℕ)
  | dispatch (racks : List R)
  | answer (a : Answer)
  deriving DecidableEq

/-- The job's rows for the generation, a rack without a row counting 0. `view` is the selection
cursor as the claim's own transaction sees it, `merging` the staged rows a running merge took. -/
structure State (R : Type) where
  opening : Opening
  tasks : List (Task R)
  claims : List TaskClaim
  staging : List (Staged R)
  nextStaged : ℕ
  occurrences : R → ℕ
  belowTarget : ℕ
  cursor : Option (Option R)
  transition : Option Transition
  merging : Option (List ℕ)
  stage : Stage R
  view : Option (Option R)
  accepted : List (List (R × ℕ))

section Writes

def taskState (s : State R) (t : ℕ) : Option TaskState := (s.tasks[t]?).map Task.state

def forcedRacks (s : State R) (t : ℕ) : List R := ((s.tasks[t]?).map Task.forcedRacks).getD []

def issueClaim (s : State R) (tasks : List (Task R)) (t : ℕ) : State R :=
  { s with
    tasks := tasks.modify t ({ · with state := .claimed })
    claims := s.claims ++ [⟨t, .claimed⟩]
    cursor := s.view
    stage := .idle }

def commit (s : State R) : Option (State R) :=
  match s.stage with
  | .reissue t => some (issueClaim s s.tasks t)
  | .dispatch racks => some (issueClaim s (s.tasks ++ [⟨racks, .available⟩]) s.tasks.length)
  | .answer .transition =>
    some { s with transition := some .started, cursor := s.view, stage := .idle }
  | .answer .noWork | .answer .needsMerge =>
    some { s with cursor := s.view, stage := .idle }
  | _ => none

def releaseClaim (s : State R) (c : ℕ) (terminal : ClaimState) : Option (State R) :=
  match s.claims[c]? with
  | some ⟨t, .claimed⟩ =>
    some { s with
      claims := s.claims.set c ⟨t, terminal⟩
      tasks := s.tasks.modify t ({ · with state := .available }) }
  | _ => none

/-- Accepts a result: the claim and its task complete, and `stage_fold` stages the racks. -/
def submit (s : State R) (c : ℕ) (racks : List (R × ℕ)) : Option (State R) :=
  match s.claims[c]? with
  | some ⟨t, .claimed⟩ =>
    some { s with
      claims := s.claims.set c ⟨t, .completed⟩
      tasks := s.tasks.modify t ({ · with state := .completed })
      staging := s.staging ++ [⟨s.nextStaged, t, racks⟩]
      nextStaged := s.nextStaged + 1
      accepted := s.accepted ++ [racks] }
  | _ => none

variable {s s' : State R}

theorem releaseClaim_cases {c : ℕ} {terminal : ClaimState}
    (h : releaseClaim s c terminal = some s') :
    ∃ t, s.claims[c]? = some ⟨t, .claimed⟩ ∧
      s' = { s with
        claims := s.claims.set c ⟨t, terminal⟩
        tasks := s.tasks.modify t ({ · with state := .available }) } := by
  unfold releaseClaim at h
  split at h
  · next t hc => exact ⟨t, hc, (Option.some.inj h).symm⟩
  · cases h

theorem submit_cases {c : ℕ} {racks : List (R × ℕ)} (h : submit s c racks = some s') :
    ∃ t, s.claims[c]? = some ⟨t, .claimed⟩ ∧
      s' = { s with
        claims := s.claims.set c ⟨t, .completed⟩
        tasks := s.tasks.modify t ({ · with state := .completed })
        staging := s.staging ++ [⟨s.nextStaged, t, racks⟩]
        nextStaged := s.nextStaged + 1
        accepted := s.accepted ++ [racks] } := by
  unfold submit at h
  split at h
  · next t hc => exact ⟨t, hc, (Option.some.inj h).symm⟩
  · cases h

end Writes

section Reads

variable [LinearOrder R]

def rows (g : Generation R) (s : State R) : List R := if s.opening = .seeded then g.racks else []

def reported (racks : List (R × ℕ)) (r : R) : ℕ :=
  ((racks.filter (·.1 = r)).map (·.2)).sum

def claimsInFlight (s : State R) : ℕ := s.claims.countP (·.state = .claimed)

def anythingStaged (s : State R) : Bool := !s.staging.isEmpty

def anyRackBelowTarget (g : Generation R) (s : State R) : Bool :=
  (rows g s).any (s.occurrences · < g.target)

def after : Option R → R → Bool
  | none, _ => true
  | some c, r => c < r

def racksAfter (g : Generation R) (s : State R) (a : Option R) : List R × Bool :=
  let racks := ((rows g s).filter fun r ↦ after a r ∧ s.occurrences r < g.target).take
    (g.racksPerTask + 1)
  (racks.take g.racksPerTask, g.racksPerTask < racks.length)

def isOut (s : State R) (t : ℕ) : Bool :=
  s.claims.any (fun c ↦ c.task = t ∧ c.state = .claimed) || s.staging.any (·.task = t)

def outNow (s : State R) : List R :=
  ((List.range s.tasks.length).filter (isOut s)).flatMap (forcedRacks s)

def selectable (g : Generation R) (s : State R) : List R :=
  (rows g s).filter fun r ↦ s.occurrences r < g.target ∧ r ∉ outNow s

/-- What `ORDER BY occurrence_count LIMIT racks_per_task` may answer: the lowest counts
first, racks of equal counts in any order. -/
def IsFurthest (g : Generation R) (s : State R) (racks : List R) : Prop :=
  racks.Nodup ∧ (∀ r ∈ racks, r ∈ selectable g s) ∧
  racks.length = min g.racksPerTask (selectable g s).length ∧
  racks.Pairwise (fun r r' ↦ s.occurrences r ≤ s.occurrences r') ∧
  ∀ r ∈ racks, ∀ r' ∈ selectable g s, r' ∉ racks → s.occurrences r ≤ s.occurrences r'

instance (g : Generation R) (s : State R) (racks : List R) : Decidable (IsFurthest g s racks) :=
  inferInstanceAs (Decidable (_ ∧ _ ∧ _ ∧ _ ∧ _))

/-- A generation has many racks below target while more than this many tasks' worth are. -/
def sweepWhileTasksRemain : ℕ := 100

/-- Runs the claim's next statement, where its answer is a function of the rows: the
stage it leads to, and the selection cursor as it leaves it. -/
def statement (g : Generation R) (s : State R) : Option (Stage R × Option (Option R)) :=
  match s.stage with
  -- past its second read, a claim for another generation is followed no further
  | .earlierGeneration => some (if s.opening = .unopened then .idle else .selectionCursor, s.view)
  | .transitionInProgress =>
    some (if s.transition = some .started then .answer .noWork else .universeExists, s.view)
  | .universeExists =>
    some (if (rows g s).isEmpty then .answer .needsUniverse else .nextAvailable, s.view)
  | .nextStep =>
    some (if s.transition = some .completed then .idle else .selectionCursor, s.view)
  | .selectionCursor =>
    match s.view with
    | some (some c) => some (.continueLap c, s.view)
    | some none => some (.furthestBelowTarget, s.view)
    | none => some (.claimsInFlight, s.view)
  | .continueLap c =>
    let (racks, more) := racksAfter g s (some c)
    if more then some (.dispatch racks, some racks.getLast?)
    else some (if racks.isEmpty then .claimsInFlight else .dispatch racks, none)
  | .claimsInFlight =>
    some (if 0 < claimsInFlight s then .answer .noWork else .anythingStaged, s.view)
  | .anythingStaged =>
    some (if anythingStaged s then .answer .needsMerge else .belowTarget, s.view)
  | .belowTarget =>
    if s.belowTarget ≤ sweepWhileTasksRemain * g.racksPerTask then
      some (.furthestBelowTarget, some none)
    else some (.sweep, s.view)
  | .sweep =>
    let (racks, more) := racksAfter g s none
    if racks.isEmpty then some (.claimTransition, s.view)
    else some (.dispatch racks, if more then some racks.getLast? else s.view)
  | .tailClaimsInFlight =>
    some (if 0 < claimsInFlight s then .answer .noWork else .tailAnythingStaged, s.view)
  | .tailAnythingStaged =>
    some (if anythingStaged s then .answer .needsMerge else .anyRackBelowTarget, s.view)
  | .anyRackBelowTarget =>
    some (if anyRackBelowTarget g s then .answer .noWork else .claimTransition, s.view)
  | .claimTransition =>
    -- The upsert takes over a row past the timeout; any other row is someone else's.
    some (if s.transition = some .started ∨ s.transition = some .completed then .answer .noWork
      else .answer .transition, s.view)
  | _ => none

def folded (s : State R) (ids : List ℕ) (r : R) : ℕ :=
  ((s.staging.filter (·.id ∈ ids)).map fun row ↦ reported row.racks r).sum

def mergeCommit (g : Generation R) (s : State R) (ids : List ℕ) : State R :=
  let occurrences r := if r ∈ rows g s then s.occurrences r + folded s ids r else s.occurrences r
  { s with
    staging := s.staging.filter (·.id ∉ ids)
    occurrences := occurrences
    belowTarget :=
      if s.staging.any (·.id ∈ ids) then (rows g s).countP (occurrences · < g.target)
      else s.belowTarget
    merging := none }

inductive Action (R : Type)
  /-- The generation before this one is closed. -/
  | openGeneration
  /-- `seed_leave_universe`, which holds the dispatch lock while it runs. -/
  | seedUniverse
  /-- A transition closes this generation, its universe having been read whole. -/
  | closeGeneration
  /-- A claim takes the job's dispatch lock and reads the current generation. -/
  | lock
  | statement
  /-- `next_available` answers; `none` only where no task of the generation is available. -/
  | nextAvailable (task : Option ℕ)
  | furthestBelowTarget (racks : List R)
  | commit
  | rollback
  | submit (claim : ℕ) (racks : List (R × ℕ))
  | decline (claim : ℕ)
  | lapse (claim : ℕ)
  | mergeRead
  | mergeCommit
  | mergeRollback
  /-- The takeover timeout passes over a started transition, or its owner fails. -/
  | transitionLapses
  deriving DecidableEq

def next (g : Generation R) (s : State R) : Action R → Option (State R)
  | .openGeneration => if s.opening = .unopened then some { s with opening := .opened } else none
  | .seedUniverse =>
    if s.stage = .idle ∧ s.opening = .opened then
      some { s with opening := .seeded, belowTarget := g.racks.length }
    else none
  | .closeGeneration =>
    -- a claim that has answered the transition holds its row until it commits
    if s.opening = .seeded ∧ (s.transition = some .started ∨ s.transition = some .lapsed) ∧
        s.stage ≠ .answer .transition then
      some { s with transition := some .completed, cursor := none }
    else none
  | .lock =>
    if s.stage = .idle ∧ s.transition ≠ some .completed then
      some { s with
        stage := if s.opening = .unopened then .earlierGeneration else .transitionInProgress
        view := s.cursor }
    else none
  | .statement => (statement g s).map fun (stage, view) ↦ { s with stage, view }
  | .nextAvailable (some t) =>
    if s.stage = .nextAvailable ∧ taskState s t = some .available then
      some { s with stage := .reissue t }
    else none
  | .nextAvailable none =>
    if s.stage = .nextAvailable ∧ s.tasks.all (·.state ≠ .available) then
      some { s with stage := .nextStep }
    else none
  | .furthestBelowTarget racks =>
    if s.stage = .furthestBelowTarget ∧ IsFurthest g s racks then
      some { s with stage := if racks.isEmpty then .tailClaimsInFlight else .dispatch racks }
    else none
  | .commit => commit s
  | .rollback => if s.stage = .idle then none else some { s with stage := .idle }
  | .submit c racks => submit s c racks
  | .decline c => releaseClaim s c .declined
  | .lapse c => releaseClaim s c .abandoned
  | .mergeRead =>
    if s.merging = none then some { s with merging := some (s.staging.map (·.id)) } else none
  | .mergeCommit => s.merging.map (mergeCommit g s)
  | .mergeRollback => s.merging.map fun _ ↦ { s with merging := none }
  | .transitionLapses =>
    if s.transition = some .started then some { s with transition := some .lapsed } else none

def unopened : State R where
  opening := .unopened
  tasks := []
  claims := []
  staging := []
  nextStaged := 0
  occurrences _ := 0
  belowTarget := 0
  cursor := none
  transition := none
  merging := none
  stage := .idle
  view := none
  accepted := []

def machine (g : Generation R) : Machine (State R) (Action R) := ⟨(· = unopened), next g⟩

end Reads

end Birdtest.Jobs.LeaveGen.Selection
