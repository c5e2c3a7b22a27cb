import Birdtest.Base.RowLocks
import Birdtest.Models.Job
import Mathlib.Algebra.Order.Ring.Int
import Mathlib.Data.List.Dedup

namespace Birdtest.Scheduler.Claims

open Birdtest.Base.Runs Birdtest.Base.RowLocks Birdtest.Models.Job

inductive ClaimOverrun
  | pending | counted
  deriving DecidableEq

structure Job where
  status : JobStatus
  tasksTotal : ℕ
  tasksCompleted : ℕ
  claimsIssued : ℕ
  deriving DecidableEq

structure Task where
  job : ℕ
  state : TaskState
  acceptedCount : ℕ
  activeClaimCount : ℕ
  completedAt : Option ℤ
  deriving DecidableEq

/-- A `task_claims` row. Times are in microseconds. -/
structure TaskClaim where
  task : ℕ
  job : ℕ
  worker : ℕ
  state : ClaimState
  claimedAt : ℤ
  deadlineAt : ℤ
  overrun : Option ClaimOverrun
  lastHeartbeatAt : Option ℤ
  completedAt : Option ℤ
  deriving DecidableEq

inductive Key
  | job (j : ℕ)
  | task (t : ℕ)
  | claim (c : ℕ)
  deriving DecidableEq

abbrev Row : Key → Type
  | .job _ => Option Job
  | .task _ => Option Task
  | .claim _ => Option TaskClaim

section Programs

def deadlineGrace : ℤ := 60 * 1000000

def insertOnDemandTask (job task : ℕ) (k : Program Row) : Program Row :=
  .row (.task task) (·.isNone) (fun _ ↦ some ⟨job, .available, 0, 0, none⟩) fun _ ↦ k

/-- `next_available`, which answers `task`: locked, and still available once it is. -/
def nextAvailable (job task : ℕ) (k : Program Row) : Program Row :=
  .row (.task task) (·.any fun t ↦ t.job = job ∧ t.state = .available) id fun _ ↦ k

def newClaim (now maxTaskSeconds : ℤ) (job task worker : ℕ) : TaskClaim where
  task := task
  job := job
  worker := worker
  state := .claimed
  claimedAt := now
  deadlineAt := now + maxTaskSeconds * 1000000
  overrun := none
  lastHeartbeatAt := none
  completedAt := none

def claimTask (t : Task) : Task :=
  { t with
    activeClaimCount := t.activeClaimCount + 1
    state := .claimed }

def countClaim (taskCreated : Bool) (j : Job) : Job :=
  { j with
    claimsIssued := j.claimsIssued + 1
    tasksTotal := j.tasksTotal + taskCreated.toNat }

def issueClaim (now maxTaskSeconds : ℤ) (job task claim worker : ℕ) (taskCreated : Bool) :
    Program Row :=
  .row (.claim claim) (·.isNone)
    (fun _ ↦ some (newClaim now maxTaskSeconds job task worker)) fun _ ↦
  .row (.task task) (fun _ ↦ true) (Option.map claimTask) fun _ ↦
  .row (.job job) (·.any (·.status = .active)) (Option.map (countClaim taskCreated)) fun _ ↦
  .commit

def releaseTask (n : ℕ) (t : Task) : Task :=
  { t with
    activeClaimCount := t.activeClaimCount - n
    state :=
      if 0 < t.acceptedCount then .completed
      else if 0 < t.activeClaimCount - n then .claimed
      else .available }

def releaseClaim (claim : ℕ) (terminal : ClaimState) (k : Program Row) : Program Row :=
  .row (.claim claim) (fun _ ↦ true)
    (Option.map fun c ↦ if c.state = .claimed then { c with state := terminal } else c) fun
  | some c =>
    if c.state = .claimed then
      .row (.task c.task) (fun _ ↦ true) (Option.map (releaseTask 1)) fun _ ↦ k
    else k
  | none => k

def lockClaim (claim worker : ℕ) (k : TaskClaim → Program Row) : Program Row :=
  .row (.claim claim) (·.any fun c ↦ c.state = .claimed ∧ c.worker = worker) id fun
  | some c => k c
  | none => .commit

def declineTask (claim worker : ℕ) : Program Row :=
  lockClaim claim worker fun _ ↦ releaseClaim claim .declined .commit

def lastSeen (c : TaskClaim) : ℤ := c.lastHeartbeatAt.getD c.claimedAt

def pastDeadline (now : ℤ) (c : TaskClaim) : Bool := c.deadlineAt < now - deadlineGrace

def lapsed (now timeout : ℤ) (c : TaskClaim) : Bool :=
  c.state = .claimed ∧ (lastSeen c < now - timeout ∨ pastDeadline now c)

def overran (now timeout : ℤ) (c : TaskClaim) : Bool :=
  pastDeadline now c ∧ c.deadlineAt + (deadlineGrace - timeout) ≤ lastSeen c

def abandon (now timeout : ℤ) (c : TaskClaim) : TaskClaim :=
  { c with
    state := .abandoned
    overrun := if overran now timeout c then some .pending else none }

def releaseTasks (expired : List ℕ) : List ℕ → Program Row
  | [] => .commit
  | t :: ts =>
    .row (.task t) (fun _ ↦ true) (Option.map (releaseTask (expired.count t))) fun _ ↦
    releaseTasks expired ts

/-- `reclaim_expired_for`, of those lapsed claims it finds unlocked: the claims first, then
each of their tasks (`expired`, with repetitions) by how many of its claims lapsed. -/
def reclaimExpiredFor (now timeout : ℤ) (jobs : List ℕ) : List ℕ → List ℕ → Program Row
  | [], expired => releaseTasks expired expired.dedup
  | c :: cs, expired =>
    .row (.claim c) (·.any fun c ↦ c.job ∈ jobs ∧ lapsed now timeout c)
      (Option.map (abandon now timeout)) fun c ↦
    reclaimExpiredFor now timeout jobs cs (expired ++ (c.map (·.task)).toList)

def acceptResult (now : ℤ) (t : Task) : Task :=
  { t with
    acceptedCount := t.acceptedCount + 1
    activeClaimCount := t.activeClaimCount - 1
    state := .completed
    completedAt := some (t.completedAt.getD now) }

/-- `submit_result`'s transaction. Its last statement also leaves the job's row alone where
it would add nothing to it. -/
def submitResult (now : ℤ) (claim worker : ℕ) (deadlinesEnforced : Bool) : Program Row :=
  lockClaim claim worker fun c ↦
    if pastDeadline now c ∧ deadlinesEnforced then
      releaseClaim claim .abandoned <|
      .row (.claim claim) (fun _ ↦ true) (Option.map ({ · with overrun := some .pending })) fun _ ↦
      .commit
    else
      .row (.task c.task) (fun _ ↦ true) id fun _ ↦
      .row (.claim claim) (fun _ ↦ true)
        (Option.map ({ · with state := .completed, completedAt := some now })) fun _ ↦
      .row (.task c.task) (·.isSome) (Option.map (acceptResult now)) fun t ↦
      .row (.job c.job) (fun _ ↦ true)
        (Option.map fun j ↦ { j with
          tasksCompleted := j.tasksCompleted +
            (t.any fun t ↦ t.acceptedCount + 1 = 1).toNat }) fun _ ↦
      .commit

def heartbeat (now : ℤ) (claim worker : ℕ) : Program Row :=
  .row (.claim claim) (·.any fun c ↦ c.state = .claimed ∧ c.worker = worker)
    (Option.map ({ · with lastHeartbeatAt := some now })) fun _ ↦ .commit

def createJob (job : ℕ) : Program Row :=
  .row (.job job) (·.isNone) (fun _ ↦ some ⟨.inactive, 0, 0, 0⟩) fun _ ↦ .commit

def setStatus (job : ℕ) (status : JobStatus) : Program Row :=
  .row (.job job) (fun _ ↦ true) (Option.map ({ · with status })) fun _ ↦ .commit

end Programs

inductive Operation
  | claimNew (now maxTaskSeconds : ℤ) (job task claim worker : ℕ)
  | claimAvailable (now maxTaskSeconds : ℤ) (job task claim worker : ℕ)
  | decline (claim worker : ℕ)
  | reclaim (now timeout : ℤ) (jobs claims : List ℕ)
  | submit (now : ℤ) (claim worker : ℕ) (deadlinesEnforced : Bool)
  | heartbeat (now : ℤ) (claim worker : ℕ)
  | createJob (job : ℕ)
  | setStatus (job : ℕ) (status : JobStatus)

def program : Operation → Program Row
  | .claimNew now maxTaskSeconds job task claim worker =>
    insertOnDemandTask job task (issueClaim now maxTaskSeconds job task claim worker true)
  | .claimAvailable now maxTaskSeconds job task claim worker =>
    nextAvailable job task (issueClaim now maxTaskSeconds job task claim worker false)
  | .decline claim worker => declineTask claim worker
  | .reclaim now timeout jobs claims => reclaimExpiredFor now timeout jobs claims []
  | .submit now claim worker deadlinesEnforced => submitResult now claim worker deadlinesEnforced
  | .heartbeat now claim worker => heartbeat now claim worker
  | .createJob job => createJob job
  | .setStatus job status => setStatus job status

def start (st : Store Row) : Prop :=
  (∀ j, st (.job j) = none) ∧ (∀ t, st (.task t) = none) ∧ ∀ c, st (.claim c) = none

/-- Any number of workers' and administrators' transactions, from an empty database. -/
def machine : Machine (Database Row Operation) (Action Operation) := interleaved program start

end Birdtest.Scheduler.Claims
