import Birdtest.Base.Tables
import Birdtest.Scheduler.Claims
import Mathlib.Data.List.Infix
import Mathlib.Data.List.Sort

namespace Birdtest.Scheduler.TimeLimits

open Birdtest.Base.Runs Birdtest.Base.RowLocks Birdtest.Base.Tables Birdtest.Models.Job
open Claims (TaskClaim ClaimOverrun newClaim abandon lapsed pastDeadline)

/-- What has come of a job's tasks. An accepted result and an allocation that puts the job back
end a run of tasks that hit the time limit. -/
inductive Event
  | declined
  | overran (claim : ℕ) (deadlineAt : ℤ)
  | completed (time : ℤ)
  | putBack (time : ℤ)
  | setAside
  deriving DecidableEq

/-- The history is no column: no statement reads it. Its last event comes first. -/
structure Job where
  status : JobStatus
  allocation : ℕ
  timeLimitDeclines : ℕ
  timeLimitStreak : ℕ
  timeLimitStreakSince : Option ℤ
  setAsideReason : Option String
  history : List Event
  deriving DecidableEq

inductive Key
  | job (j : ℕ)
  | claim (c : ℕ)
  deriving DecidableEq

abbrev Row : Key → Type
  | .job _ => Option Job
  | .claim _ => Option TaskClaim

section Programs

/-- `TIME_LIMIT_STREAK` -/
def streakLimit : ℕ := 3

def limitText (seconds : ℤ) : String :=
  if seconds % 3600 = 0 then toString (seconds / 3600) ++ "-hour"
  else if seconds % 60 = 0 then toString (seconds / 60) ++ "-minute"
  else toString seconds ++ "-second"

def reason (streak : ℕ) (maxTaskSeconds : ℤ) : String :=
  toString streak ++ " tasks in a row hit the " ++ limitText maxTaskSeconds ++
    " time limit with none completed between: a task's batch is more than a worker finishes in " ++
    "that time. Lower the batch size (in a new job), or raise the job's time limit on its " ++
    "Manage page, and give it an allocation again."

def limitSeconds (c : TaskClaim) : ℤ := (c.deadlineAt - c.claimedAt) / 1000000

def overrunLimit (counted : List (ℕ × TaskClaim)) : Option ℤ :=
  (counted.insertionSort fun c c' ↦ c'.2.deadlineAt ≤ c.2.deadlineAt).head?.map fun c ↦
    limitSeconds c.2

theorem overrunLimit_eq_none {counted : List (ℕ × TaskClaim)} :
    overrunLimit counted = none ↔ counted = [] := by
  rw [overrunLimit, Option.map_eq_none_iff, List.head?_eq_none_iff, ← List.length_eq_zero_iff,
    List.length_insertionSort, List.length_eq_zero_iff]

def counts (declined : Bool) (counted : List (ℕ × TaskClaim)) : List Event :=
  (if declined then [.declined] else []) ++
    counted.map fun c ↦ .overran c.1 c.2.deadlineAt

def inRun (since : Option ℤ) (deadlineAt : ℤ) : Bool := since.all (· < deadlineAt)

def addTimeLimits (since : Option ℤ) (declined : Bool) (counted : List (ℕ × TaskClaim)) (j : Job) :
    Job :=
  { j with
    timeLimitDeclines := j.timeLimitDeclines + (declined.toNat + counted.length)
    timeLimitStreak := j.timeLimitStreak +
      (declined.toNat + counted.countP fun c ↦ inRun since c.2.deadlineAt)
    history := counts declined counted ++ j.history }

def setAside (maxTaskSeconds : ℤ) (j : Job) : Job :=
  if j.status = .active then
    { j with
      status := .inactive
      allocation := 0
      setAsideReason := some (reason j.timeLimitStreak maxTaskSeconds)
      history := .setAside :: j.history }
  else j

/-- `UPDATE task_claims SET overrun = 'counted'`, of those pending overruns of the job that the
statement finds. -/
def countOverruns (job : ℕ) (k : List (ℕ × TaskClaim) → Program Row) :
    List ℕ → List (ℕ × TaskClaim) → Program Row
  | [], counted => k counted
  | c :: cs, counted =>
    .row (.claim c) (·.any fun c ↦ c.job = job ∧ c.overrun = some .pending)
      (Option.map ({ · with overrun := some .counted })) fun row ↦
    countOverruns job k cs (counted ++ (row.map fun row ↦ (c, row)).toList)

def recordTimeLimit (job : ℕ) (declined : Option ℤ) (overruns : List ℕ) : Program Row :=
  .row (.job job) (·.isSome) id fun row ↦
  let since := row.bind (·.timeLimitStreakSince)
  countOverruns job (fun counted ↦
    match declined.or (overrunLimit counted) with
    | none => .commit
    | some maxTaskSeconds =>
      let add := addTimeLimits since declined.isSome counted
      .row (.job job) (fun _ ↦ true) (Option.map add) fun row ↦
      if (row.map add).any fun j ↦ j.timeLimitStreak < streakLimit ∨ j.allocation = 0 then .commit
      else .row (.job job) (fun _ ↦ true) (Option.map (setAside maxTaskSeconds)) fun _ ↦ .commit)
    overruns []

def lockClaim (claim worker : ℕ) (k : TaskClaim → Program Row) : Program Row :=
  .row (.claim claim) (·.any fun c ↦ c.state = .claimed ∧ c.worker = worker) id fun
  | some c => k c
  | none => .commit

def declineTask (claim worker : ℕ) (timeLimit : Bool) (overruns : List ℕ) : Program Row :=
  lockClaim claim worker fun c ↦
  .row (.claim claim) (fun _ ↦ true) (Option.map ({ · with state := .declined })) fun _ ↦
  if timeLimit then recordTimeLimit c.job (some (limitSeconds c)) overruns else .commit

def reclaimExpiredFor (now timeout : ℤ) (jobs : List ℕ) : List ℕ → Program Row
  | [] => .commit
  | c :: cs =>
    .row (.claim c) (·.any fun c ↦ c.job ∈ jobs ∧ lapsed now timeout c)
      (Option.map (abandon now timeout)) fun _ ↦
    reclaimExpiredFor now timeout jobs cs

def complete (now : ℤ) (j : Job) : Job :=
  { j with
    timeLimitStreak := 0
    timeLimitStreakSince := some now
    history := .completed now :: j.history }

def submitResult (now : ℤ) (claim worker : ℕ) (deadlinesEnforced : Bool) (overruns : List ℕ) :
    Program Row :=
  lockClaim claim worker fun c ↦
    if pastDeadline now c ∧ deadlinesEnforced then
      .row (.claim claim) (fun _ ↦ true) (Option.map ({ · with state := .abandoned })) fun _ ↦
      .row (.claim claim) (fun _ ↦ true) (Option.map ({ · with overrun := some .pending })) fun _ ↦
      recordTimeLimit c.job none overruns
    else
      .row (.claim claim) (fun _ ↦ true)
        (Option.map ({ · with state := .completed, completedAt := some now })) fun _ ↦
      .row (.job c.job) (fun _ ↦ true) (Option.map (complete now)) fun _ ↦
      .commit

def allocate (now : ℤ) (allocation : ℕ) (j : Job) : Job :=
  if allocation = j.allocation then j
  else if 0 < allocation then
    { j with
      status := .active
      allocation
      timeLimitStreak := if j.status = .active then j.timeLimitStreak else 0
      timeLimitStreakSince := if j.status = .active then j.timeLimitStreakSince else some now
      setAsideReason := none
      history := if j.status = .active then j.history else .putBack now :: j.history }
  else { j with status := .inactive, allocation := 0 }

def allocateJobs (now : ℤ) : List (ℕ × ℕ) → Program Row
  | [] => .commit
  | (job, allocation) :: rows =>
    .row (.job job) (fun _ ↦ true) (Option.map (allocate now allocation)) fun _ ↦
    allocateJobs now rows

def lockJobs (k : Program Row) : List (ℕ × ℕ) → Program Row
  | [] => k
  | (job, _) :: rows =>
    .row (.job job) (·.any (·.status ≠ .completed)) id fun _ ↦ lockJobs k rows

/-- `set_allocations`, of jobs named once each; whether they fit the fleet is not asked here. -/
def setAllocations (now : ℤ) (rows : List (ℕ × ℕ)) : Program Row :=
  if (rows.map Prod.fst).Nodup then lockJobs (allocateJobs now rows) rows else .commit

def issueClaim (now maxTaskSeconds : ℤ) (job task claim worker : ℕ) : Program Row :=
  .row (.claim claim) (·.isNone)
    (fun _ ↦ some (newClaim now maxTaskSeconds job task worker)) fun _ ↦
  .row (.job job) (·.any (·.status = .active)) id fun _ ↦
  .commit

def heartbeat (now : ℤ) (claim worker : ℕ) : Program Row :=
  .row (.claim claim) (·.any fun c ↦ c.state = .claimed ∧ c.worker = worker)
    (Option.map ({ · with lastHeartbeatAt := some now })) fun _ ↦ .commit

def createJob (job : ℕ) : Program Row :=
  .row (.job job) (·.isNone) (fun _ ↦ some ⟨.inactive, 0, 0, 0, none, none, []⟩) fun _ ↦ .commit

def completeJob (job : ℕ) : Program Row :=
  .row (.job job) (fun _ ↦ true) (Option.map ({ · with status := .completed, allocation := 0 }))
    fun _ ↦ .commit

end Programs

inductive Operation
  | claim (now maxTaskSeconds : ℤ) (job task claim worker : ℕ)
  | heartbeat (now : ℤ) (claim worker : ℕ)
  | decline (claim worker : ℕ) (timeLimit : Bool) (overruns : List ℕ)
  | reclaim (now timeout : ℤ) (jobs claims : List ℕ)
  | submit (now : ℤ) (claim worker : ℕ) (deadlinesEnforced : Bool) (overruns : List ℕ)
  | countOverruns (job : ℕ) (overruns : List ℕ)
  | setAllocations (now : ℤ) (rows : List (ℕ × ℕ))
  | createJob (job : ℕ)
  | completeJob (job : ℕ)

def program : Operation → Program Row
  | .claim now maxTaskSeconds job task claim worker =>
    issueClaim now maxTaskSeconds job task claim worker
  | .heartbeat now claim worker => heartbeat now claim worker
  | .decline claim worker timeLimit overruns => declineTask claim worker timeLimit overruns
  | .reclaim now timeout jobs claims => reclaimExpiredFor now timeout jobs claims
  | .submit now claim worker deadlinesEnforced overruns =>
    submitResult now claim worker deadlinesEnforced overruns
  | .countOverruns job overruns => recordTimeLimit job none overruns
  | .setAllocations now rows => setAllocations now rows
  | .createJob job => createJob job
  | .completeJob job => completeJob job

def start (st : Store Row) : Prop := (∀ j, st (.job j) = none) ∧ ∀ c, st (.claim c) = none

/-- Any number of workers' and administrators' transactions, from an empty database. `now` is when
a transaction began. -/
def machine : Machine (Database Row Operation) (Action Operation) := interleaved program start

section History

def streakSince : List Event → Option ℤ
  | [] => none
  | .completed time :: _ | .putBack time :: _ => some time
  | .declined :: h | .overran _ _ :: h | .setAside :: h => streakSince h

def declinesSince : List Event → ℕ
  | [] | .completed _ :: _ | .putBack _ :: _ => 0
  | .declined :: h => declinesSince h + 1
  | .overran _ _ :: h | .setAside :: h => declinesSince h

def Event.overranAfter (since : Option ℤ) : Event → Bool
  | .overran _ deadlineAt => inRun since deadlineAt
  | _ => false

/-- The declines since the last reset, and the counted overruns whose deadline falls after the
start of the current run. -/
def streak (h : List Event) : ℕ := declinesSince h + h.countP (Event.overranAfter (streakSince h))

def Event.hitTimeLimit : Event → Bool
  | .declined | .overran _ _ => true
  | _ => false

def Event.claim : Event → Option ℕ
  | .overran claim _ => some claim
  | _ => none

def Event.time : Event → Option ℤ
  | .completed time | .overran _ time => some time
  | _ => none

/-- No task was completed after the current run began. -/
def NoneCompletedSince (h : List Event) : Prop :=
  ∀ time, .completed time ∈ h → ∃ since, streakSince h = some since ∧ time ≤ since

variable {h h' : List Event} {time : ℤ} {declined : Bool} {counted : List (ℕ × TaskClaim)}

@[simp] theorem counts_cons (c : ℕ × TaskClaim) :
    counts false (c :: counted) = .overran c.1 c.2.deadlineAt :: counts false counted := rfl

theorem counts_true : counts true counted = .declined :: counts false counted := rfl

theorem streakSince_counts : streakSince (counts declined counted ++ h) = streakSince h := by
  have hoverruns : streakSince (counts false counted ++ h) = streakSince h := by
    induction counted with
    | nil => rfl
    | cons c counted ih => exact ih
  cases declined with
  | false => exact hoverruns
  | true => exact hoverruns

theorem declinesSince_counts :
    declinesSince (counts declined counted ++ h) = declinesSince h + declined.toNat := by
  have hoverruns : declinesSince (counts false counted ++ h) = declinesSince h := by
    induction counted with
    | nil => rfl
    | cons c counted ih => exact ih
  cases declined with
  | false => exact hoverruns
  | true => exact congrArg (· + 1) hoverruns

theorem countP_counts (p : Event → Bool) : (counts declined counted ++ h).countP p =
    (if declined then (p .declined).toNat else 0) +
      counted.countP (fun c ↦ p (.overran c.1 c.2.deadlineAt)) + h.countP p := by
  have hoverruns : (counts false counted ++ h).countP p =
      counted.countP (fun c ↦ p (.overran c.1 c.2.deadlineAt)) + h.countP p := by
    rw [List.countP_append, counts, if_neg Bool.false_ne_true, List.nil_append, List.countP_map]
    rfl
  cases declined with
  | false => simpa using hoverruns
  | true =>
    rw [counts_true, List.cons_append, List.countP_cons, hoverruns]
    cases p .declined
    · simp
    · simp
      omega

theorem streak_counts : streak (counts declined counted ++ h) =
    streak h + (declined.toNat + counted.countP fun c ↦ inRun (streakSince h) c.2.deadlineAt) := by
  rw [streak, streakSince_counts, declinesSince_counts, countP_counts, streak]
  simp only [Event.overranAfter, Bool.toNat_false, ite_self]
  omega

theorem filterMap_claim_counts : (counts declined counted ++ h).filterMap Event.claim =
    counted.map Prod.fst ++ h.filterMap Event.claim := by
  have hoverruns : (counts false counted ++ h).filterMap Event.claim =
      counted.map Prod.fst ++ h.filterMap Event.claim := by
    induction counted with
    | nil => rfl
    | cons c counted ih =>
      rw [counts_cons, List.cons_append, List.filterMap_cons, ih]
      rfl
  cases declined with
  | false => exact hoverruns
  | true => exact hoverruns

theorem completed_of_mem_counts (hmem : .completed time ∈ counts declined counted ++ h) :
    .completed time ∈ h := by
  rcases List.mem_append.1 hmem with hmem | hmem
  · cases declined <;> simp [counts] at hmem
  · exact hmem

theorem setAside_suffix_overruns (hs : .setAside :: h' <:+ counts false counted ++ h) :
    .setAside :: h' <:+ h := by
  induction counted with
  | nil => exact hs
  | cons c counted ih =>
    rw [counts_cons, List.cons_append, List.suffix_cons_iff] at hs
    exact ih (hs.resolve_left nofun)

theorem setAside_suffix_counts (hs : .setAside :: h' <:+ counts declined counted ++ h) :
    .setAside :: h' <:+ h := by
  cases declined with
  | false => exact setAside_suffix_overruns hs
  | true =>
    rw [counts_true, List.cons_append, List.suffix_cons_iff] at hs
    exact setAside_suffix_overruns (hs.resolve_left nofun)

end History

section Jobs

variable {job : Job} {now : ℤ}

/-- A job's columns are those of its history, in which no task was completed after the current run
began, nor was when the job was set aside. -/
structure Job.Ordered (job : Job) : Prop where
  since : job.timeLimitStreakSince = streakSince job.history
  streak : job.timeLimitStreak = streak job.history
  completed : NoneCompletedSince job.history
  setAside {h : List Event} : .setAside :: h <:+ job.history →
    streakLimit ≤ TimeLimits.streak h ∧ NoneCompletedSince h

/-- A reset no earlier than the results that were accepted and the deadlines that were counted. -/
def Job.ResetsInOrder (job : Job) (now : ℤ) : Prop :=
  ∀ event ∈ job.history, ∀ time ∈ event.time, time ≤ now

theorem Job.Ordered.addTimeLimits (h : job.Ordered) {declined : Bool}
    {counted : List (ℕ × TaskClaim)} :
    (addTimeLimits job.timeLimitStreakSince declined counted job).Ordered := by
  refine ⟨?_, ?_, fun time htime ↦ ?_, fun {h'} hsuffix ↦ ?_⟩
  · exact h.since.trans streakSince_counts.symm
  · rw [TimeLimits.addTimeLimits, h.streak, h.since]
    exact streak_counts.symm
  · rw [TimeLimits.addTimeLimits, streakSince_counts]
    exact h.completed time (completed_of_mem_counts htime)
  · exact h.setAside (setAside_suffix_counts hsuffix)

theorem Job.Ordered.putAside (h : job.Ordered) {maxTaskSeconds : ℤ}
    (hstreak : streakLimit ≤ job.timeLimitStreak) :
    (TimeLimits.setAside maxTaskSeconds job).Ordered := by
  rw [TimeLimits.setAside]
  split
  · refine ⟨h.since, ?_, fun time htime ↦ ?_, fun {h'} hsuffix ↦ ?_⟩
    · rw [h.streak, TimeLimits.streak, TimeLimits.streak, List.countP_cons_of_neg]
      · rfl
      · exact Bool.false_ne_true
    · exact h.completed time ((List.mem_cons.1 htime).resolve_left nofun)
    · rcases List.suffix_cons_iff.1 hsuffix with heq | hsuffix
      · obtain ⟨-, rfl⟩ := List.cons.inj heq
        exact ⟨h.streak ▸ hstreak, h.completed⟩
      · exact h.setAside hsuffix
  · exact h

theorem countP_overranAfter (h : job.ResetsInOrder now) :
    job.history.countP (Event.overranAfter (some now)) = 0 := by
  rw [List.countP_eq_zero]
  intro event hevent
  cases event with
  | overran claim deadlineAt =>
    have hle : deadlineAt ≤ now := h _ hevent deadlineAt rfl
    simp only [Event.overranAfter, inRun, Option.all_some, decide_eq_true_eq]
    omega
  | _ => exact Bool.false_ne_true

theorem noneCompletedSince_of_reset (hreset : job.ResetsInOrder now)
    {event : Event} (hsince : streakSince (event :: job.history) = some now)
    (htime : ∀ time, event = .completed time → time ≤ now) :
    NoneCompletedSince (event :: job.history) := by
  intro time hmem
  refine ⟨now, hsince, ?_⟩
  rcases List.mem_cons.1 hmem with heq | hmem
  · exact htime time heq.symm
  · exact hreset _ hmem time rfl

theorem Job.Ordered.complete (h : job.Ordered) (hreset : job.ResetsInOrder now) :
    (complete now job).Ordered := by
  refine ⟨rfl, ?_, ?_, fun {h'} hsuffix ↦ ?_⟩
  · have hzero := countP_overranAfter hreset
    rw [TimeLimits.complete, TimeLimits.streak, List.countP_cons_of_neg Bool.false_ne_true]
    exact hzero.symm.trans (Nat.zero_add _).symm
  · exact noneCompletedSince_of_reset hreset rfl fun time heq ↦
      (Event.completed.inj heq).symm.le
  · exact h.setAside ((List.suffix_cons_iff.1 hsuffix).resolve_left nofun)

/-- No other reset by a result leaves the columns those of the history. -/
theorem resetsInOrder_of_complete (h : (TimeLimits.complete now job).Ordered) :
    job.ResetsInOrder now := by
  have hcount : job.history.countP (Event.overranAfter (some now)) = 0 := by
    have hstreak := h.streak
    rw [TimeLimits.complete, TimeLimits.streak,
      List.countP_cons_of_neg Bool.false_ne_true] at hstreak
    exact (hstreak.trans (Nat.zero_add _)).symm
  intro event hevent time htime
  cases event with
  | overran claim deadlineAt =>
    cases htime
    have hafter := List.countP_eq_zero.1 hcount _ hevent
    simp only [Event.overranAfter, inRun, Option.all_some, decide_eq_true_eq] at hafter
    omega
  | completed completedAt =>
    obtain ⟨since, hsince, hle⟩ := h.completed completedAt (List.mem_cons_of_mem _ hevent)
    cases hsince
    cases htime
    exact hle
  | _ => cases htime

theorem Job.Ordered.allocate (h : job.Ordered) {allocation : ℕ}
    (hreset : 0 < allocation → job.status ≠ .active → job.ResetsInOrder now) :
    (allocate now allocation job).Ordered := by
  rw [TimeLimits.allocate]
  split
  · exact h
  · split
    · next hpos =>
      by_cases hactive : job.status = .active
      · simp only [hactive, if_true]
        exact ⟨h.since, h.streak, h.completed, h.setAside⟩
      · have hreset := hreset hpos hactive
        simp only [hactive, if_false]
        refine ⟨rfl, ?_, ?_, fun {h'} hsuffix ↦ ?_⟩
        · have hzero := countP_overranAfter hreset
          rw [TimeLimits.streak, List.countP_cons_of_neg Bool.false_ne_true]
          exact hzero.symm.trans (Nat.zero_add _).symm
        · exact noneCompletedSince_of_reset hreset rfl nofun
        · exact h.setAside ((List.suffix_cons_iff.1 hsuffix).resolve_left nofun)
    · exact ⟨h.since, h.streak, h.completed, h.setAside⟩

end Jobs

section Tables

def jobs (st : Store Row) (j : ℕ) : Option Job := st (.job j)

def claims (st : Store Row) (c : ℕ) : Option TaskClaim := st (.claim c)

variable (st : Store Row)

@[simp]
theorem jobs_update_job (j : ℕ) (v : Option Job) :
    jobs (Function.update st (.job j) v) = Function.update (jobs st) j v :=
  Function.update_comp_eq_of_injective' st (fun _ _ h ↦ Key.job.inj h) j v

@[simp]
theorem jobs_update_claim (c : ℕ) (v : Option TaskClaim) :
    jobs (Function.update st (.claim c) v) = jobs st := rfl

@[simp]
theorem claims_update_job (j : ℕ) (v : Option Job) :
    claims (Function.update st (.job j) v) = claims st := rfl

@[simp]
theorem claims_update_claim (c : ℕ) (v : Option TaskClaim) :
    claims (Function.update st (.claim c) v) = Function.update (claims st) c v :=
  Function.update_comp_eq_of_injective' st (fun _ _ h ↦ Key.claim.inj h) c v

end Tables

section Invariant

variable {st st' : Store Row} {ordered : Prop} {j c : ℕ} {job : Job} {cl : TaskClaim}

def countedFor (row : Option TaskClaim) : Option ℕ :=
  row.bind fun cl ↦ if cl.overrun = some .counted then some cl.job else none

/-- Every hit of the time limit in a job's history is in its total, and its overruns are those of
its claims that are marked counted, once each. -/
structure Totals (claims : ℕ → Option TaskClaim) (j : ℕ) (job : Job) : Prop where
  declines : job.timeLimitDeclines = job.history.countP Event.hitTimeLimit
  nodup : (job.history.filterMap Event.claim).Nodup
  counted (c : ℕ) : countedFor (claims c) = some j ↔ c ∈ job.history.filterMap Event.claim

/-- The invariant of every run, and what holds besides where resets are in order. -/
structure StoreInv (ordered : Prop) (st : Store Row) : Prop where
  totals {j : ℕ} {job : Job} : jobs st j = some job → Totals (claims st) j job
  idle {c : ℕ} {cl : TaskClaim} : claims st c = some cl → cl.state = .claimed → cl.overrun = none
  job {c : ℕ} {cl : TaskClaim} : claims st c = some cl → (jobs st cl.job).isSome
  ordered {j : ℕ} {job : Job} : ordered → jobs st j = some job → job.Ordered

theorem StoreInv.setClaim (h : StoreInv ordered st) (v : Option TaskClaim)
    (hcounted : countedFor v = countedFor (claims st c))
    (hidle : ∀ cl, v = some cl → cl.state = .claimed → cl.overrun = none)
    (hjob : ∀ cl, v = some cl → (jobs st cl.job).isSome) :
    StoreInv ordered (Function.update st (.claim c) v) := by
  have hsame (c' : ℕ) : countedFor (Function.update (claims st) c v c') =
      countedFor (claims st c') := by
    by_cases hc : c' = c
    · subst hc
      rw [Function.update_self, hcounted]
    · rw [Function.update_of_ne hc]
  refine ⟨fun {j job} hj ↦ ?_, fun {c' cl} hc' ↦ ?_, fun {c' cl} hc' ↦ ?_, h.ordered⟩
  · obtain ⟨hdeclines, hnodup, hall⟩ := h.totals hj
    refine ⟨hdeclines, hnodup, fun c' ↦ ?_⟩
    rw [claims_update_claim, hsame]
    exact hall c'
  · rw [claims_update_claim] at hc'
    by_cases hc : c' = c
    · subst hc
      rw [Function.update_self] at hc'
      exact hidle cl hc'
    · rw [Function.update_of_ne hc] at hc'
      exact h.idle hc'
  · rw [claims_update_claim] at hc'
    by_cases hc : c' = c
    · subst hc
      rw [Function.update_self] at hc'
      exact hjob cl hc'
    · rw [Function.update_of_ne hc] at hc'
      exact h.job hc'

theorem StoreInv.endClaim (h : StoreInv ordered st) (hcl : claims st c = some cl)
    (f : TaskClaim → TaskClaim) (hjob : (f cl).job = cl.job)
    (hoverrun : (f cl).overrun = cl.overrun ∨ cl.overrun = none ∧ (f cl).overrun ≠ some .counted)
    (hstate : (f cl).state ≠ .claimed) :
    StoreInv ordered (Function.update st (.claim c) (some (f cl))) := by
  apply h.setClaim
  · rw [hcl]
    rcases hoverrun with hsame | ⟨hnone, hnot⟩
    · simp [countedFor, hsame, hjob]
    · simp [countedFor, hnone, hnot]
  · rintro _ ⟨⟩ hclaimed
    exact absurd hclaimed hstate
  · rintro _ ⟨⟩
    rw [hjob]
    exact h.job hcl

theorem StoreInv.setJob (h : StoreInv ordered st) {job' : Job} (hj : jobs st j = some job)
    (htotals : Totals (claims st) j job → Totals (claims st) j job')
    (hordered : ordered → job.Ordered → job'.Ordered) :
    StoreInv ordered (Function.update st (.job j) (some job')) := by
  refine ⟨fun {j' row} hj' ↦ ?_, h.idle, fun {c cl} hc ↦ ?_, fun {j' row} hok hj' ↦ ?_⟩
  · rw [jobs_update_job] at hj'
    obtain ⟨rfl, rfl⟩ | ⟨hjj, hj'⟩ := of_update_eq_some hj'
    · exact htotals (h.totals hj)
    · exact h.totals hj'
  · rw [jobs_update_job]
    exact isSome_update _ (h.job hc)
  · rw [jobs_update_job] at hj'
    obtain ⟨rfl, rfl⟩ | ⟨hjj, hj'⟩ := of_update_eq_some hj'
    · exact hordered hok (h.ordered hok hj)
    · exact h.ordered hok hj'

end Invariant

section Record

variable {st st' : Store Row} {ordered : Prop} {job : ℕ} {row : Job}
  {counted : List (ℕ × TaskClaim)} {overruns : List ℕ}

/-- What the counting of overruns has done to the tables: it has marked the claims that it counts,
which were pending overruns of the job. -/
structure Counting (job : ℕ) (counted : List (ℕ × TaskClaim)) (st st' : Store Row) : Prop where
  nodup : (counted.map Prod.fst).Nodup
  pending {p : ℕ × TaskClaim} : p ∈ counted →
    claims st p.1 = some p.2 ∧ p.2.job = job ∧ p.2.overrun = some .pending
  marked {p : ℕ × TaskClaim} : p ∈ counted →
    claims st' p.1 = some { p.2 with overrun := some .counted }
  claims {c : ℕ} : c ∉ counted.map Prod.fst → claims st' c = claims st c
  jobs : jobs st' = jobs st

theorem Counting.refl : Counting job [] st st :=
  ⟨List.nodup_nil, nofun, nofun, fun _ ↦ rfl, rfl⟩

theorem Counting.append (h : Counting job counted st st') {c : ℕ} {cl : TaskClaim}
    (hcl : TimeLimits.claims st' c = some cl) (hjob : cl.job = job)
    (hpending : cl.overrun = some .pending) :
    Counting job (counted ++ [(c, cl)]) st
      (Function.update st' (.claim c) (some { cl with overrun := some .counted })) := by
  have hnot : c ∉ counted.map Prod.fst := by
    intro hmem
    obtain ⟨p, hp, rfl⟩ := List.mem_map.1 hmem
    cases (h.marked hp).symm.trans hcl
    cases hpending
  constructor
  · rw [List.map_append]
    exact h.nodup.append (List.nodup_singleton _) (List.disjoint_singleton.2 hnot)
  · intro p hp
    rcases List.mem_append.1 hp with hp | hp
    · exact h.pending hp
    · obtain rfl := List.mem_singleton.1 hp
      exact ⟨(h.claims hnot).symm.trans hcl, hjob, hpending⟩
  · intro p hp
    rw [claims_update_claim]
    rcases List.mem_append.1 hp with hp | hp
    · have hne : p.1 ≠ c := fun he ↦ hnot (he ▸ List.mem_map_of_mem hp)
      rw [Function.update_of_ne hne]
      exact h.marked hp
    · obtain rfl := List.mem_singleton.1 hp
      exact Function.update_self ..
  · intro c' hc'
    rw [List.map_append, List.mem_append, not_or] at hc'
    rw [claims_update_claim, Function.update_of_ne fun he ↦ hc'.2 (List.mem_singleton.2 he)]
    exact h.claims hc'.1
  · rw [jobs_update_claim]
    exact h.jobs

theorem ensures_countOverruns {k : List (ℕ × TaskClaim) → Program Row} {Q : Store Row → Prop}
    (hk : ∀ counted st', Counting job counted st st' → (k counted).Ensures Q st')
    (h : Counting job counted st st') : (countOverruns job k overruns counted).Ensures Q st' := by
  induction overruns generalizing counted st' with
  | nil => exact hk counted st' h
  | cons c overruns ih =>
    apply Program.ensures_row
    intro hguard
    obtain ⟨cl, hcl, hpass⟩ := (Option.any_eq_true ..).1 hguard
    obtain ⟨hjob, hpending⟩ := of_decide_eq_true hpass
    rw [hcl]
    exact ih (h.append hcl hjob hpending)

theorem StoreInv.addTimeLimits (h : StoreInv ordered st) (hc : Counting job counted st st')
    (hj : jobs st job = some row) (declined : Bool) :
    StoreInv ordered (Function.update st' (.job job)
      (some (addTimeLimits row.timeLimitStreakSince declined counted row))) := by
  have hfor (c j : ℕ) : countedFor (claims st' c) = some j ↔
      countedFor (claims st c) = some j ∨ j = job ∧ c ∈ counted.map Prod.fst := by
    by_cases hmem : c ∈ counted.map Prod.fst
    · obtain ⟨p, hp, rfl⟩ := List.mem_map.1 hmem
      obtain ⟨hcl, rfl, hpending⟩ := hc.pending hp
      simp [hc.marked hp, hcl, hpending, countedFor, List.mem_map_of_mem hp, eq_comm]
    · simp [hc.claims hmem, hmem]
  refine ⟨fun {j row'} hj' ↦ ?_, fun {c cl} hcl hclaimed ↦ ?_, fun {c cl} hcl ↦ ?_,
    fun {j row'} hok hj' ↦ ?_⟩
  · rw [jobs_update_job, hc.jobs] at hj'
    rw [claims_update_job]
    obtain ⟨rfl, rfl⟩ | ⟨hjj, hj'⟩ := of_update_eq_some hj'
    · obtain ⟨hdeclines, hnodup, hall⟩ := h.totals hj
      refine ⟨?_, ?_, fun c ↦ ?_⟩
      · simp only [TimeLimits.addTimeLimits, countP_counts, hdeclines]
        cases declined <;> simp [Event.hitTimeLimit] <;> omega
      · rw [TimeLimits.addTimeLimits, filterMap_claim_counts]
        refine hc.nodup.append hnodup fun c hmem hmem' ↦ ?_
        obtain ⟨p, hp, rfl⟩ := List.mem_map.1 hmem
        obtain ⟨hcl, hjob, hpending⟩ := hc.pending hp
        have hcounted := (hall p.1).2 hmem'
        simp [countedFor, hcl, hpending] at hcounted
      · rw [hfor, TimeLimits.addTimeLimits, filterMap_claim_counts, List.mem_append, hall c]
        simp [or_comm]
    · obtain ⟨hdeclines, hnodup, hall⟩ := h.totals hj'
      refine ⟨hdeclines, hnodup, fun c ↦ ?_⟩
      rw [hfor, hall c]
      simp [hjj]
  · rw [claims_update_job] at hcl
    by_cases hmem : c ∈ counted.map Prod.fst
    · obtain ⟨p, hp, rfl⟩ := List.mem_map.1 hmem
      obtain ⟨hold, -, hpending⟩ := hc.pending hp
      cases (hc.marked hp).symm.trans hcl
      have hnone := h.idle hold hclaimed
      rw [hpending] at hnone
      cases hnone
    · exact h.idle ((hc.claims hmem).symm.trans hcl) hclaimed
  · rw [claims_update_job] at hcl
    rw [jobs_update_job, hc.jobs]
    refine isSome_update _ ?_
    by_cases hmem : c ∈ counted.map Prod.fst
    · obtain ⟨p, hp, rfl⟩ := List.mem_map.1 hmem
      obtain ⟨hold, -, -⟩ := hc.pending hp
      cases (hc.marked hp).symm.trans hcl
      have hisSome := h.job hold
      exact hisSome
    · exact h.job ((hc.claims hmem).symm.trans hcl)
  · rw [jobs_update_job, hc.jobs] at hj'
    obtain ⟨rfl, rfl⟩ | ⟨hjj, hj'⟩ := of_update_eq_some hj'
    · exact (h.ordered hok hj).addTimeLimits
    · exact h.ordered hok hj'

theorem Totals.putAside {claims : ℕ → Option TaskClaim} (h : Totals claims job row)
    {maxTaskSeconds : ℤ} : Totals claims job (setAside maxTaskSeconds row) := by
  rw [setAside]
  split
  · exact ⟨h.declines, h.nodup, h.counted⟩
  · exact h

theorem StoreInv.recordTimeLimit (h : StoreInv ordered st) {declined : Option ℤ} :
    (recordTimeLimit job declined overruns).Ensures (StoreInv ordered) st := by
  apply Program.ensures_row
  intro hguard
  obtain ⟨row, hrow⟩ := Option.isSome_iff_exists.1 hguard
  rw [id_eq, Function.update_eq_self]
  refine ensures_countOverruns (fun counted st₁ hc ↦ ?_) .refl
  have hadd := h.addTimeLimits hc hrow declined.isSome
  have hrow₁ : st₁ (.job job) = some row := (congrFun hc.jobs job).trans hrow
  have hsince : (st (.job job)).bind (·.timeLimitStreakSince) = row.timeLimitStreakSince := by
    rw [hrow]
    rfl
  rw [hsince]
  split
  · next hnone =>
    obtain ⟨hdeclined, hcounted⟩ := Option.or_eq_none_iff.1 hnone
    have hnil : counted = [] := overrunLimit_eq_none.1 hcounted
    subst hnil hdeclined
    apply Program.ensures_commit
    -- Adding nothing to the row leaves it as it is.
    have hsame : Function.update st₁ (.job job) (some row) = st₁ := by
      rw [← hrow₁, Function.update_eq_self]
    exact hsame ▸ hadd
  · next maxTaskSeconds _ =>
    apply Program.ensures_row
    intro _
    rw [hrow₁, Option.map_some]
    split
    · exact Program.ensures_commit hadd
    · next hlimit =>
      apply Program.ensures_row
      intro _
      apply Program.ensures_commit
      rw [Function.update_self, Option.map_some]
      refine hadd.setJob (jobs_update_job .. ▸ Function.update_self ..) (·.putAside) fun _ hrow ↦ ?_
      apply hrow.putAside
      simp only [Option.any_some, decide_eq_true_eq, not_or, not_lt] at hlimit
      exact hlimit.1

end Record

section Operations

variable {st : Store Row} {ordered : Prop} {now : ℤ} {claim worker : ℕ}

/-- Every reset of a time-limit run is in order: that by an accepted result, and that of a job put
back to work. -/
def InOrder (st : Store Row) : Operation → Prop
  | .submit now claim _ deadlinesEnforced _ => ∀ c ∈ claims st claim,
    ¬(pastDeadline now c ∧ deadlinesEnforced) → ∀ job ∈ jobs st c.job, job.ResetsInOrder now
  | .setAllocations now rows => ∀ row ∈ rows, 0 < row.2 →
    ∀ job ∈ jobs st row.1, job.status ≠ .active → job.ResetsInOrder now
  | _ => True

theorem ensures_lockClaim {k : TaskClaim → Program Row} {Q : Store Row → Prop}
    (h : ∀ c, claims st claim = some c → c.state = .claimed → (k c).Ensures Q st) :
    (lockClaim claim worker k).Ensures Q st := by
  apply Program.ensures_row
  intro hguard
  obtain ⟨c, hc, hpass⟩ := (Option.any_eq_true ..).1 hguard
  rw [id_eq, Function.update_eq_self, hc]
  exact h c hc (of_decide_eq_true hpass).1

theorem StoreInv.issueClaim (h : StoreInv ordered st) {maxTaskSeconds : ℤ} {job task : ℕ} :
    (issueClaim now maxTaskSeconds job task claim worker).Ensures (StoreInv ordered) st := by
  apply Program.ensures_row
  intro hnone
  apply Program.ensures_row
  intro hjob
  apply Program.ensures_commit
  obtain ⟨row, hrow, -⟩ := (Option.any_eq_true ..).1 hjob
  have hclaim : claims st claim = none := Option.isNone_iff_eq_none.1 hnone
  rw [id_eq, Function.update_eq_self]
  apply h.setClaim
  · rw [hclaim]
    rfl
  · rintro _ ⟨⟩ _
    rfl
  · rintro _ ⟨⟩
    exact Option.isSome_iff_exists.2 ⟨row, hrow⟩

theorem StoreInv.heartbeat (h : StoreInv ordered st) :
    (heartbeat now claim worker).Ensures (StoreInv ordered) st := by
  apply Program.ensures_row
  intro hguard
  apply Program.ensures_commit
  obtain ⟨c, hc, -⟩ := (Option.any_eq_true ..).1 hguard
  have hclaim : claims st claim = some c := hc
  have hidle := h.idle hclaim
  have hjob := h.job hclaim
  rw [hc, Option.map_some]
  apply h.setClaim
  · rw [hclaim]
    rfl
  · rintro _ ⟨⟩ hclaimed
    exact hidle hclaimed
  · rintro _ ⟨⟩
    exact hjob

theorem StoreInv.declineTask (h : StoreInv ordered st) {timeLimit : Bool} {overruns : List ℕ} :
    (declineTask claim worker timeLimit overruns).Ensures (StoreInv ordered) st := by
  apply ensures_lockClaim
  intro c hc _
  apply Program.ensures_row
  intro _
  have hend := h.endClaim hc ({ · with state := .declined }) rfl (.inl rfl) nofun
  rw [show st (.claim claim) = some c from hc, Option.map_some]
  split
  · exact hend.recordTimeLimit
  · exact Program.ensures_commit hend

theorem StoreInv.reclaimExpiredFor (h : StoreInv ordered st) {timeout : ℤ} {jobs claims : List ℕ} :
    (reclaimExpiredFor now timeout jobs claims).Ensures (StoreInv ordered) st := by
  induction claims generalizing st with
  | nil => exact Program.ensures_commit h
  | cons c claims ih =>
    apply Program.ensures_row
    intro hguard
    obtain ⟨cl, hc, hpass⟩ := (Option.any_eq_true ..).1 hguard
    have hclaimed : cl.state = .claimed := (of_decide_eq_true (of_decide_eq_true hpass).2).1
    rw [hc, Option.map_some]
    apply ih
    apply h.endClaim hc (abandon now timeout) rfl
    · refine .inr ⟨h.idle hc hclaimed, ?_⟩
      rw [abandon]
      split <;> nofun
    · nofun

theorem StoreInv.complete (h : StoreInv ordered st) {job : ℕ} {row : Job}
    (hrow : jobs st job = some row) (hreset : ordered → row.ResetsInOrder now) :
    StoreInv ordered (Function.update st (.job job) (some (complete now row))) := by
  apply h.setJob hrow
  · intro htotals
    exact ⟨htotals.declines, htotals.nodup, htotals.counted⟩
  · intro hok hordered
    exact hordered.complete (hreset hok)

theorem StoreInv.submitResult (h : StoreInv ordered st) {deadlinesEnforced : Bool}
    {overruns : List ℕ}
    (hok : ordered → InOrder st (.submit now claim worker deadlinesEnforced overruns)) :
    (submitResult now claim worker deadlinesEnforced overruns).Ensures (StoreInv ordered) st := by
  apply ensures_lockClaim
  intro c hc hclaimed
  obtain ⟨row, hrow⟩ := Option.isSome_iff_exists.1 (h.job hc)
  have hst : st (.claim claim) = some c := hc
  split
  · apply Program.ensures_row
    intro _
    apply Program.ensures_row
    intro _
    rw [Function.update_self, Function.update_idem, hst]
    refine (h.endClaim hc
      (fun c ↦ { c with state := .abandoned, overrun := some .pending }) rfl ?_
      nofun).recordTimeLimit
    exact .inr ⟨h.idle hc hclaimed, nofun⟩
  · next hlate =>
    apply Program.ensures_row
    intro _
    apply Program.ensures_row
    intro _
    apply Program.ensures_commit
    rw [hst, Option.map_some]
    have hend := h.endClaim hc
      ({ · with state := .completed, completedAt := some now }) rfl (.inl rfl) nofun
    have hrow' : jobs (Function.update st (.claim claim)
        (some { c with state := .completed, completedAt := some now })) c.job = some row := hrow
    exact (congrArg (Option.map (TimeLimits.complete now)) hrow') ▸
      hend.complete hrow' fun hordered ↦ hok hordered c hc hlate row hrow

theorem ensures_lockJobs {k : Program Row} {Q : Store Row → Prop} {rows : List (ℕ × ℕ)}
    (h : k.Ensures Q st) : (lockJobs k rows).Ensures Q st := by
  induction rows with
  | nil => exact h
  | cons row rows ih =>
    apply Program.ensures_row
    intro _
    rw [id_eq, Function.update_eq_self]
    exact ih

theorem Totals.allocate {claims : ℕ → Option TaskClaim} {job : ℕ} {row : Job}
    (h : Totals claims job row) {allocation : ℕ} :
    Totals claims job (allocate now allocation row) := by
  rw [TimeLimits.allocate]
  split
  · exact h
  · split
    · refine ⟨?_, ?_, fun c ↦ ?_⟩ <;> split
      · exact h.declines
      · exact h.declines
      · exact h.nodup
      · exact h.nodup
      · exact h.counted c
      · exact h.counted c
    · exact ⟨h.declines, h.nodup, h.counted⟩

theorem StoreInv.allocateJobs (h : StoreInv ordered st) {rows : List (ℕ × ℕ)}
    (hnodup : (rows.map Prod.fst).Nodup) (hok : ordered → InOrder st (.setAllocations now rows)) :
    (allocateJobs now rows).Ensures (StoreInv ordered) st := by
  induction rows generalizing st with
  | nil => exact Program.ensures_commit h
  | cons r rows ih =>
    obtain ⟨job, allocation⟩ := r
    rw [List.map_cons, List.nodup_cons] at hnodup
    apply Program.ensures_row
    intro _
    apply ih _ hnodup.2
    · intro hordered row hmem hpos job' hrow
      have hne : row.1 ≠ job := fun he ↦
        hnodup.1 (he ▸ List.mem_map.2 ⟨row, hmem, rfl⟩)
      rw [jobs_update_job, Function.update_of_ne hne] at hrow
      exact hok hordered row (List.mem_cons_of_mem _ hmem) hpos job' hrow
    · cases hrow : jobs st job with
      | none =>
        have hst : st (.job job) = none := hrow
        rw [hst, Option.map_none, ← hst, Function.update_eq_self]
        exact h
      | some row =>
        rw [show st (.job job) = some row from hrow, Option.map_some]
        apply h.setJob hrow
        · exact fun htotals ↦ htotals.allocate
        · intro hordered hrow'
          exact hrow'.allocate
            (hok hordered _ List.mem_cons_self · row hrow)

theorem StoreInv.setAllocations (h : StoreInv ordered st) {rows : List (ℕ × ℕ)}
    (hok : ordered → InOrder st (.setAllocations now rows)) :
    (setAllocations now rows).Ensures (StoreInv ordered) st := by
  rw [TimeLimits.setAllocations]
  split
  · next hnodup => exact ensures_lockJobs (h.allocateJobs hnodup hok)
  · exact Program.ensures_commit h

theorem StoreInv.completeJob (h : StoreInv ordered st) {job : ℕ} :
    (completeJob job).Ensures (StoreInv ordered) st := by
  apply Program.ensures_row
  intro _
  apply Program.ensures_commit
  cases hrow : st (.job job) with
  | none =>
    rw [Option.map_none, ← hrow, Function.update_eq_self]
    exact h
  | some row =>
    apply h.setJob hrow
    · intro htotals
      exact ⟨htotals.declines, htotals.nodup, htotals.counted⟩
    · intro _ hordered
      exact ⟨hordered.since, hordered.streak, hordered.completed, hordered.setAside⟩

theorem StoreInv.createJob (h : StoreInv ordered st) {job : ℕ} :
    (createJob job).Ensures (StoreInv ordered) st := by
  apply Program.ensures_row
  intro hguard
  apply Program.ensures_commit
  have hnone : jobs st job = none := Option.isNone_iff_eq_none.1 hguard
  refine ⟨fun {j row} hj ↦ ?_, h.idle, fun {c cl} hc ↦ ?_, fun {j row} hok hj ↦ ?_⟩
  · rw [jobs_update_job] at hj
    obtain ⟨rfl, rfl⟩ | ⟨hjj, hj⟩ := of_update_eq_some hj
    · refine ⟨rfl, List.nodup_nil, fun c ↦ ⟨fun hcounted ↦ ?_, nofun⟩⟩
      -- A claim of the job would have had a job.
      obtain ⟨cl, hcl, hcounted⟩ := Option.bind_eq_some_iff.1 hcounted
      obtain ⟨-, rfl⟩ : cl.overrun = some .counted ∧ cl.job = j := by simpa using hcounted
      have hisSome := h.job hcl
      rw [hnone] at hisSome
      cases hisSome
    · exact h.totals hj
  · rw [jobs_update_job]
    exact isSome_update _ (h.job hc)
  · rw [jobs_update_job] at hj
    obtain ⟨rfl, rfl⟩ | ⟨hjj, hj⟩ := of_update_eq_some hj
    · exact ⟨rfl, rfl, nofun, fun hsuffix ↦ nomatch List.suffix_nil.1 hsuffix⟩
    · exact h.ordered hok hj

theorem StoreInv.exec (h : StoreInv ordered st) (op : Operation) (hok : ordered → InOrder st op) :
    (program op).Ensures (StoreInv ordered) st := by
  cases op with
  | claim => exact h.issueClaim
  | heartbeat => exact h.heartbeat
  | decline => exact h.declineTask
  | reclaim => exact h.reclaimExpiredFor
  | submit => exact h.submitResult hok
  | countOverruns => exact h.recordTimeLimit
  | setAllocations => exact h.setAllocations hok
  | createJob => exact h.createJob
  | completeJob => exact h.completeJob

theorem storeInv_of_start (h : start st) : StoreInv ordered st := by
  refine ⟨fun {j row} hj ↦ ?_, fun {c cl} hc ↦ ?_, fun {c cl} hc ↦ ?_, fun {j row} _ hj ↦ ?_⟩
  · exact nomatch (h.1 j).symm.trans hj
  · exact nomatch (h.2 c).symm.trans hc
  · exact nomatch (h.2 c).symm.trans hc
  · exact nomatch (h.1 j).symm.trans hj

theorem storeInv_of_reachableBy {ok : Store Row → Operation → Prop}
    (hok : ∀ st op, ok st op → ordered → InOrder st op) {d : Database Row Operation}
    (h : machine.ReachableBy (CommitsBy ok) d) : StoreInv ordered d.rows := by
  refine (serial_of_reachableBy h).2.invariant (fun _ ↦ storeInv_of_start) ?_
  intro st op st' hinv hop hst'
  exact hinv.exec op (hok st op hop) st' hst'

end Operations

section Kept

instance : ∀ st op, Decidable (InOrder st op)
  | st, .submit now claim _ deadlinesEnforced _ =>
    inferInstanceAs (Decidable (∀ c ∈ claims st claim,
      ¬(pastDeadline now c ∧ deadlinesEnforced) → ∀ job ∈ jobs st c.job,
        ∀ event ∈ job.history, ∀ time ∈ event.time, time ≤ now))
  | st, .setAllocations now rows => inferInstanceAs (Decidable (∀ row ∈ rows, 0 < row.2 →
      ∀ job ∈ jobs st row.1, job.status ≠ .active →
        ∀ event ∈ job.history, ∀ time ∈ event.time, time ≤ now))
  | _, .claim .. | _, .heartbeat .. | _, .decline .. | _, .reclaim .. | _, .countOverruns .. |
    _, .createJob _ | _, .completeJob _ => inferInstanceAs (Decidable True)

variable {d : Database Row Operation} {j : ℕ} {job : Job}

/-- Each overrun is in the job's total once, the streak is that of the current run, the job was
set aside only for a run of the limit with no task completed since it began, and no overrun from
before a completed task was ever part of such a run. -/
structure TimeLimitsKept (claims : ℕ → Option TaskClaim) (j : ℕ) (job : Job) : Prop where
  totals : Totals claims j job
  since : job.timeLimitStreakSince = streakSince job.history
  streak : job.timeLimitStreak = streak job.history
  setAside {h : List Event} : .setAside :: h <:+ job.history →
    streakLimit ≤ TimeLimits.streak h ∧ NoneCompletedSince h
  stale {h : List Event} {claim : ℕ} {deadlineAt time : ℤ} :
    h = job.history ∨ .setAside :: h <:+ job.history → .overran claim deadlineAt ∈ h →
    .completed time ∈ h → deadlineAt ≤ time →
    (Event.overran claim deadlineAt).overranAfter (streakSince h) = false

theorem NoneCompletedSince.overranAfter {h : List Event} (hnone : NoneCompletedSince h)
    {claim : ℕ} {deadlineAt time : ℤ} (htime : .completed time ∈ h) (hle : deadlineAt ≤ time) :
    (Event.overran claim deadlineAt).overranAfter (streakSince h) = false := by
  obtain ⟨since, hsince, htime⟩ := hnone time htime
  simp only [Event.overranAfter, inRun, hsince, Option.all_some, decide_eq_false_iff_not]
  omega

/-- The totals need no order of the resets. -/
theorem totals_exact (h : machine.Reachable d) (hj : jobs d.rows j = some job) :
    Totals (claims d.rows) j job := by
  have hby : machine.ReachableBy (CommitsBy fun _ _ ↦ True) d := by
    refine h.mono fun d a _ ↦ ?_
    cases a <;> simp [CommitsBy]
  have hinv : StoreInv False d.rows := storeInv_of_reachableBy (fun _ _ _ ↦ False.elim) hby
  exact hinv.totals hj

theorem timeLimits_kept (h : machine.ReachableBy (CommitsBy InOrder) d)
    (hj : jobs d.rows j = some job) : TimeLimitsKept (claims d.rows) j job := by
  have hinv : StoreInv True d.rows := storeInv_of_reachableBy (fun _ _ hok _ ↦ hok) h
  have hordered := hinv.ordered trivial hj
  refine ⟨hinv.totals hj, hordered.since, hordered.streak, hordered.setAside,
    fun hh _ htime hle ↦ ?_⟩
  rcases hh with rfl | hsuffix
  · exact hordered.completed.overranAfter htime hle
  · exact (hordered.setAside hsuffix).2.overranAfter htime hle

def alone (n : ℕ) (op : Operation) : List (Action Operation) :=
  .begin 0 op :: List.replicate n (.access 0) ++ [.commit 0]

def fiveClaims : List (Action Operation) :=
  alone 1 (.createJob 0) ++ alone 2 (.setAllocations 0 [(0, 100)]) ++
    [1, 2, 3, 4, 5].flatMap fun c ↦ alone 2 (.claim 0 3600 0 c c c)

def threeOverruns : List (Action Operation) :=
  [1, 2, 3].flatMap (fun c ↦ alone 1 (.heartbeat 3650000000 c c)) ++
    alone 3 (.reclaim 3661000000 90000000 [0] [1, 2, 3]) ++ alone 6 (.countOverruns 0 [1, 2, 3])

def noRows : Store Row
  | .job _ => none
  | .claim _ => none

def empty : Database Row Operation := ⟨noRows, fun _ ↦ none, fun _ ↦ none⟩

theorem start_empty : machine.start empty :=
  ⟨⟨fun _ ↦ rfl, fun _ ↦ rfl⟩, fun _ ↦ rfl, fun _ ↦ rfl⟩

/-- A task is completed, and then three overrun. -/
theorem exists_timeLimits_kept : ∃ d job, machine.ReachableBy (CommitsBy InOrder) d ∧
    jobs d.rows 0 = some job ∧ job.history = [.setAside, .overran 1 3600000000,
      .overran 2 3600000000, .overran 3 3600000000, .completed 3599000000, .putBack 0] ∧
    TimeLimitsKept (claims d.rows) 0 job := by
  have h : machine.ReachableBy (CommitsBy InOrder) empty := .start start_empty
  obtain ⟨d, hd, hp⟩ := h.follow_any
    (fiveClaims ++ alone 3 (.submit 3599000000 4 4 true []) ++ threeOverruns)
    (fun d ↦ (jobs d.rows 0).any fun job ↦ job.history = [.setAside, .overran 1 3600000000,
      .overran 2 3600000000, .overran 3 3600000000, .completed 3599000000, .putBack 0])
    (by decide +kernel)
  obtain ⟨job, hjob, hhistory⟩ := (Option.any_eq_true ..).1 hp
  exact ⟨d, job, hd, hjob, of_decide_eq_true hhistory, timeLimits_kept hd hjob⟩

/-- The fourth task's submission begins before the fifth's and commits after it, so the run
starts before the fifth was completed, and before the deadlines of the overruns it is then set
aside for. -/
theorem not_timeLimits_kept : ¬ ∀ d j job, machine.Reachable d → jobs d.rows j = some job →
    TimeLimitsKept (claims d.rows) j job := by
  intro hkept
  have h : machine.Reachable empty := .start start_empty
  obtain ⟨d, hd, hp⟩ := h.follow_any
    (fiveClaims ++ .begin 1 (.submit 3599000000 4 4 true []) ::
      alone 3 (.submit 3601000000 5 5 true []) ++
      [.access 1, .access 1, .access 1, .commit 1] ++ threeOverruns)
    (fun d ↦ (jobs d.rows 0).any fun job ↦ job.history = [.setAside, .overran 1 3600000000,
      .overran 2 3600000000, .overran 3 3600000000, .completed 3599000000, .completed 3601000000,
      .putBack 0])
    (by decide +kernel)
  obtain ⟨job, hjob, hhistory⟩ := (Option.any_eq_true ..).1 hp
  have hsuffix := List.suffix_refl job.history
  nth_rewrite 1 [of_decide_eq_true hhistory] at hsuffix
  have hsetAside := (hkept d 0 job hd hjob).setAside hsuffix
  obtain ⟨since, hsince, hle⟩ := hsetAside.2 3601000000 (by simp)
  cases hsince
  exact absurd hle (by decide)

end Kept

end Birdtest.Scheduler.TimeLimits
