import Birdtest.Base.Runs
import Birdtest.Base.Tables
import Birdtest.Models.Job
import Mathlib.Data.List.Infix
import Mathlib.Data.Nat.Notation
import Mathlib.Logic.Function.Basic

namespace Birdtest.Jobs.Finish

open Birdtest.Base.Runs Birdtest.Base.Tables Birdtest.Models.Job

inductive JobType
  | games | gamePairs | openingRack | leaveGeneration
  deriving DecidableEq

structure Job where
  jobType : JobType
  totalRacks : ℕ
  status : JobStatus
  allocation : ℕ
  claimsIssued : ℕ
  racksSettled : ℕ
  deriving DecidableEq

variable {R : Type}

structure Evidence (R : Type) where
  job : Option Job
  results : List R
  claims : Table ℕ ClaimState

/-- What a finish check holds: the job's row and the purge count, both read before the results,
and how often the job had been purged when the row was read, which no statement asks. -/
structure Reading (R : Type) where
  job : Job
  purgesBefore : ℕ
  seen : List (Evidence R)
  purged : ℕ

/-- A finish check, from the lookup of its submission's claim or from the start of
`finish_idle_job`. From `updated` on it holds the job's row. -/
inductive Check (R : Type)
  | found (claim : ℕ) (job : Job) (purged : ℕ)
  | counted (claim : ℕ) (reading : Reading R)
  | unheld (claim : ℕ) (reading : Reading R)
  | idle (purgesBefore : ℕ)
  | loaded (reading : Reading R)
  | reading (reading : Reading R)
  | finished (reading : Reading R)
  | updated (reading : Reading R)
  | unpurged (reading : Reading R)

/-- What holds every claim of a job. An edit was counted against `purges`, read before its hold. -/
inductive OperationKind
  | purge | delete
  | edit (purges : ℕ)
  deriving DecidableEq

def OperationKind.counted : OperationKind → Bool
  | .purge | .delete => true
  | .edit _ => false

def OperationKind.upToDate (holdsTaken : ℕ) : OperationKind → Bool
  | .purge | .delete => true
  | .edit purges => holdsTaken = purges

inductive Phase
  | held | locked | ended
  deriving DecidableEq

structure Operation where
  kind : OperationKind
  phase : Phase
  deriving DecidableEq

inductive Locker
  | operation
  | check (i : ℕ)
  deriving DecidableEq

/-- One job: its committed rows, who has its row locked, and, in the server's memory, the hold on
its claims, the count of those taken and the finish checks that are running. -/
structure State (R : Type) where
  job : Option Job
  results : List R
  claims : Table ℕ ClaimState
  nextClaim : ℕ
  lock : Option Locker
  operation : Option Operation
  holdsTaken : ℕ
  checks : ℕ → Option (Check R)
  purged : ℕ

namespace State

variable (s : State R)

def setCheck (i : ℕ) (check : Option (Check R)) : State R :=
  { s with checks := Function.update s.checks i check }

def claimsHeld : Bool := s.operation.isSome

def evidence : Evidence R := ⟨s.job, s.results, s.claims⟩

end State

section Operations

variable (s : State R)

def setAllocation (allocation : ℕ) (job : Job) : Option Job :=
  if job.status = .completed then none
  else some { job with status := if 0 < allocation then .active else .inactive, allocation }

def complete (job : Job) : Job := { job with status := .completed, allocation := 0 }

def issueClaim (job : Job) : Option (State R) :=
  if s.lock = none ∧ job.status = .active then
    some { s with
      job := some { job with claimsIssued := job.claimsIssued + 1 }
      claims := s.claims.put s.nextClaim .claimed
      nextClaim := s.nextClaim + 1 }
  else none

/-- `try_claims` -/
def hold (kind : OperationKind) : Option (State R) :=
  if s.claimsHeld then none
  else some { s with
    operation := some ⟨kind, .held⟩
    holdsTaken := if kind.counted then s.holdsTaken + 1 else s.holdsTaken }

def lockJob : Option (State R) :=
  match s.operation with
  | some ⟨kind, .held⟩ =>
    if s.lock = none ∧ kind.upToDate s.holdsTaken then
      some { s with operation := some ⟨kind, .locked⟩, lock := some .operation }
    else none
  | _ => none

def purge (job : Job) : Job :=
  { job with status := .inactive, allocation := 0, claimsIssued := 0, racksSettled := 0 }

def restate (settled unsettled : ℕ) (job : Job) : Job :=
  { job with
    racksSettled := settled
    status := if job.status = .completed ∧ 0 < unsettled then .inactive else job.status }

def commitOperation (settled unsettled : ℕ) : Option (State R) :=
  match s.operation with
  | some ⟨kind, .locked⟩ =>
    some (if kind.counted then
      { s with
        job := if kind = .delete then none else s.job.map purge
        results := []
        claims := .empty
        operation := some ⟨kind, .ended⟩
        lock := none
        purged := s.purged + 1 }
    else
      { s with
        job := s.job.map (restate settled unsettled)
        operation := some ⟨kind, .ended⟩
        lock := none })
  | _ => none

def release : State R :=
  { s with operation := none, lock := if s.lock = some .operation then none else s.lock }

end Operations

section Checks

variable (s : State R) (i : ℕ)

def find (claim : ℕ) : Option (State R) :=
  if (s.checks i).isNone then
    match s.claims.get claim, s.job with
    | some .claimed, some job => some (s.setCheck i (some (.found claim job s.purged)))
    | _, _ => none
  else none

def submit (result : R) (settled : ℕ) (claim : ℕ) (reading : Reading R) : Option (State R) :=
  if s.lock = none ∧ s.claims.get claim = some .claimed then
    some { s with
      job := s.job.map fun job ↦ { job with racksSettled := job.racksSettled + settled }
      results := s.results ++ [result]
      claims := s.claims.put claim .completed
      checks := Function.update s.checks i
        (if reading.job.status = .active ∧ reading.job.jobType ≠ .leaveGeneration then
          some (.reading reading)
        else none) }
  else none

def finishable (observedClaimsIssued : ℕ) (job : Job) : Bool :=
  job.status = .active ∧ observedClaimsIssued ≤ job.claimsIssued ∧
    (job.jobType = .openingRack → job.totalRacks ≤ job.racksSettled)

/-- `complete_unless_purged` -/
def update (reading : Reading R) : Option (State R) :=
  if s.lock = none then
    some (if s.job.any (finishable reading.job.claimsIssued) then
      { s.setCheck i (some (.updated reading)) with lock := some (.check i) }
    else s.setCheck i none)
  else none

def purgedSince (reading : Reading R) : Bool :=
  s.holdsTaken ≠ reading.purgesBefore ∨ s.claimsHeld

def step (finishConditionMet : List (Evidence R) → Bool) : Check R → Option (State R)
  | .found claim job purged =>
    some (s.setCheck i (some (.counted claim ⟨job, s.holdsTaken, [], purged⟩)))
  | .counted claim reading =>
    some (s.setCheck i (if s.claimsHeld then none else some (.unheld claim reading)))
  | .unheld _ _ => none
  | .idle purgesBefore =>
    some (s.setCheck i (s.job.bind fun job ↦
      if job.status = .active ∧ job.jobType ≠ .leaveGeneration then
        some (.loaded ⟨job, purgesBefore, [], s.purged⟩)
      else none))
  | .loaded reading =>
    some (s.setCheck i (if 0 < s.claims.count (· = .claimed) then none
      else some (.reading reading)))
  | .reading reading =>
    some (s.setCheck i (if finishConditionMet reading.seen then some (.finished reading) else none))
  | .finished reading => update s i reading
  | .updated reading =>
    some (if purgedSince s reading then { s.setCheck i none with lock := none }
    else s.setCheck i (some (.unpurged reading)))
  | .unpurged _ => some { s.setCheck i none with job := s.job.map complete, lock := none }

def read : Check R → Option (State R)
  | .reading reading =>
    some (s.setCheck i (some (.reading { reading with seen := reading.seen ++ [s.evidence] })))
  | _ => none

def stop : State R :=
  { s.setCheck i none with lock := if s.lock = some (.check i) then none else s.lock }

end Checks

inductive Action (R : Type)
  | setAllocation (allocation : ℕ)
  | complete
  | claim
  | endClaim (claim : ℕ) (terminal : ClaimState)
  | hold (kind : OperationKind)
  | lock
  | commit (settled unsettled : ℕ)
  | release
  | find (i claim : ℕ)
  | submit (i : ℕ) (result : R) (settled : ℕ)
  | idle (i : ℕ)
  | step (i : ℕ)
  | read (i : ℕ)
  | stop (i : ℕ)

variable (finishConditionMet : List (Evidence R) → Bool)

/-- Admins' statements of one row, claims, declines and lapses are each a step: they hold the
job's row for no other statement that this model has. -/
def next (s : State R) : Action R → Option (State R)
  | .setAllocation allocation =>
    if s.lock = none then
      (s.job.bind (setAllocation allocation)).map fun job ↦ { s with job := some job }
    else none
  | .complete => if s.lock = none then some { s with job := s.job.map complete } else none
  | .claim => s.job.bind (issueClaim s)
  | .endClaim claim terminal =>
    if s.lock ≠ some .operation ∧ s.claims.get claim = some .claimed ∧ terminal ≠ .claimed then
      some { s with claims := s.claims.put claim terminal }
    else none
  | .hold kind => hold s kind
  | .lock => lockJob s
  | .commit settled unsettled => commitOperation s settled unsettled
  | .release => s.operation.map fun _ ↦ release s
  | .find i claim => find s i claim
  | .submit i result settled => match s.checks i with
    | some (.unheld claim reading) => submit s i result settled claim reading
    | _ => none
  | .idle i => if (s.checks i).isNone then some (s.setCheck i (some (.idle s.holdsTaken))) else none
  | .step i => (s.checks i).bind (step s i finishConditionMet)
  | .read i => (s.checks i).bind (read s i)
  | .stop i => (s.checks i).map fun _ ↦ stop s i

def start (s : State R) : Prop :=
  s.job.any (·.status = .inactive) ∧ s.results = [] ∧ s.claims = .empty ∧ s.lock = none ∧
    s.operation = none ∧ ∀ i, s.checks i = none

/-- A job, from its creation, under any number of finish checks, and of purges, deletes and edits
of it, one at a time. -/
def machine : Machine (State R) (Action R) := ⟨start, next finishConditionMet⟩

section Moves

variable {finishConditionMet} {s t : State R} {i : ℕ}

def State.purging (s : State R) : Bool :=
  s.operation.any fun o ↦ o.kind.counted && o.phase ≠ .ended

/-- Claims are numbered as they are issued, and a number is never given again. -/
def State.Issued (s : State R) : Prop := ∀ claim, s.claims.get claim ≠ none → claim < s.nextClaim

structure Moves (s t : State R) : Prop where
  nextClaim : s.nextClaim ≤ t.nextClaim
  claims {claim : ℕ} : claim < s.nextClaim → t.claims.get claim = some .claimed →
    s.claims.get claim = some .claimed ∧ t.purged = s.purged
  taken : s.holdsTaken ≤ t.holdsTaken
  purging : t.holdsTaken = s.holdsTaken → t.purging = true → s.purging = true
  purged : s.purged ≤ t.purged
  results : t.purged = s.purged → s.results <+: t.results
  committed : t.purged ≠ s.purged → s.purging = true
  issued : s.Issued → t.Issued

/-- A purge that is in `reading`'s count has committed before the job's row was read, and nothing
that the check has seen since is gone unless the count has moved on. -/
structure Fresh (s : State R) (reading : Reading R) : Prop where
  before : reading.purgesBefore ≤ s.holdsTaken
  unpurged : reading.purgesBefore = s.holdsTaken →
    reading.purged = s.purged ∧ s.purging = false
  read : reading.purged ≤ s.purged
  seen : reading.purged = s.purged → ∀ e ∈ reading.seen, e.results <+: s.results

/-- What holds of a submission that has found its claim, until it has completed it: no purge has
committed if the claim is still there. -/
structure Found (s : State R) (claim purged : ℕ) : Prop where
  issued : claim < s.nextClaim
  read : purged ≤ s.purged
  unpurged : s.claims.get claim = some .claimed → purged = s.purged

def CheckInv (s : State R) : Check R → Prop
  | .found claim _ purged => Found s claim purged
  | .counted claim reading =>
    Found s claim reading.purged ∧ reading.purgesBefore ≤ s.holdsTaken ∧ reading.seen = []
  | .unheld claim reading =>
    Found s claim reading.purged ∧ reading.purgesBefore ≤ s.holdsTaken ∧ reading.seen = [] ∧
      (reading.purgesBefore = s.holdsTaken → s.purging = false)
  | .idle purgesBefore => purgesBefore ≤ s.holdsTaken
  | .loaded reading | .reading reading | .finished reading | .updated reading => Fresh s reading
  | .unpurged reading =>
    reading.purged = s.purged ∧ ∀ e ∈ reading.seen, e.results <+: s.results

theorem Fresh.moves {reading : Reading R} (h : Fresh s reading) (hm : Moves s t) :
    Fresh t reading := by
  have hbefore := h.before
  have htaken := hm.taken
  refine ⟨hbefore.trans htaken, fun heq ↦ ?_, h.read.trans hm.purged, fun heq e he ↦ ?_⟩
  · have hsame : t.holdsTaken = s.holdsTaken := by omega
    obtain ⟨hpurged, hpurging⟩ := h.unpurged (heq.trans hsame)
    have hstay : t.purged = s.purged := by
      by_contra hne
      rw [hm.committed hne] at hpurging
      cases hpurging
    refine ⟨hpurged.trans hstay.symm, ?_⟩
    cases ht : t.purging with
    | false => rfl
    | true =>
      rw [hm.purging hsame ht] at hpurging
      cases hpurging
  · have hread := h.read
    have hpurged := hm.purged
    have hsame : t.purged = s.purged := by omega
    exact (h.seen (heq.trans hsame) e he).trans (hm.results hsame)

theorem Found.moves {claim purged : ℕ} (h : Found s claim purged) (hm : Moves s t) :
    Found t claim purged := by
  refine ⟨h.issued.trans_le hm.nextClaim, h.read.trans hm.purged, fun hclaim ↦ ?_⟩
  obtain ⟨hclaim, hsame⟩ := hm.claims h.issued hclaim
  exact (h.unpurged hclaim).trans hsame.symm

/-- A check that is not about to complete the job keeps its invariant as others take their
steps. -/
theorem CheckInv.moves {check : Check R} (h : CheckInv s check) (hm : Moves s t)
    (hlast : ∀ reading, check = .unpurged reading → t.purged = s.purged) : CheckInv t check := by
  have htaken := hm.taken
  cases check with
  | found claim job purged => exact Found.moves h hm
  | counted claim reading =>
    obtain ⟨hfound, hbefore, hseen⟩ := h
    exact ⟨hfound.moves hm, hbefore.trans htaken, hseen⟩
  | unheld claim reading =>
    obtain ⟨hfound, hbefore, hseen, hpurging⟩ := h
    refine ⟨hfound.moves hm, hbefore.trans htaken, hseen, fun heq ↦ ?_⟩
    have hsame : t.holdsTaken = s.holdsTaken := by omega
    cases ht : t.purging with
    | false => rfl
    | true => exact (hm.purging hsame ht).symm.trans (hpurging (heq.trans hsame))
  | idle purgesBefore => exact Nat.le_trans h htaken
  | loaded reading => exact Fresh.moves h hm
  | reading reading => exact Fresh.moves h hm
  | finished reading => exact Fresh.moves h hm
  | updated reading => exact Fresh.moves h hm
  | unpurged reading =>
    have hsame := hlast reading rfl
    exact ⟨h.1.trans hsame.symm, fun e he ↦ (h.2 e he).trans (hm.results hsame)⟩

end Moves

section Invariant

variable {finishConditionMet} {s t : State R} {i : ℕ} {counted : Prop}

def Check.holdsRow : Check R → Bool
  | .updated _ | .unpurged _ => true
  | _ => false

/-- Whether the job can be completed, whatever its claims. -/
def Settled (job : Job) : Prop :=
  job.status = .active ∧ (job.jobType = .openingRack → job.totalRacks ≤ job.racksSettled)

/-- The invariant of every run, and what holds of its checks where `counted` does. -/
structure Inv (counted : Prop) (s : State R) : Prop where
  issued : s.Issued
  checks {i : ℕ} {check : Check R} : counted → s.checks i = some check → CheckInv s check
  locked {i : ℕ} {check : Check R} : s.checks i = some check → check.holdsRow = true →
    s.lock = some (.check i)
  settled {i : ℕ} : s.lock = some (.check i) → ∃ job, s.job = some job ∧ Settled job
  operation {o : Operation} : s.operation = some o → o.phase = .locked → s.lock = some .operation

theorem Inv.of_checks_eq (h : Inv counted s) (hm : Moves s t) (hchecks : t.checks = s.checks)
    (hlock : ∀ i, t.lock = some (.check i) ↔ s.lock = some (.check i))
    (hrow : ∀ i, s.lock = some (.check i) → t.purged = s.purged ∧ t.job = s.job)
    (hoperation : ∀ o, t.operation = some o → o.phase = .locked → t.lock = some .operation) :
    Inv counted t := by
  refine ⟨hm.issued h.issued, fun {i check} hcounted hi ↦ ?_, fun {i check} hi hrows ↦ ?_,
    fun {i} hi ↦ ?_, hoperation _⟩
  · rw [hchecks] at hi
    apply (h.checks hcounted hi).moves hm
    rintro reading rfl
    exact (hrow i (h.locked hi rfl)).1
  · rw [hchecks] at hi
    exact (hlock i).2 (h.locked hi hrows)
  · have hi := (hlock i).1 hi
    rw [(hrow i hi).2]
    exact h.settled hi

theorem Inv.update (h : Inv counted s) (hm : Moves s t) {v : Option (Check R)}
    (hchecks : t.checks = Function.update s.checks i v) (hpurged : t.purged = s.purged)
    (hv : ∀ check, v = some check →
      (counted → CheckInv t check) ∧ (check.holdsRow = true → t.lock = some (.check i)))
    (hlock : ∀ j, j ≠ i → s.lock = some (.check j) → t.lock = some (.check j))
    (hsettled : ∀ j, t.lock = some (.check j) → ∃ job, t.job = some job ∧ Settled job)
    (hoperation : ∀ o, t.operation = some o → o.phase = .locked → t.lock = some .operation) :
    Inv counted t := by
  refine ⟨hm.issued h.issued, fun {j check} hcounted hj ↦ ?_, fun {j check} hj hrows ↦
    ?_, hsettled _, hoperation _⟩
  · rw [hchecks] at hj
    by_cases hji : j = i
    · subst hji
      rw [Function.update_self] at hj
      exact (hv check hj).1 hcounted
    · rw [Function.update_of_ne hji] at hj
      exact (h.checks hcounted hj).moves hm fun _ _ ↦ hpurged
  · rw [hchecks] at hj
    by_cases hji : j = i
    · subst hji
      rw [Function.update_self] at hj
      exact (hv check hj).2 hrows
    · rw [Function.update_of_ne hji] at hj
      exact hlock j hji (h.locked hj hrows)

theorem moves_of_eq (hnext : t.nextClaim = s.nextClaim) (hclaims : t.claims = s.claims)
    (htaken : t.holdsTaken = s.holdsTaken) (hoperation : t.operation = s.operation)
    (hpurged : t.purged = s.purged) (hresults : t.results = s.results) : Moves s t := by
  refine ⟨hnext.ge, fun _ hclaim ↦ ⟨hclaims ▸ hclaim, hpurged⟩, htaken.ge, fun _ hpurging ↦ ?_,
    hpurged.ge, fun _ ↦ hresults ▸ List.prefix_rfl, fun hne ↦ absurd hpurged hne, fun hissued ↦ ?_⟩
  · rw [State.purging, ← hoperation]
    exact hpurging
  · rw [State.Issued, hclaims, hnext]
    exact hissued

theorem Inv.setCheck (h : Inv counted s) (v : Option (Check R))
    (hv : ∀ check, v = some check →
      (counted → CheckInv s check) ∧ (check.holdsRow = true → s.lock = some (.check i))) :
    Inv counted (s.setCheck i v) := by
  have hm : Moves s (s.setCheck i v) := moves_of_eq rfl rfl rfl rfl rfl rfl
  refine h.update hm rfl rfl (fun check hcheck ↦ ?_) (fun _ _ hj ↦ hj) (fun _ ↦ h.settled)
    fun _ ↦ h.operation
  obtain ⟨hinv, hlock⟩ := hv check hcheck
  exact ⟨fun hcounted ↦ (hinv hcounted).moves hm fun _ _ ↦ rfl, hlock⟩

theorem Inv.stop (h : Inv counted s) : Inv counted (stop s i) := by
  refine h.update (i := i) (v := none) (moves_of_eq rfl rfl rfl rfl rfl rfl) rfl rfl nofun ?_ ?_ ?_
  · intro j hj hlock
    simp [Finish.stop, hlock, hj]
  · intro j hlock
    simp only [Finish.stop] at hlock ⊢
    split at hlock
    · cases hlock
    · exact h.settled hlock
  · intro o ho hphase
    simp [Finish.stop, h.operation ho hphase]

theorem Inv.setJob (h : Inv counted s) (hfree : s.lock = none) (job : Option Job) :
    Inv counted { s with job } := by
  refine h.of_checks_eq (moves_of_eq rfl rfl rfl rfl rfl rfl) rfl (fun _ ↦ Iff.rfl) ?_
    fun _ ↦ h.operation
  intro i hi
  exact nomatch hfree.symm.trans hi

theorem Inv.issueClaim (h : Inv counted s) {job : Job} (ht : issueClaim s job = some t) :
    Inv counted t := by
  obtain ⟨⟨hfree, -⟩, ht⟩ := Option.ite_none_right_eq_some.1 ht
  cases ht
  refine h.of_checks_eq ?_ rfl (fun _ ↦ Iff.rfl) (fun i hi ↦ nomatch hfree.symm.trans hi)
    fun _ ↦ h.operation
  refine ⟨Nat.le_succ _, fun {c} hc hclaim ↦ ⟨?_, rfl⟩, Nat.le_refl _, fun _ hpurging ↦ hpurging,
    Nat.le_refl _, fun _ ↦ List.prefix_rfl, fun hne ↦ absurd rfl hne, fun hissued c hclaim ↦ ?_⟩
  · rwa [Table.get_put_of_ne (Nat.ne_of_lt hc)] at hclaim
  · by_cases hc : c = s.nextClaim
    · exact hc ▸ Nat.lt_succ_self _
    · dsimp only at hclaim
      rw [Table.get_put_of_ne hc] at hclaim
      exact (hissued c hclaim).trans (Nat.lt_succ_self _)

theorem moves_of_put {claim : ℕ} {terminal : ClaimState} (hterminal : terminal ≠ .claimed)
    (hopen : s.claims.get claim = some .claimed)
    (hnext : t.nextClaim = s.nextClaim) (hclaims : t.claims = s.claims.put claim terminal)
    (htaken : t.holdsTaken = s.holdsTaken) (hoperation : t.operation = s.operation)
    (hpurged : t.purged = s.purged) (hresults : s.results <+: t.results) : Moves s t := by
  refine ⟨hnext.ge, fun {c} _ hclaim ↦ ⟨?_, hpurged⟩, htaken.ge, fun _ hpurging ↦ ?_,
    hpurged.ge, fun _ ↦ hresults, fun hne ↦ absurd hpurged hne, fun hissued c hclaim ↦ ?_⟩
  · rw [hclaims] at hclaim
    by_cases hc : c = claim
    · subst hc
      rw [Table.get_put_self, Option.some.injEq] at hclaim
      exact absurd hclaim hterminal
    · rwa [Table.get_put_of_ne hc] at hclaim
  · rw [State.purging, ← hoperation]
    exact hpurging
  · rw [hnext]
    apply hissued
    by_cases hc : c = claim
    · rw [hc, hopen]
      nofun
    · rwa [hclaims, Table.get_put_of_ne hc] at hclaim

theorem Inv.endClaim (h : Inv counted s) {claim : ℕ} {terminal : ClaimState}
    (hopen : s.claims.get claim = some .claimed) (hterminal : terminal ≠ .claimed) :
    Inv counted { s with claims := s.claims.put claim terminal } :=
  h.of_checks_eq (moves_of_put hterminal hopen rfl rfl rfl rfl rfl List.prefix_rfl) rfl
    (fun _ ↦ Iff.rfl) (fun _ _ ↦ ⟨rfl, rfl⟩) fun _ ↦ h.operation

theorem Inv.hold (h : Inv counted s) {kind : OperationKind} (ht : hold s kind = some t) :
    Inv counted t := by
  rw [Finish.hold] at ht
  split at ht <;> cases ht
  refine h.of_checks_eq ?_ rfl (fun _ ↦ Iff.rfl) (fun _ _ ↦ ⟨rfl, rfl⟩) ?_
  · refine ⟨Nat.le_refl _, fun _ hclaim ↦ ⟨hclaim, rfl⟩, ?_, fun htaken hpurging ↦ ?_,
      Nat.le_refl _, fun _ ↦ List.prefix_rfl, fun hne ↦ absurd rfl hne, fun hissued ↦ hissued⟩
    · dsimp only
      split <;> omega
    · -- A purge is counted as it takes its hold.
      dsimp only at htaken
      split at htaken
      · omega
      · next hcounted => simp [State.purging, hcounted] at hpurging
  · rintro _ ⟨⟩ hphase
    cases hphase

theorem Inv.lockJob (h : Inv counted s) (ht : lockJob s = some t) : Inv counted t := by
  rw [Finish.lockJob] at ht
  split at ht
  · next kind hkind =>
    obtain ⟨⟨hfree, -⟩, ht⟩ := Option.ite_none_right_eq_some.1 ht
    cases ht
    refine h.of_checks_eq ?_ rfl (fun i ↦ ?_) (fun i hi ↦ nomatch hfree.symm.trans hi)
      fun _ _ _ ↦ rfl
    · refine ⟨Nat.le_refl _, fun _ hclaim ↦ ⟨hclaim, rfl⟩, Nat.le_refl _, fun _ hpurging ↦ ?_,
        Nat.le_refl _, fun _ ↦ List.prefix_rfl, fun hne ↦ absurd rfl hne, fun hissued ↦ hissued⟩
      simpa [State.purging, hkind] using hpurging
    · simp [hfree]
  · cases ht

theorem Inv.commitOperation (h : Inv counted s) {settled unsettled : ℕ}
    (ht : commitOperation s settled unsettled = some t) : Inv counted t := by
  rw [Finish.commitOperation] at ht
  split at ht
  · next kind hkind =>
    cases ht
    have hlock : s.lock = some .operation := h.operation hkind rfl
    have hfree (i : ℕ) : s.lock ≠ some (.check i) := by
      intro hi
      cases hlock.symm.trans hi
    split
    · next hcounted =>
      refine h.of_checks_eq ?_ rfl (fun i ↦ ⟨nofun, fun hi ↦ absurd hi (hfree i)⟩)
        (fun i hi ↦ absurd hi (hfree i)) ?_
      · refine ⟨Nat.le_refl _, fun _ hclaim ↦ ?_, Nat.le_refl _, fun _ hpurging ↦ ?_,
          Nat.le_succ _, fun heq ↦ absurd heq (Nat.succ_ne_self _), fun _ ↦ ?_, fun _ _ ↦ ?_⟩
        · cases hclaim
        · simp [State.purging] at hpurging
        · simp [State.purging, hkind, hcounted]
        · exact absurd rfl
      · rintro _ ⟨⟩ hphase
        cases hphase
    · refine h.of_checks_eq ?_ rfl (fun i ↦ ⟨nofun, fun hi ↦ absurd hi (hfree i)⟩)
        (fun i hi ↦ absurd hi (hfree i)) ?_
      · refine ⟨Nat.le_refl _, fun _ hclaim ↦ ⟨hclaim, rfl⟩, Nat.le_refl _, fun _ hpurging ↦ ?_,
          Nat.le_refl _, fun _ ↦ List.prefix_rfl, fun hne ↦ absurd rfl hne, fun hissued ↦ hissued⟩
        simp [State.purging] at hpurging
      · rintro _ ⟨⟩ hphase
        cases hphase
  · cases ht

theorem Inv.release (h : Inv counted s) : Inv counted (release s) := by
  refine h.of_checks_eq ?_ rfl (fun i ↦ ?_) (fun _ _ ↦ ⟨rfl, rfl⟩) nofun
  · refine ⟨Nat.le_refl _, fun _ hclaim ↦ ⟨hclaim, rfl⟩, Nat.le_refl _, fun _ hpurging ↦ ?_,
      Nat.le_refl _, fun _ ↦ List.prefix_rfl, fun hne ↦ absurd rfl hne, fun hissued ↦ hissued⟩
    cases hpurging
  · simp only [Finish.release]
    split
    · next hlock => simp [hlock]
    · exact Iff.rfl

theorem purging_of_not_claimsHeld (h : s.claimsHeld = false) : s.purging = false := by
  have hnone : s.operation = none := by simpa [State.claimsHeld] using h
  rw [State.purging, hnone]
  rfl

theorem Inv.update_finished (h : Inv counted s) {reading : Reading R}
    (hc : s.checks i = some (.finished reading)) (ht : Finish.update s i reading = some t) :
    Inv counted t := by
  obtain ⟨hfree, ht⟩ := Option.ite_none_right_eq_some.1 ht
  cases ht
  split
  · next hfinishable =>
    obtain ⟨job, hjob, hpass⟩ := (Option.any_eq_true ..).1 hfinishable
    obtain ⟨hactive, -, hracks⟩ := of_decide_eq_true hpass
    have hm : Moves s { s.setCheck i (some (.updated reading)) with lock := some (.check i) } :=
      moves_of_eq rfl rfl rfl rfl rfl rfl
    refine h.update hm rfl rfl ?_ (fun j _ hj ↦ nomatch hfree.symm.trans hj)
      (fun _ _ ↦ ⟨job, hjob, hactive, hracks⟩) fun o ho hphase ↦ ?_
    · rintro _ ⟨⟩
      refine ⟨fun hcounted ↦ ?_, fun _ ↦ rfl⟩
      have hfresh : Fresh s reading := h.checks hcounted hc
      exact hfresh.moves hm
    · exact nomatch hfree.symm.trans (h.operation ho hphase)
  · exact h.setCheck none nofun

theorem Inv.endUpdated (h : Inv counted s) {check : Check R} (hc : s.checks i = some check)
    (hrow : check.holdsRow = true) (job : Option Job) :
    Inv counted { s.setCheck i none with job, lock := none } := by
  have hlock := h.locked hc hrow
  refine h.update (i := i) (v := none) (moves_of_eq rfl rfl rfl rfl rfl rfl) rfl rfl nofun
    (fun j hj hlocked ↦ ?_) nofun fun o ho hphase ↦ nomatch hlock.symm.trans (h.operation ho hphase)
  cases hlock.symm.trans hlocked
  exact absurd rfl hj

theorem Inv.step (h : Inv counted s) {check : Check R} (hc : s.checks i = some check)
    (hok : counted → ∀ purgesBefore, check = .idle purgesBefore → purgesBefore = s.holdsTaken →
      s.purging = false)
    (ht : step s i finishConditionMet check = some t) : Inv counted t := by
  have hinv (hcounted : counted) : CheckInv s check := h.checks hcounted hc
  cases check with
  | found claim job purged =>
    cases ht
    apply h.setCheck
    rintro _ ⟨⟩
    exact ⟨fun hcounted ↦ ⟨hinv hcounted, Nat.le_refl _, rfl⟩, nofun⟩
  | counted claim reading =>
    cases ht
    apply h.setCheck
    intro check hcheck
    split at hcheck
    · cases hcheck
    · next hheld =>
      cases hcheck
      refine ⟨fun hcounted ↦ ?_, nofun⟩
      obtain ⟨hfound, hbefore, hseen⟩ := hinv hcounted
      have hpurging := purging_of_not_claimsHeld (Bool.not_eq_true _ ▸ hheld)
      exact ⟨hfound, hbefore, hseen, fun _ ↦ hpurging⟩
  | unheld claim reading => cases ht
  | idle purgesBefore =>
    cases ht
    apply h.setCheck
    intro check hcheck
    obtain ⟨job, -, hcheck⟩ := Option.bind_eq_some_iff.1 hcheck
    obtain ⟨-, hcheck⟩ := Option.ite_none_right_eq_some.1 hcheck
    cases hcheck
    refine ⟨fun hcounted ↦ ?_, nofun⟩
    exact ⟨hinv hcounted, fun heq ↦ ⟨rfl, hok hcounted purgesBefore rfl heq⟩, Nat.le_refl _, nofun⟩
  | loaded reading =>
    cases ht
    apply h.setCheck
    intro check hcheck
    split at hcheck <;> cases hcheck
    exact ⟨hinv, nofun⟩
  | reading reading =>
    cases ht
    apply h.setCheck
    intro check hcheck
    split at hcheck <;> cases hcheck
    exact ⟨hinv, nofun⟩
  | finished reading => exact h.update_finished hc ht
  | updated reading =>
    cases ht
    split
    · exact h.endUpdated hc rfl s.job
    · next hpurged =>
      apply h.setCheck
      rintro _ ⟨⟩
      refine ⟨fun hcounted ↦ ?_, fun _ ↦ h.locked hc rfl⟩
      have hfresh : Fresh s reading := hinv hcounted
      have hsame : reading.purgesBefore = s.holdsTaken := by
        simp only [purgedSince, decide_eq_true_eq, not_or, not_not] at hpurged
        exact hpurged.1.symm
      have hread := (hfresh.unpurged hsame).1
      exact ⟨hread, hfresh.seen hread⟩
  | unpurged reading =>
    cases ht
    exact h.endUpdated hc rfl _

theorem Inv.read (h : Inv counted s) {check : Check R} (hc : s.checks i = some check)
    (ht : read s i check = some t) : Inv counted t := by
  cases check with
  | reading reading =>
    cases ht
    apply h.setCheck
    rintro _ ⟨⟩
    refine ⟨fun hcounted ↦ ?_, nofun⟩
    have hfresh : Fresh s reading := h.checks hcounted hc
    refine ⟨hfresh.before, hfresh.unpurged, hfresh.read, fun heq e he ↦ ?_⟩
    rcases List.mem_append.1 he with he | he
    · exact hfresh.seen heq e he
    · obtain rfl := List.mem_singleton.1 he
      exact List.prefix_rfl
  | _ => cases ht

theorem Inv.find (h : Inv counted s) {claim : ℕ} (ht : find s i claim = some t) :
    Inv counted t := by
  obtain ⟨-, ht⟩ := Option.ite_none_right_eq_some.1 ht
  split at ht <;> cases ht
  next hclaim _ =>
  apply h.setCheck
  rintro _ ⟨⟩
  refine ⟨fun _ ↦ ⟨h.issued claim ?_, Nat.le_refl _, fun _ ↦ rfl⟩, nofun⟩
  rw [hclaim]
  nofun

theorem Inv.submit (h : Inv counted s) {claim settled : ℕ} {result : R} {reading : Reading R}
    (hc : s.checks i = some (.unheld claim reading))
    (ht : submit s i result settled claim reading = some t) : Inv counted t := by
  obtain ⟨⟨hfree, hclaim⟩, ht⟩ := Option.ite_none_right_eq_some.1 ht
  cases ht
  have hm : Moves s { s with
      job := s.job.map fun job ↦ { job with racksSettled := job.racksSettled + settled }
      results := s.results ++ [result]
      claims := s.claims.put claim .completed
      checks := Function.update s.checks i
        (if reading.job.status = .active ∧ reading.job.jobType ≠ .leaveGeneration then
          some (.reading reading)
        else none) } :=
    moves_of_put (by decide) hclaim rfl rfl rfl rfl rfl (List.prefix_append _ _)
  refine h.update hm rfl rfl (fun check hcheck ↦ ?_) (fun j _ hj ↦ nomatch hfree.symm.trans hj)
    (fun j hj ↦ nomatch hfree.symm.trans hj) fun _ ↦ h.operation
  obtain ⟨-, hcheck⟩ := Option.ite_none_right_eq_some.1 hcheck
  cases hcheck
  refine ⟨fun hcounted ↦ ?_, nofun⟩
  obtain ⟨hfound, hbefore, hseen, hpurging⟩ := h.checks hcounted hc
  have hread := hfound.unpurged hclaim
  refine ⟨hbefore, fun heq ↦ ⟨hread, hpurging heq⟩, hfound.read, fun _ e he ↦ ?_⟩
  rw [hseen] at he
  cases he

/-- `finish_idle_job` does not read the job's row while a purge or a delete that it has counted
already is still to commit. -/
def loadsUnpurged (s : State R) : Check R → Bool
  | .idle purgesBefore => purgesBefore ≠ s.holdsTaken ∨ s.purging = false
  | _ => true

def LoadsUnpurged (s : State R) : Action R → Prop
  | .step i => (s.checks i).all (loadsUnpurged s) = true
  | _ => True

theorem Inv.next (h : Inv counted s) {a : Action R} (hok : counted → LoadsUnpurged s a)
    (ht : next finishConditionMet s a = some t) : Inv counted t := by
  cases a with
  | setAllocation allocation =>
    obtain ⟨hfree, ht⟩ := Option.ite_none_right_eq_some.1 ht
    obtain ⟨job, -, rfl⟩ := Option.map_eq_some_iff.1 ht
    exact h.setJob hfree _
  | complete =>
    obtain ⟨hfree, ht⟩ := Option.ite_none_right_eq_some.1 ht
    cases ht
    exact h.setJob hfree _
  | claim =>
    obtain ⟨job, -, ht⟩ := Option.bind_eq_some_iff.1 ht
    exact h.issueClaim ht
  | endClaim claim terminal =>
    obtain ⟨⟨-, hopen, hterminal⟩, ht⟩ := Option.ite_none_right_eq_some.1 ht
    cases ht
    exact h.endClaim hopen hterminal
  | hold kind => exact h.hold ht
  | lock => exact h.lockJob ht
  | commit settled unsettled => exact h.commitOperation ht
  | release =>
    obtain ⟨o, -, rfl⟩ := Option.map_eq_some_iff.1 ht
    exact h.release
  | find i claim => exact h.find ht
  | submit i result settled =>
    simp only [Finish.next] at ht
    split at ht
    · next hc => exact h.submit hc ht
    · cases ht
  | idle i =>
    obtain ⟨-, ht⟩ := Option.ite_none_right_eq_some.1 ht
    cases ht
    apply h.setCheck
    rintro _ ⟨⟩
    exact ⟨fun _ ↦ Nat.le_refl _, nofun⟩
  | step i =>
    obtain ⟨check, hc, ht⟩ := Option.bind_eq_some_iff.1 ht
    refine h.step hc ?_ ht
    rintro hcounted purgesBefore rfl heq
    have hok := of_decide_eq_true ((Option.all_eq_true ..).1 (hok hcounted) _ hc)
    exact hok.resolve_left (absurd heq)
  | read i =>
    obtain ⟨check, hc, ht⟩ := Option.bind_eq_some_iff.1 ht
    exact h.read hc ht
  | stop i =>
    obtain ⟨check, -, rfl⟩ := Option.map_eq_some_iff.1 ht
    exact h.stop

theorem inv_of_start (h : start s) : Inv counted s := by
  obtain ⟨-, -, hclaims, hlock, hoperation, hchecks⟩ := h
  refine ⟨fun claim hclaim ↦ ?_, fun {i check} _ hi ↦ ?_, fun {i check} hi ↦ ?_,
    fun {i} hi ↦ ?_, fun {o} ho ↦ ?_⟩
  · rw [hclaims] at hclaim
    exact absurd rfl hclaim
  · exact nomatch (hchecks i).symm.trans hi
  · exact nomatch (hchecks i).symm.trans hi
  · exact nomatch hlock.symm.trans hi
  · exact nomatch hoperation.symm.trans ho

theorem inv_of_reachableBy {ok : State R → Action R → Prop}
    (hok : ∀ s a, ok s a → counted → LoadsUnpurged s a)
    (h : (machine finishConditionMet).ReachableBy ok s) : Inv counted s :=
  h.invariant (fun _ ↦ inv_of_start) fun s a _ hinv ha ht ↦ hinv.next (hok s a ha) ht

theorem next_unpurged {reading : Reading R} (hc : s.checks i = some (.unpurged reading)) :
    Finish.next finishConditionMet s (.step i) =
      some { s.setCheck i none with job := s.job.map complete, lock := none } := by
  rw [Finish.next, hc]
  rfl

/-- In every run an opening-rack job's racks are settled as a finish check's completion commits. -/
theorem racksSettled_of_completed (h : (machine finishConditionMet).Reachable s)
    {reading : Reading R} (hc : s.checks i = some (.unpurged reading))
    (ht : Finish.next finishConditionMet s (.step i) = some t) :
    ∃ job, t.job = some job ∧ job.status = .completed ∧
      (job.jobType = .openingRack → job.totalRacks ≤ job.racksSettled) := by
  have hinv : Inv False s := inv_of_reachableBy (fun _ _ _ ↦ False.elim) h
  obtain ⟨job, hjob, -, hracks⟩ := hinv.settled (hinv.locked hc rfl)
  refine ⟨complete job, ?_, rfl, hracks⟩
  cases (next_unpurged hc).symm.trans ht
  exact congrArg (Option.map complete) hjob

/-- A job that a finish check completes has not been purged since the check read its row, what
the check found is still there, and an opening-rack job's racks are settled as the completion
commits. -/
theorem completed_unpurged (h : (machine finishConditionMet).ReachableBy LoadsUnpurged s)
    {reading : Reading R} (hc : s.checks i = some (.unpurged reading))
    (ht : Finish.next finishConditionMet s (.step i) = some t) :
    reading.purged = s.purged ∧ (∀ e ∈ reading.seen, e.results <+: s.results) ∧
      ∃ job, t.job = some job ∧ job.status = .completed ∧
        (job.jobType = .openingRack → job.totalRacks ≤ job.racksSettled) := by
  have hinv : Inv True s := inv_of_reachableBy (fun _ _ hok _ ↦ hok) h
  obtain ⟨hpurged, hseen⟩ := hinv.checks trivial hc
  exact ⟨hpurged, hseen, racksSettled_of_completed h.reachable hc ht⟩

end Invariant

section Runs

instance (s : State R) : (a : Action R) → Decidable (LoadsUnpurged s a)
  | .step i => inferInstanceAs (Decidable ((s.checks i).all (loadsUnpurged s) = true))
  | .setAllocation _ | .complete | .claim | .endClaim .. | .hold _ | .lock | .commit .. | .release |
    .find .. | .submit .. | .idle _ | .read _ | .stop _ => inferInstanceAs (Decidable True)

def oneResult (seen : List (Evidence Unit)) : Bool := seen.any (0 < ·.results.length)

def newJob : State Unit where
  job := some ⟨.games, 0, .inactive, 0, 0, 0⟩
  results := []
  claims := .empty
  nextClaim := 0
  lock := none
  operation := none
  holdsTaken := 0
  checks _ := none
  purged := 0

theorem start_newJob : start newJob := ⟨rfl, rfl, rfl, rfl, rfl, fun _ ↦ rfl⟩

def doneAndIdle : List (Action Unit) :=
  [.setAllocation 100, .claim, .setAllocation 0, .find 0 0, .step 0, .step 0, .submit 0 () 0,
    .setAllocation 100]

theorem exists_completed_unpurged : ∃ s t reading,
    (machine oneResult).ReachableBy LoadsUnpurged s ∧ s.checks 1 = some (.unpurged reading) ∧
    next oneResult s (.step 1) = some t ∧ reading.purged = s.purged ∧
    (∀ e ∈ reading.seen, e.results <+: s.results) ∧ ∃ job, t.job = some job ∧
      job.status = .completed ∧
      (job.jobType = .openingRack → job.totalRacks ≤ job.racksSettled) := by
  have h : (machine oneResult).ReachableBy LoadsUnpurged newJob := .start start_newJob
  obtain ⟨s, hs, hp⟩ := h.follow_any
    (doneAndIdle ++ [.idle 1, .step 1, .step 1, .read 1, .step 1, .step 1, .step 1])
    (fun s ↦ (s.checks 1).any fun check ↦ check matches .unpurged _) (by decide +kernel)
  obtain ⟨check, hc, hcheck⟩ := (Option.any_eq_true ..).1 hp
  cases check with
  | unpurged reading =>
    have ht : next oneResult s (.step 1) = _ := next_unpurged hc
    exact ⟨s, _, reading, hs, hc, ht, completed_unpurged hs hc ht⟩
  | _ => cases hcheck

/-- A purge has its hold as the check reads the purge count. It commits once the check has read
the result, and the job is put to work and hands out as many claims again before the check
completes it. -/
theorem not_completed_unpurged : ¬ ∀ (s t : State Unit) (i : ℕ) (reading : Reading Unit),
    (machine oneResult).Reachable s → s.checks i = some (.unpurged reading) →
    next oneResult s (.step i) = some t → reading.purged = s.purged := by
  intro hkept
  have h : (machine oneResult).Reachable newJob := .start start_newJob
  obtain ⟨s, hs, hp⟩ := h.follow_any
    (doneAndIdle ++ [.hold .purge, .idle 1, .step 1, .step 1, .read 1, .step 1, .lock, .commit 0 0,
      .release, .setAllocation 100, .claim, .step 1, .step 1])
    (fun s ↦ (s.checks 1).any fun
      | .unpurged reading => reading.purged ≠ s.purged
      | _ => false) (by decide +kernel)
  obtain ⟨check, hc, hcheck⟩ := (Option.any_eq_true ..).1 hp
  cases check with
  | unpurged reading =>
    exact of_decide_eq_true hcheck (hkept s _ 1 reading hs hc (next_unpurged hc))
  | _ => cases hcheck

end Runs

end Birdtest.Jobs.Finish
