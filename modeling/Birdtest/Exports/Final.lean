import Birdtest.Jobs.Finish
import Birdtest.Jobs.LeaveGen.Merge
import Birdtest.Jobs.OpeningRack.Consensus
import Mathlib.Data.List.Sort

namespace Birdtest.Exports.Final

open Birdtest.Base.Runs Birdtest.Base.Tables Birdtest.Models.Job
open Birdtest.Jobs.Finish (JobType)
open Birdtest.Jobs.LeaveGen Birdtest.Jobs.OpeningRack

variable {G R M F : Type}

structure Job where
  jobType : JobType
  status : JobStatus
  deriving DecidableEq

/-- The rows that the lines of a job's export are made of: its results with the positions they
captured, its analyses with its racks' standings and its settings, and its generations' racks. -/
structure Rows (G R M F : Type) where
  games : List G
  racks : Consensus.Job R M F
  progress : ℕ → Merge.Totals R F

inductive Result (G R M F : Type)
  | games (row : G)
  | racks (batch : List (R × M))
  | leaves (generation : ℕ) (record : List (Merge.RackOccurrences R F))

structure Staged (R F : Type) where
  generation : ℕ
  row : Merge.Staged R F

/-- What one snapshot read, and how many edits, purges and accepted results it came after, which
no statement asks. -/
structure Snapshot (G R M F : Type) where
  rows : Rows G R M F
  isFinal : Bool
  takenAt : ℤ
  changes : ℕ

inductive ExportState
  | running | ready | failed
  deriving DecidableEq

structure Export (G R M F : Type) where
  state : ExportState
  artifact : Option (Snapshot G R M F)
  isFinal : Bool
  requestedAt : ℤ
  completedAt : Option ℤ

inductive Build (G R M F : Type)
  | requested
  | sharing (requestedAt : ℤ)
  | waiting
  | wanted
  | settling (generations : List ℕ)
  | uploading (snapshot : Snapshot G R M F)
  | found (snapshot : Snapshot G R M F)
  | marking (snapshot : Snapshot G R M F) (completed : Bool)
  | ended

def Build.shares : Build G R M F → Bool
  | .sharing _ | .marking _ _ => true
  | _ => false

def Build.snapshot : Build G R M F → Option (Snapshot G R M F)
  | .uploading snapshot | .found snapshot | .marking snapshot _ => some snapshot
  | _ => none

inductive OperationKind (F : Type)
  | purge
  | edit (settings : Consensus.ConsensusSettings F)

inductive Phase
  | locked
  | written (seen : List ℕ)

structure Operation (F : Type) where
  kind : OperationKind F
  phase : Phase

/-- One job's committed rows, what has its row locked, and, in the server's memory, the exports'
tasks and the seedings started. -/
structure State (G R M F : Type) where
  job : Job
  claims : Table ℕ ClaimState
  nextClaim : ℕ
  rows : Rows G R M F
  staging : List (Staged R F)
  nextStaged : ℕ
  ids : List ℕ
  exports : ℕ → Option (Export G R M F)
  builds : ℕ → Option (Build G R M F)
  lock : Option (Operation F)
  seedings : List ℕ
  changes : ℕ

namespace State

variable (s : State G R M F)

def setStatus (status : JobStatus) : State G R M F := { s with job := { s.job with status } }

def setBuild (i : ℕ) (build : Build G R M F) : State G R M F :=
  { s with builds := Function.update s.builds i (some build) }

def setExport (i : ℕ) (row : Export G R M F) : State G R M F :=
  { s with exports := Function.update s.exports i (some row) }

@[simp]
theorem builds_setBuild (i : ℕ) (build : Build G R M F) :
    (s.setBuild i build).builds = Function.update s.builds i (some build) := rfl

@[simp]
theorem exports_setExport (i : ℕ) (row : Export G R M F) :
    (s.setExport i row).exports = Function.update s.exports i (some row) := rfl

def running (i : ℕ) : Bool := (s.exports i).any (·.state = .running)

def rowFree : Bool := s.lock.isNone ∧ ¬ s.ids.any fun i ↦ (s.builds i).any Build.shares

def exportsFree : Bool := s.lock.all fun operation ↦ operation.phase matches .locked

end State

section Statements

variable [DecidableEq R] [LinearOrder M] [DecidableEq F]
variable (arithmetic : Consensus.Arithmetic F) (rackUniverse : Merge.Generation R F)
variable (s : State G R M F)

def accept : Result G R M F → Option (State G R M F)
  | .games row =>
    if s.job.jobType = .games ∨ s.job.jobType = .gamePairs then
      some { s with rows := { s.rows with games := s.rows.games ++ [row] } }
    else none
  | .racks batch =>
    if s.job.jobType = .openingRack then
      (Consensus.accept arithmetic s.rows.racks batch).toOption.map fun racks ↦
        { s with rows := { s.rows with racks } }
    else none
  | .leaves generation record =>
    if s.job.jobType = .leaveGeneration then
      some { s with
        staging := s.staging ++
          [⟨generation, s.nextStaged, Merge.stagedRacks rackUniverse record⟩]
        nextStaged := s.nextStaged + 1 }
    else none

def submit (claim : ℕ) (result : Result G R M F) : Option (State G R M F) :=
  if s.rowFree ∧ s.claims.get claim = some .claimed then
    (accept arithmetic rackUniverse s result).map fun t ↦
      { t with claims := s.claims.put claim .completed, changes := s.changes + 1 }
  else none

def merge (generation : ℕ) (ids : List ℕ) : State G R M F :=
  let taken := s.staging.filter fun staged ↦ staged.generation = generation ∧ staged.row.id ∈ ids
  { s with
    rows := { s.rows with
      progress := Function.update s.rows.progress generation
        (Merge.onePass rackUniverse (taken.map (·.row)) (s.rows.progress generation)) }
    staging := s.staging.filter fun staged ↦
      ¬ (staged.generation = generation ∧ staged.row.id ∈ ids) }

def universeExists (generation : ℕ) : Bool :=
  rackUniverse.racks.any fun rack ↦ (s.rows.progress generation rack).isSome

/-- `seed_leave_universe`, which does not ask whether the job is completed by now. -/
def seedLeaveUniverse (generation : ℕ) : State G R M F :=
  if universeExists rackUniverse s generation then s
  else { s with
    rows := { s.rows with
      progress := Function.update s.rows.progress generation (Merge.seededTotals rackUniverse) } }

/-- A consensus edit, which demotes the exports it saw where the job was completed. -/
def unfinalize (row : Export G R M F) : Export G R M F :=
  { row with
    isFinal := false
    state := if row.state = .running then .failed else row.state }

def edit (settings : Consensus.ConsensusSettings F) (seen : List ℕ) : State G R M F :=
  let racks := Consensus.restateRacks arithmetic s.rows.racks settings
  let reopened := s.job.status = .completed ∧ 0 < racks.progress.count (!·.settled)
  { s with
    job := { s.job with status := if reopened then .inactive else s.job.status }
    rows := { s.rows with racks }
    exports := fun i ↦ if i ∈ seen then (s.exports i).map unfinalize else s.exports i
    lock := none
    changes := s.changes + 1 }

def purge (seen : List ℕ) : State G R M F :=
  { s with
    job := { s.job with status := .inactive }
    claims := .empty
    rows :=
      { games := []
        racks := { s.rows.racks with
          analyses := []
          progress := .empty
          racksAnalyzed := 0
          racksSettled := 0
          racksWithoutConsensus := 0 }
        progress := fun _ _ ↦ none }
    staging := []
    exports := fun i ↦ if i ∈ seen then none else s.exports i
    lock := none
    changes := s.changes + 1 }

def lockJob (kind : OperationKind F) : Option (State G R M F) :=
  let checked : Bool := match kind with
    | .purge => true
    | .edit settings =>
      s.job.jobType = .openingRack ∧ settings.isValid arithmetic ∧
        ¬ (settings.consensusPct = s.rows.racks.settings.consensusPct ∧
          settings.minResultsPerRack = s.rows.racks.settings.minResultsPerRack ∧
          settings.maxResultsPerRack = s.rows.racks.settings.maxResultsPerRack)
  if s.rowFree ∧ checked then some { s with lock := some ⟨kind, .locked⟩ } else none

/-- `exports::purge`, or `exports::unfinalize` where the job is completed. -/
def writeExports : Option (State G R M F) :=
  match s.lock with
  | some ⟨kind, .locked⟩ =>
    some { s with lock := some ⟨kind, .written (s.ids.filter fun i ↦ (s.exports i).isSome)⟩ }
  | _ => none

def commitOperation : Option (State G R M F) :=
  match s.lock with
  | some ⟨.purge, .written seen⟩ => some (purge s seen)
  | some ⟨.edit settings, .written seen⟩ =>
    if s.job.status = .completed then some (edit arithmetic s settings seen) else none
  | some ⟨.edit settings, .locked⟩ =>
    if s.job.status = .completed then none else some (edit arithmetic s settings [])
  | _ => none

end Statements

section Builds

variable (s : State G R M F) (i : ℕ) (now : ℤ)

/-- `start`'s first look at the job: a completed one is refused while a claim of it is open. -/
def request : Option (State G R M F) :=
  if i ∉ s.ids ∧ (s.job.status = .completed → s.claims.count (· = .claimed) = 0) then
    some { s.setBuild i .requested with ids := i :: s.ids }
  else none

def readSnapshot : Snapshot G R M F where
  rows := s.rows
  isFinal := s.job.status = .completed ∧ s.claims.count (· = .claimed) = 0 ∧ s.staging.isEmpty
  takenAt := now
  changes := s.changes

def step : Build G R M F → Option (State G R M F)
  | .requested => if s.lock.isNone then some (s.setBuild i (.sharing now)) else none
  | .sharing requestedAt =>
    some (if s.ids.any s.running then s.setBuild i .ended
    else (s.setExport i ⟨.running, none, false, requestedAt, none⟩).setBuild i .waiting)
  | .waiting => some (s.setBuild i (if s.running i then .wanted else .ended))
  | .wanted =>
    some (s.setBuild i (.settling
      (if s.job.status = .completed ∧ s.job.jobType = .leaveGeneration then
        (s.staging.map (·.generation)).dedup
      else [])))
  | .settling [] => some (s.setBuild i (.uploading (readSnapshot s now)))
  | .settling (_ :: _) => none
  | .uploading snapshot => some (s.setBuild i (if s.running i then .found snapshot else .ended))
  | .found snapshot =>
    if s.lock.isNone then some (s.setBuild i (.marking snapshot (s.job.status = .completed)))
    else none
  | .marking snapshot completed =>
    some (match s.exports i with
    | some row =>
      if row.state = .running then
        (s.setExport i { row with
          state := .ready
          artifact := some snapshot
          isFinal := snapshot.isFinal && completed
          completedAt := some now }).setBuild i .ended
      else s.setBuild i .ended
    | none => s.setBuild i .ended)
  | .ended => none

def settle [DecidableEq R] (rackUniverse : Merge.Generation R F) (ids : List ℕ) :
    Build G R M F → Option (State G R M F)
  | .settling (generation :: generations) =>
    if s.lock.isNone then
      some ((merge rackUniverse s generation ids).setBuild i (.settling generations))
    else none
  | _ => none

def fail : Option (State G R M F) :=
  if s.exportsFree then
    some (match s.exports i with
    | some row =>
      if row.state = .running then
        s.setExport i { row with state := .failed, completedAt := some now }
      else s
    | none => s)
  else none

def exportLifetime : ℤ := 29 * 24 * 3600 * 1000000

def newestReady : Option (ℕ × Export G R M F) :=
  (((s.ids.filterMap fun i ↦ (s.exports i).map (i, ·)).filter fun row ↦
    row.2.state = .ready ∧ row.2.isFinal ∧ row.2.artifact.isSome ∧
      row.2.completedAt.any (now - exportLifetime < ·)).insertionSort fun row row' ↦
        row'.2.requestedAt ≤ row.2.requestedAt).head?

end Builds

inductive Action (G R M F : Type)
  | setActive (active : Bool)
  | complete
  | claim
  | endClaim (claim : ℕ) (terminal : ClaimState)
  | submit (claim : ℕ) (result : Result G R M F)
  | merge (generation : ℕ) (ids : List ℕ)
  | needsUniverse (generation : ℕ)
  | seed (generation : ℕ)
  | lock (kind : OperationKind F)
  | writeExports
  | commit
  | rollback
  | request (i : ℕ)
  | step (i : ℕ) (now : ℤ)
  | settle (i : ℕ) (ids : List ℕ)
  | fail (i : ℕ) (now : ℤ)
  | stop (i : ℕ)

section Machine

variable [DecidableEq R] [LinearOrder M] [DecidableEq F]
variable (arithmetic : Consensus.Arithmetic F) (rackUniverse : Merge.Generation R F)

/-- Transactions that hold the job's row for their last statement alone are each a step. -/
def next (s : State G R M F) : Action G R M F → Option (State G R M F)
  | .setActive active =>
    if s.rowFree ∧ s.job.status ≠ .completed then
      some (s.setStatus (if active then .active else .inactive))
    else none
  | .complete =>
    if s.rowFree ∧ s.job.status ≠ .completed then some (s.setStatus .completed) else none
  | .claim =>
    if s.rowFree ∧ s.job.status = .active then
      some { s with claims := s.claims.put s.nextClaim .claimed, nextClaim := s.nextClaim + 1 }
    else none
  | .endClaim claim terminal =>
    if s.lock.isNone ∧ s.claims.get claim = some .claimed ∧ terminal ≠ .claimed then
      some { s with claims := s.claims.put claim terminal }
    else none
  | .submit claim result => submit arithmetic rackUniverse s claim result
  | .merge generation ids =>
    if s.lock.isNone then some (merge rackUniverse s generation ids) else none
  | .needsUniverse generation =>
    if s.job.jobType = .leaveGeneration ∧ s.job.status = .active ∧ s.lock.isNone ∧
        ¬ universeExists rackUniverse s generation then
      some { s with seedings := generation :: s.seedings }
    else none
  | .seed generation =>
    if generation ∈ s.seedings ∧ s.lock.isNone then
      some { seedLeaveUniverse rackUniverse s generation with
        seedings := s.seedings.erase generation }
    else none
  | .lock kind => lockJob arithmetic s kind
  | .writeExports => writeExports s
  | .commit => commitOperation arithmetic s
  | .rollback => s.lock.map fun _ ↦ { s with lock := none }
  | .request i => request s i
  | .step i now => (s.builds i).bind (step s i now)
  | .settle i ids => (s.builds i).bind (settle s i rackUniverse ids)
  | .fail i now => fail s i now
  | .stop i => (s.builds i).map fun _ ↦ s.setBuild i .ended

def start (s : State G R M F) : Prop :=
  s.job.status = .inactive ∧ s.claims = .empty ∧ s.rows.games = [] ∧
    Consensus.empty s.rows.racks ∧ (∀ generation rack, s.rows.progress generation rack = none) ∧
    s.staging = [] ∧ s.ids = [] ∧ (∀ i, s.exports i = none) ∧ (∀ i, s.builds i = none) ∧
    s.lock = none ∧ s.seedings = []

/-- A job from its creation, under any number of exports, and of purges and edits, one at a
time. -/
def machine : Machine (State G R M F) (Action G R M F) :=
  ⟨start, next arithmetic rackUniverse⟩

end Machine

section Reads

variable {s t : State G R M F} {snapshot : Snapshot G R M F} {i : ℕ}

/-- A snapshot read as the job's final rows, which an export serves or is still to serve. -/
inductive Live (s : State G R M F) (snapshot : Snapshot G R M F) : Prop
  | ready {i : ℕ} {row : Export G R M F} : s.exports i = some row → row.state = .ready →
      row.isFinal = true → row.artifact = some snapshot → Live s snapshot
  | building {i : ℕ} {row : Export G R M F} {build : Build G R M F} : s.builds i = some build →
      build.snapshot = some snapshot → snapshot.isFinal = true → s.exports i = some row →
      row.state = .running → Live s snapshot

/-- It is of a job with nothing more to come, and the job's rows are still those it read. -/
structure Current (s : State G R M F) (snapshot : Snapshot G R M F) : Prop where
  completed : s.job.status = .completed
  unclaimed (claim : ℕ) : s.claims.get claim ≠ some .claimed
  unstaged : s.staging = []
  rows : snapshot.rows = s.rows
  changes : snapshot.changes = s.changes

structure Inv (s : State G R M F) : Prop where
  known {i : ℕ} : s.exports i ≠ none → i ∈ s.ids
  built {i : ℕ} : s.builds i ≠ none → i ∈ s.ids
  seen {kind : OperationKind F} {seen : List ℕ} {i : ℕ} : s.lock = some ⟨kind, .written seen⟩ →
    s.exports i ≠ none → i ∈ seen
  unshared {i : ℕ} {build : Build G R M F} : s.lock ≠ none → s.builds i = some build →
    build.shares = false
  named {i : ℕ} {row : Export G R M F} : s.exports i = some row → row.state = .ready →
    row.isFinal = true → row.artifact ≠ none
  live {snapshot : Snapshot G R M F} : Live s snapshot → Current s snapshot

theorem count_claimed {claims : Table ℕ ClaimState} (h : claims.count (· = .claimed) = 0)
    (claim : ℕ) : claims.get claim ≠ some .claimed := by
  intro hclaim
  have hall := List.countP_eq_zero.1 h (claim, .claimed) (Table.mem_rows.2 hclaim)
  exact hall (decide_eq_true rfl)

theorem current_readSnapshot {now : ℤ} (h : (readSnapshot s now).isFinal = true) :
    Current s (readSnapshot s now) := by
  obtain ⟨hcompleted, hcount, hstaging⟩ := of_decide_eq_true h
  exact ⟨hcompleted, count_claimed hcount, List.isEmpty_iff.1 hstaging, rfl, rfl⟩

theorem Inv.data (h : Inv s) (hids : t.ids = s.ids) (hexports : t.exports = s.exports)
    (hbuilds : t.builds = s.builds) (hlock : t.lock = s.lock)
    (hcurrent : ∀ snapshot, Live s snapshot → Current s snapshot → Current t snapshot) :
    Inv t := by
  refine ⟨fun {i} ↦ ?_, fun {i} ↦ ?_, fun {kind seen i} ↦ ?_, fun {i build} ↦ ?_,
    fun {i row} ↦ ?_, fun {snapshot} hlive ↦ ?_⟩
  · rw [hexports, hids]
    exact h.known
  · rw [hbuilds, hids]
    exact h.built
  · rw [hlock, hexports]
    exact h.seen
  · rw [hlock, hbuilds]
    exact h.unshared
  · rw [hexports]
    exact h.named
  · have hlive : Live s snapshot := by
      cases hlive with
      | ready hrow hready hfinal hartifact =>
        rw [hexports] at hrow
        exact .ready hrow hready hfinal hartifact
      | building hbuild hsnapshot hfinal hrow hrunning =>
        rw [hbuilds] at hbuild
        rw [hexports] at hrow
        exact .building hbuild hsnapshot hfinal hrow hrunning
    exact hcurrent snapshot hlive (h.live hlive)

theorem Inv.setBuild (h : Inv s) (hi : i ∈ s.ids) {build : Build G R M F}
    (hshares : build.shares = true → s.lock = none)
    (hsnapshot : ∀ snapshot row, build.snapshot = some snapshot → snapshot.isFinal = true →
      s.exports i = some row → row.state = .running → Current s snapshot) :
    Inv (s.setBuild i build) := by
  refine ⟨h.known, fun {j} hj ↦ ?_, h.seen, fun {j b} hlock hb ↦ ?_, h.named,
    fun {snapshot} hlive ↦ ?_⟩
  · by_cases hji : j = i
    · exact hji ▸ hi
    · exact h.built (by rwa [State.builds_setBuild, Function.update_of_ne hji] at hj)
  · rw [State.builds_setBuild] at hb
    obtain ⟨rfl, rfl⟩ | ⟨-, hb⟩ := of_update_eq_some hb
    · by_contra hshared
      exact hlock (hshares (Bool.not_eq_false _ ▸ hshared))
    · exact h.unshared hlock hb
  · have hcurrent : Current s snapshot := by
      cases hlive with
      | ready hrow hready hfinal hartifact => exact h.live (.ready hrow hready hfinal hartifact)
      | @building j row b hb hsnap hfinal hrow hrunning =>
        rw [State.builds_setBuild] at hb
        obtain ⟨rfl, rfl⟩ | ⟨-, hb⟩ := of_update_eq_some hb
        · exact hsnapshot snapshot row hsnap hfinal hrow hrunning
        · exact h.live (.building hb hsnap hfinal hrow hrunning)
    exact ⟨hcurrent.completed, hcurrent.unclaimed, hcurrent.unstaged, hcurrent.rows,
      hcurrent.changes⟩

theorem Inv.setUnread (h : Inv s) (hi : i ∈ s.ids) {build : Build G R M F}
    (hshares : build.shares = true → s.lock = none) (hsnapshot : build.snapshot = none) :
    Inv (s.setBuild i build) :=
  h.setBuild hi hshares fun snapshot _ hsome ↦ by
    rw [hsnapshot] at hsome
    cases hsome

theorem Inv.setExport (h : Inv s) (hi : i ∈ s.ids) {row : Export G R M F}
    (hseen : ∀ kind seen, s.lock = some ⟨kind, .written seen⟩ → i ∈ seen)
    (hready : row.state = .ready → row.isFinal = true →
      ∃ snapshot, row.artifact = some snapshot ∧ Current s snapshot)
    (hrunning : row.state = .running → ∀ build snapshot, s.builds i = some build →
      build.snapshot = some snapshot → snapshot.isFinal = true → Current s snapshot) :
    Inv (s.setExport i row) := by
  refine ⟨fun {j} hj ↦ ?_, h.built, fun {kind seen j} hlock hj ↦ ?_, h.unshared,
    fun {j r} hr hstate hfinal ↦ ?_, fun {snapshot} hlive ↦ ?_⟩
  · by_cases hji : j = i
    · exact hji ▸ hi
    · exact h.known (by rwa [State.exports_setExport, Function.update_of_ne hji] at hj)
  · by_cases hji : j = i
    · exact hji ▸ hseen kind seen hlock
    · exact h.seen hlock (by rwa [State.exports_setExport, Function.update_of_ne hji] at hj)
  · rw [State.exports_setExport] at hr
    obtain ⟨rfl, rfl⟩ | ⟨-, hr⟩ := of_update_eq_some hr
    · obtain ⟨snapshot, hartifact, -⟩ := hready hstate hfinal
      rw [hartifact]
      nofun
    · exact h.named hr hstate hfinal
  · have hcurrent : Current s snapshot := by
      cases hlive with
      | @ready j r hr hstate hfinal hartifact =>
        rw [State.exports_setExport] at hr
        obtain ⟨rfl, rfl⟩ | ⟨-, hr⟩ := of_update_eq_some hr
        · obtain ⟨snapshot', hartifact', hcurrent⟩ := hready hstate hfinal
          rw [hartifact', Option.some.injEq] at hartifact
          exact hartifact ▸ hcurrent
        · exact h.live (.ready hr hstate hfinal hartifact)
      | @building j r b hb hsnap hfinal hr hstate =>
        rw [State.exports_setExport] at hr
        obtain ⟨rfl, rfl⟩ | ⟨-, hr⟩ := of_update_eq_some hr
        · exact hrunning hstate b snapshot hb hsnap hfinal
        · exact h.live (.building hb hsnap hfinal hr hstate)
    exact ⟨hcurrent.completed, hcurrent.unclaimed, hcurrent.unstaged, hcurrent.rows,
      hcurrent.changes⟩

theorem Inv.current_of_live (h : Inv s) (hlive : Live t snapshot) (hexports : t.exports = s.exports)
    (hbuilds : t.builds = s.builds) : Current s snapshot := by
  apply h.live
  cases hlive with
  | ready hrow hready hfinal hartifact =>
    rw [hexports] at hrow
    exact .ready hrow hready hfinal hartifact
  | building hbuild hsnapshot hfinal hrow hrunning =>
    rw [hbuilds] at hbuild
    rw [hexports] at hrow
    exact .building hbuild hsnapshot hfinal hrow hrunning

theorem Inv.setLock (h : Inv s) {lock : Option (Operation F)}
    (hseen : ∀ kind seen i, lock = some ⟨kind, .written seen⟩ → s.exports i ≠ none → i ∈ seen)
    (hunshared : lock ≠ none → ∀ i build, s.builds i = some build → build.shares = false) :
    Inv { s with lock } := by
  refine ⟨h.known, h.built, fun {kind seen i} ↦ hseen kind seen i,
    fun {i build} hlock ↦ hunshared hlock i build, h.named, fun {snapshot} hlive ↦ ?_⟩
  have hcurrent := h.current_of_live hlive rfl rfl
  exact ⟨hcurrent.completed, hcurrent.unclaimed, hcurrent.unstaged, hcurrent.rows,
    hcurrent.changes⟩

theorem Inv.commit (h : Inv s) (hids : t.ids = s.ids) (hbuilds : t.builds = s.builds)
    (hlock : t.lock = none) (hexports : ∀ i row, t.exports i = some row →
      ∃ old, s.exports i = some old ∧ (row = old ∨ row.isFinal = false))
    (hlive : ∀ snapshot, ¬ Live t snapshot) : Inv t := by
  refine ⟨fun {i} hi ↦ ?_, fun {i} hi ↦ ?_, fun {kind seen i} hl ↦ ?_, fun {i build} hl ↦ ?_,
    fun {i row} hrow hready hfinal ↦ ?_, fun {snapshot} hl ↦ absurd hl (hlive snapshot)⟩
  · obtain ⟨row, hrow⟩ := Option.ne_none_iff_exists'.1 hi
    obtain ⟨old, hold, -⟩ := hexports i row hrow
    rw [hids]
    exact h.known (by rw [hold]; nofun)
  · rw [hids]
    exact h.built (hbuilds ▸ hi)
  · cases hlock.symm.trans hl
  · exact absurd hlock hl
  · obtain ⟨old, hold, rfl | hnot⟩ := hexports i row hrow
    · exact h.named hold hready hfinal
    · cases hnot.symm.trans hfinal

def readFinal (s : State G R M F) (i : ℕ) : Bool :=
  (s.exports i).any fun row ↦
    (row.state = .ready ∧ row.isFinal) ∨
      (row.state = .running ∧
        (s.builds i).any fun build ↦ build.snapshot.any (·.isFinal))

theorem readFinal_of_live (h : Inv s) {snapshot : Snapshot G R M F} (hlive : Live s snapshot) :
    ∃ i ∈ s.ids, readFinal s i = true := by
  cases hlive with
  | @ready i row hrow hready hfinal hartifact =>
    refine ⟨i, h.known (by rw [hrow]; nofun), ?_⟩
    rw [readFinal, hrow, Option.any_some]
    exact decide_eq_true (.inl ⟨hready, hfinal⟩)
  | @building i row build hbuild hsnapshot hfinal hrow hrunning =>
    refine ⟨i, h.known (by rw [hrow]; nofun), ?_⟩
    rw [readFinal, hrow, Option.any_some, hbuild, Option.any_some, hsnapshot, Option.any_some]
    exact decide_eq_true (.inr ⟨hrunning, hfinal⟩)

theorem Inv.writeExports (h : Inv s) (ht : writeExports s = some t) : Inv t := by
  rw [Final.writeExports] at ht
  split at ht
  · next kind hlock =>
    cases ht
    refine h.setLock (fun _ _ i hl hi ↦ ?_) fun _ i build ↦ h.unshared (by rw [hlock]; nofun)
    cases hl
    exact List.mem_filter.2 ⟨h.known hi, Option.isSome_iff_ne_none.2 hi⟩
  · cases ht

theorem Inv.purge (h : Inv s) {seen : List ℕ} (hseen : ∀ i, s.exports i ≠ none → i ∈ seen) :
    Inv (purge s seen) := by
  have hexports (i : ℕ) : (Final.purge s seen).exports i = none := by
    rw [Final.purge]
    by_cases hi : s.exports i = none
    · exact (ite_eq_left_iff.2 fun _ ↦ hi)
    · exact if_pos (hseen i hi)
  refine h.commit rfl rfl rfl (fun i row hrow ↦ ?_) fun snapshot hlive ↦ ?_
  · cases (hexports i).symm.trans hrow
  · cases hlive with
    | ready hrow => cases (hexports _).symm.trans hrow
    | building _ _ _ hrow => cases (hexports _).symm.trans hrow

theorem Inv.lockJob [DecidableEq F] {arithmetic : Consensus.Arithmetic F} (h : Inv s)
    {kind : OperationKind F} (ht : lockJob arithmetic s kind = some t) : Inv t := by
  obtain ⟨⟨hfree, -⟩, ht⟩ := Option.ite_none_right_eq_some.1 ht
  cases ht
  refine h.setLock (by rintro _ _ _ ⟨⟩) fun _ i build hbuild ↦ ?_
  obtain ⟨-, hnone⟩ := of_decide_eq_true hfree
  by_contra hshares
  refine hnone (List.any_eq_true.2 ⟨i, h.built (by rw [hbuild]; nofun), ?_⟩)
  rw [hbuild, Option.any_some]
  exact Bool.not_eq_false _ ▸ hshares

/-- Where the job was completed the edit has demoted or failed every export. -/
theorem Inv.edit [DecidableEq F] {arithmetic : Consensus.Arithmetic F} (h : Inv s)
    {settings : Consensus.ConsensusSettings F} {seen : List ℕ}
    (hseen : s.job.status = .completed → ∀ i, s.exports i ≠ none → i ∈ seen) :
    Inv (edit arithmetic s settings seen) := by
  have hexports {i : ℕ} {row : Export G R M F}
      (hrow : (Final.edit arithmetic s settings seen).exports i = some row) :
      ∃ old, s.exports i = some old ∧ (row = old ∧ i ∉ seen ∨ row = unfinalize old) := by
    rw [Final.edit] at hrow
    by_cases hi : i ∈ seen
    · obtain ⟨old, hold, rfl⟩ := Option.map_eq_some_iff.1 ((if_pos hi).symm.trans hrow)
      exact ⟨old, hold, .inr rfl⟩
    · exact ⟨row, (if_neg hi).symm.trans hrow, .inl ⟨rfl, hi⟩⟩
  refine h.commit rfl rfl rfl (fun i row hrow ↦ ?_) fun snapshot hlive ↦ ?_
  · obtain ⟨old, hold, ⟨rfl, -⟩ | rfl⟩ := hexports hrow
    · exact ⟨row, hold, .inl rfl⟩
    · exact ⟨old, hold, .inr rfl⟩
  · -- An export that it left alone was of a job not completed, and so not live.
    have hleft {i : ℕ} {row : Export G R M F} (hrow : s.exports i = some row) (hi : i ∉ seen)
        (hbefore : Live s snapshot) : False :=
      hi (hseen (h.live hbefore).completed i (by rw [hrow]; nofun))
    cases hlive with
    | ready hrow hready hfinal hartifact =>
      obtain ⟨old, hold, ⟨rfl, hi⟩ | rfl⟩ := hexports hrow
      · exact hleft hold hi (.ready hold hready hfinal hartifact)
      · cases hfinal
    | building hbuild hsnapshot hfinal hrow hrunning =>
      obtain ⟨old, hold, ⟨rfl, hi⟩ | rfl⟩ := hexports hrow
      · exact hleft hold hi (.building hbuild hsnapshot hfinal hold hrunning)
      · rw [unfinalize] at hrunning
        dsimp only at hrunning
        split at hrunning
        · cases hrunning
        · next hnot => exact hnot hrunning

theorem Inv.commitOperation [DecidableEq F] {arithmetic : Consensus.Arithmetic F} (h : Inv s)
    (ht : commitOperation arithmetic s = some t) : Inv t := by
  rw [Final.commitOperation] at ht
  split at ht
  · next seen hlock =>
    cases ht
    exact h.purge fun i ↦ h.seen hlock
  · next settings seen hlock =>
    obtain ⟨-, ht⟩ := Option.ite_none_right_eq_some.1 ht
    cases ht
    exact h.edit fun _ i ↦ h.seen hlock
  · next settings hlock =>
    obtain ⟨hnot, ht⟩ := Option.ite_none_left_eq_some.1 ht
    cases ht
    exact h.edit fun hcompleted ↦ absurd hcompleted hnot
  · cases ht

theorem Inv.request (h : Inv s) (ht : request s i = some t) : Inv t := by
  obtain ⟨-, ht⟩ := Option.ite_none_right_eq_some.1 ht
  cases ht
  have hgrown : Inv { s with ids := i :: s.ids } := by
    refine ⟨fun hi ↦ List.mem_cons_of_mem _ (h.known hi), fun hi ↦
      List.mem_cons_of_mem _ (h.built hi), h.seen, h.unshared, h.named, fun {snapshot} hlive ↦ ?_⟩
    have hcurrent := h.current_of_live hlive rfl rfl
    exact ⟨hcurrent.completed, hcurrent.unclaimed, hcurrent.unstaged, hcurrent.rows,
      hcurrent.changes⟩
  exact hgrown.setUnread List.mem_cons_self (by rintro ⟨⟩) rfl

theorem Inv.endBuild (h : Inv s) (hi : i ∈ s.ids) : Inv (s.setBuild i .ended) :=
  h.setUnread hi (by rintro ⟨⟩) rfl

theorem Inv.fail (h : Inv s) {now : ℤ} (ht : fail s i now = some t) : Inv t := by
  obtain ⟨hfree, ht⟩ := Option.ite_none_right_eq_some.1 ht
  cases ht
  split
  · next row hrow =>
    split
    · next hrunning =>
      refine h.setExport (h.known (by rw [hrow]; nofun)) (fun kind seen hlock ↦ ?_)
        (by rintro ⟨⟩) (by rintro ⟨⟩)
      exact h.seen hlock (by rw [hrow]; nofun)
    · exact h
  · exact h

theorem Inv.step (h : Inv s) {now : ℤ} {build : Build G R M F} (hb : s.builds i = some build)
    (ht : step s i now build = some t) : Inv t := by
  have hi : i ∈ s.ids := h.built (by rw [hb]; nofun)
  cases build with
  | requested =>
    obtain ⟨hfree, ht⟩ := Option.ite_none_right_eq_some.1 ht
    cases ht
    exact h.setUnread hi (fun _ ↦ Option.isNone_iff_eq_none.1 hfree) rfl
  | sharing requestedAt =>
    cases ht
    split
    · exact h.endBuild hi
    · refine Inv.setUnread (h.setExport hi (fun _ _ hlock ↦ ?_) (by rintro ⟨⟩)
        fun _ b snapshot hb' hsnap ↦ ?_) hi (by rintro ⟨⟩) rfl
      · cases h.unshared (by rw [hlock]; nofun) hb
      · cases hb.symm.trans hb'
        cases hsnap
  | waiting =>
    cases ht
    split
    · exact h.setUnread hi (by rintro ⟨⟩) rfl
    · exact h.endBuild hi
  | wanted =>
    cases ht
    exact h.setUnread hi (by rintro ⟨⟩) rfl
  | settling generations =>
    cases generations with
    | nil =>
      cases ht
      refine h.setBuild hi (by rintro ⟨⟩) fun snapshot row hsnap hfinal _ _ ↦ ?_
      cases hsnap
      exact current_readSnapshot hfinal
    | cons generation generations => cases ht
  | uploading snapshot =>
    cases ht
    split
    · refine h.setBuild hi (by rintro ⟨⟩) fun snapshot row hsnap hfinal hrow hrunning ↦ ?_
      cases hsnap
      exact h.live (.building hb rfl hfinal hrow hrunning)
    · exact h.endBuild hi
  | found snapshot =>
    obtain ⟨hfree, ht⟩ := Option.ite_none_right_eq_some.1 ht
    cases ht
    refine h.setBuild hi (fun _ ↦ Option.isNone_iff_eq_none.1 hfree)
      fun snapshot row hsnap hfinal hrow hrunning ↦ ?_
    cases hsnap
    exact h.live (.building hb rfl hfinal hrow hrunning)
  | marking snapshot completed =>
    cases ht
    split
    · next row hrow =>
      split
      · next hrunning =>
        refine Inv.endBuild (h.setExport hi (fun _ _ hlock ↦ ?_) (fun _ hfinal ↦ ?_)
          (by rintro ⟨⟩)) hi
        · cases h.unshared (by rw [hlock]; nofun) hb
        · exact ⟨snapshot, rfl,
            h.live (.building hb rfl (Bool.and_eq_true_iff.1 hfinal).1 hrow hrunning)⟩
      · exact h.endBuild hi
    · exact h.endBuild hi
  | ended => cases ht

end Reads

section Operations

variable [DecidableEq R] {rackUniverse : Merge.Generation R F} {s t : State G R M F} {i : ℕ}

theorem accept_frame [LinearOrder M] {arithmetic : Consensus.Arithmetic F} {result : Result G R M F}
    (ht : accept arithmetic rackUniverse s result = some t) :
    t.ids = s.ids ∧ t.exports = s.exports ∧ t.builds = s.builds ∧ t.lock = s.lock := by
  cases result with
  | games row =>
    obtain ⟨-, ht⟩ := Option.ite_none_right_eq_some.1 ht
    cases ht
    exact ⟨rfl, rfl, rfl, rfl⟩
  | racks batch =>
    obtain ⟨-, ht⟩ := Option.ite_none_right_eq_some.1 ht
    obtain ⟨racks, -, rfl⟩ := Option.map_eq_some_iff.1 ht
    exact ⟨rfl, rfl, rfl, rfl⟩
  | leaves generation record =>
    obtain ⟨-, ht⟩ := Option.ite_none_right_eq_some.1 ht
    cases ht
    exact ⟨rfl, rfl, rfl, rfl⟩

theorem Inv.submit [LinearOrder M] {arithmetic : Consensus.Arithmetic F} (h : Inv s) {claim : ℕ}
    {result : Result G R M F} (ht : submit arithmetic rackUniverse s claim result = some t) :
    Inv t := by
  obtain ⟨⟨-, hopen⟩, ht⟩ := Option.ite_none_right_eq_some.1 ht
  obtain ⟨u, hu, rfl⟩ := Option.map_eq_some_iff.1 ht
  obtain ⟨hids, hexports, hbuilds, hlock⟩ := accept_frame hu
  exact h.data hids hexports hbuilds hlock fun _ _ hcurrent ↦
    absurd hopen (hcurrent.unclaimed claim)

theorem Inv.merge (h : Inv s) (generation : ℕ) (ids : List ℕ) :
    Inv (merge rackUniverse s generation ids) := by
  refine h.data rfl rfl rfl rfl fun _ _ hcurrent ↦ ?_
  have hstaging := hcurrent.unstaged
  refine ⟨hcurrent.completed, hcurrent.unclaimed, ?_, ?_, hcurrent.changes⟩
  · simp only [Final.merge, hstaging, List.filter_nil]
  · rw [Final.merge, hstaging, List.filter_nil, List.map_nil, Merge.onePass_nil,
      Function.update_eq_self]
    exact hcurrent.rows

/-- A universe is written before any export has read the job's final rows. -/
def SeedsUnread (rackUniverse : Merge.Generation R F) (s : State G R M F) :
    Action G R M F → Prop
  | .seed generation => universeExists rackUniverse s generation = true ∨
      ∀ i ∈ s.ids, readFinal s i = false
  | _ => True

theorem seedLeaveUniverse_frame (rackUniverse : Merge.Generation R F) (s : State G R M F)
    (generation : ℕ) :
    (seedLeaveUniverse rackUniverse s generation).ids = s.ids ∧
      (seedLeaveUniverse rackUniverse s generation).exports = s.exports ∧
      (seedLeaveUniverse rackUniverse s generation).builds = s.builds ∧
      (seedLeaveUniverse rackUniverse s generation).lock = s.lock := by
  rw [seedLeaveUniverse]
  split
  · exact ⟨rfl, rfl, rfl, rfl⟩
  · exact ⟨rfl, rfl, rfl, rfl⟩

theorem Inv.seed (h : Inv s) {generation : ℕ}
    (hok : SeedsUnread rackUniverse s (.seed generation)) :
    Inv { seedLeaveUniverse rackUniverse s generation with
      seedings := s.seedings.erase generation } := by
  rcases hok with hexists | hunread
  · rw [seedLeaveUniverse, if_pos hexists]
    exact h.data rfl rfl rfl rfl fun _ _ hcurrent ↦ ⟨hcurrent.completed, hcurrent.unclaimed,
      hcurrent.unstaged, hcurrent.rows, hcurrent.changes⟩
  · obtain ⟨hids, hexports, hbuilds, hlock⟩ := seedLeaveUniverse_frame rackUniverse s generation
    refine h.data hids hexports hbuilds hlock fun _ hlive _ ↦ ?_
    obtain ⟨i, hi, hread⟩ := readFinal_of_live h hlive
    cases hread.symm.trans (hunread i hi)

theorem Inv.settle (h : Inv s) {ids : List ℕ} {build : Build G R M F}
    (hb : s.builds i = some build) (ht : settle s i rackUniverse ids build = some t) : Inv t := by
  have hi : i ∈ s.ids := h.built (by rw [hb]; nofun)
  cases build with
  | settling generations =>
    cases generations with
    | nil => cases ht
    | cons generation generations =>
      obtain ⟨-, ht⟩ := Option.ite_none_right_eq_some.1 ht
      cases ht
      exact (h.merge ..).setUnread hi (by rintro ⟨⟩) rfl
  | _ => cases ht

variable [LinearOrder M] [DecidableEq F] {arithmetic : Consensus.Arithmetic F}

theorem Inv.next (h : Inv s) {a : Action G R M F} (hok : SeedsUnread rackUniverse s a)
    (ht : next arithmetic rackUniverse s a = some t) : Inv t := by
  cases a with
  | setActive active =>
    obtain ⟨⟨-, hnot⟩, ht⟩ := Option.ite_none_right_eq_some.1 ht
    cases ht
    exact h.data rfl rfl rfl rfl fun _ _ hcurrent ↦ absurd hcurrent.completed hnot
  | complete =>
    obtain ⟨⟨-, hnot⟩, ht⟩ := Option.ite_none_right_eq_some.1 ht
    cases ht
    exact h.data rfl rfl rfl rfl fun _ _ hcurrent ↦ absurd hcurrent.completed hnot
  | claim =>
    obtain ⟨⟨-, hactive⟩, ht⟩ := Option.ite_none_right_eq_some.1 ht
    cases ht
    refine h.data rfl rfl rfl rfl fun _ _ hcurrent ↦ ?_
    cases hactive.symm.trans hcurrent.completed
  | endClaim claim terminal =>
    obtain ⟨⟨-, hopen, -⟩, ht⟩ := Option.ite_none_right_eq_some.1 ht
    cases ht
    exact h.data rfl rfl rfl rfl fun _ _ hcurrent ↦ absurd hopen (hcurrent.unclaimed claim)
  | submit claim result => exact h.submit ht
  | merge generation ids =>
    obtain ⟨-, ht⟩ := Option.ite_none_right_eq_some.1 ht
    cases ht
    exact h.merge generation ids
  | needsUniverse generation =>
    obtain ⟨-, ht⟩ := Option.ite_none_right_eq_some.1 ht
    cases ht
    exact h.data rfl rfl rfl rfl fun _ _ hcurrent ↦ ⟨hcurrent.completed, hcurrent.unclaimed,
      hcurrent.unstaged, hcurrent.rows, hcurrent.changes⟩
  | seed generation =>
    obtain ⟨-, ht⟩ := Option.ite_none_right_eq_some.1 ht
    cases ht
    exact h.seed hok
  | lock kind => exact h.lockJob ht
  | writeExports => exact h.writeExports ht
  | commit => exact h.commitOperation ht
  | rollback =>
    obtain ⟨_, -, rfl⟩ := Option.map_eq_some_iff.1 ht
    exact h.setLock (by rintro _ _ _ ⟨⟩) fun hlock ↦ absurd rfl hlock
  | request i => exact h.request ht
  | step i now =>
    obtain ⟨build, hb, ht⟩ := Option.bind_eq_some_iff.1 ht
    exact h.step hb ht
  | settle i ids =>
    obtain ⟨build, hb, ht⟩ := Option.bind_eq_some_iff.1 ht
    exact h.settle hb ht
  | fail i now => exact h.fail ht
  | stop i =>
    obtain ⟨build, hb, rfl⟩ := Option.map_eq_some_iff.1 ht
    exact h.endBuild (h.built (by rw [hb]; nofun))

omit [DecidableEq R] [LinearOrder M] [DecidableEq F] in
theorem inv_of_start (h : start s) : Inv s := by
  obtain ⟨-, -, -, -, -, -, -, hexports, hbuilds, hlock, -⟩ := h
  refine ⟨fun {i} hi ↦ absurd (hexports i) hi, fun {i} hi ↦ absurd (hbuilds i) hi,
    fun {kind seen i} hl ↦ ?_, fun hl ↦ absurd hlock hl, fun {i row} hrow ↦ ?_,
    fun {snapshot} hlive ↦ ?_⟩
  · cases hlock.symm.trans hl
  · cases (hexports i).symm.trans hrow
  · cases hlive with
    | ready hrow => cases (hexports _).symm.trans hrow
    | building hbuild => cases (hbuilds _).symm.trans hbuild

theorem inv_of_reachableBy
    (h : (machine arithmetic rackUniverse).ReachableBy (SeedsUnread rackUniverse) s) : Inv s := by
  induction h with
  | start h => exact inv_of_start h
  | step _ hok hs ih => exact ih.next hok hs

/-- The export that a completed job's downloads are redirected to was read from the job's rows as
they are, and since then no edit, purge or accepted result has come. -/
theorem newestReady_current
    (h : (machine arithmetic rackUniverse).ReachableBy (SeedsUnread rackUniverse) s) {now : ℤ}
    {i : ℕ} {row : Export G R M F} (hready : newestReady s now = some (i, row)) :
    s.job.status = .completed ∧ ∃ snapshot, row.artifact = some snapshot ∧
      snapshot.rows = s.rows ∧ snapshot.changes = s.changes := by
  have hinv := inv_of_reachableBy h
  have hmem := List.mem_filter.1 ((List.mem_insertionSort _).1 (List.mem_of_mem_head? hready))
  obtain ⟨hstate, hfinal, hartifact, -⟩ := of_decide_eq_true hmem.2
  obtain ⟨j, -, hj⟩ := List.mem_filterMap.1 hmem.1
  obtain ⟨_, hrow, heq⟩ := Option.map_eq_some_iff.1 hj
  cases heq
  obtain ⟨snapshot, hsnapshot⟩ := Option.isSome_iff_exists.1 hartifact
  have hcurrent := hinv.live (.ready hrow hstate hfinal hsnapshot)
  exact ⟨hcurrent.completed, snapshot, hsnapshot, hcurrent.rows, hcurrent.changes⟩

end Operations

section Runs

open Consensus (wholeNumbers)

instance {rackUniverse : Merge.Generation R F} (s : State G R M F) :
    (a : Action G R M F) → Decidable (SeedsUnread rackUniverse s a)
  | .seed generation => inferInstanceAs (Decidable
      (universeExists rackUniverse s generation = true ∨ ∀ i ∈ s.ids, readFinal s i = false))
  | .setActive _ | .complete | .claim | .endClaim _ _ | .submit _ _ | .merge _ _
  | .needsUniverse _ | .lock _ | .writeExports | .commit | .rollback | .request _ | .step _ _
  | .settle _ _ | .fail _ _ | .stop _ => inferInstanceAs (Decidable True)

def oneRack : Merge.Generation ℕ ℤ where
  racks := [0]
  nodup := List.nodup_singleton 0
  hash _ := 0
  arithmetic := ⟨0, (· + ·), fun mean count ↦ mean * count⟩

def newJob (jobType : JobType) : State Unit ℕ ℕ ℤ where
  job := ⟨jobType, .inactive⟩
  claims := .empty
  nextClaim := 0
  rows := ⟨[], ⟨⟨60, 1, 2⟩, [], .empty, 0, 0, 0⟩, fun _ _ ↦ none⟩
  staging := []
  nextStaged := 0
  ids := []
  exports _ := none
  builds _ := none
  lock := none
  seedings := []
  changes := 0

theorem start_newJob (jobType : JobType) : start (newJob jobType) :=
  ⟨rfl, rfl, rfl, ⟨rfl, rfl, rfl, rfl, rfl⟩, fun _ _ ↦ rfl, rfl, rfl, fun _ ↦ rfl, fun _ ↦ rfl, rfl,
    rfl⟩

def stepsOf (n i : ℕ) (now : ℤ) : List (Action Unit ℕ ℕ ℤ) := List.replicate n (.step i now)

/-- A completed job's settings are changed while an export of it uploads, and it is exported
again. -/
theorem exists_newestReady_current : ∃ s row,
    (machine wholeNumbers oneRack).ReachableBy (SeedsUnread oneRack) s ∧
      newestReady s 100 = some (1, row) ∧ s.job.status = .completed ∧
      ∃ snapshot : Snapshot Unit ℕ ℕ ℤ, row.artifact = some snapshot ∧
        snapshot.rows = s.rows ∧ snapshot.changes = s.changes := by
  have h : (machine wholeNumbers oneRack).ReachableBy (SeedsUnread oneRack)
      (newJob .openingRack) := .start (start_newJob _)
  obtain ⟨s, hs, hp⟩ := h.follow_any
    ([.setActive true, .claim, .submit 0 (.racks [(0, 7)]), .complete, .request 0] ++
      stepsOf 5 0 1 ++ [.lock (.edit ⟨70, 1, 3⟩), .writeExports, .commit] ++ stepsOf 1 0 2 ++
      .request 1 :: stepsOf 8 1 3)
    (fun s ↦ (newestReady s 100).any (·.1 = 1)) (by decide +kernel)
  obtain ⟨⟨i, row⟩, hready, hi⟩ := (Option.any_eq_true ..).1 hp
  cases of_decide_eq_true hi
  exact ⟨s, row, hs, hready, newestReady_current hs hready⟩

/-- A claim finds the first generation's racks missing, and the seeding it starts commits them once
the job has been completed and exported without. -/
theorem not_newestReady_current : ¬ ∀ (s : State Unit ℕ ℕ ℤ) (now : ℤ) (i : ℕ)
    (row : Export Unit ℕ ℕ ℤ), (machine wholeNumbers oneRack).Reachable s →
      s.job.status = .completed → newestReady s now = some (i, row) →
      ∃ snapshot, row.artifact = some snapshot ∧ snapshot.rows = s.rows := by
  intro hkept
  have h : (machine wholeNumbers oneRack).Reachable (newJob .leaveGeneration) :=
    .start (start_newJob _)
  obtain ⟨s, hs, hp⟩ := h.follow_any
    ([.setActive true, .needsUniverse 1, .complete, .request 0] ++ stepsOf 8 0 1 ++ [.seed 1])
    (fun s ↦ (newestReady s 100).any fun ready ↦ s.job.status = .completed ∧
      (s.rows.progress 1 0).isSome ∧
      ready.2.artifact.all fun snapshot ↦ (snapshot.rows.progress 1 0).isNone)
    (by decide +kernel)
  obtain ⟨⟨i, row⟩, hready, htest⟩ := (Option.any_eq_true ..).1 hp
  obtain ⟨hcompleted, hseeded, hread⟩ := of_decide_eq_true htest
  obtain ⟨snapshot, hartifact, hrows⟩ := hkept s 100 i row hs hcompleted hready
  dsimp only at hread
  rw [hartifact, Option.all_some, hrows] at hread
  rw [Option.isNone_iff_eq_none.1 hread] at hseeded
  cases hseeded

end Runs

end Birdtest.Exports.Final
