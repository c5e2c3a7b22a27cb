import Birdtest.Exports.Final
import Birdtest.Exports.Upload
import Mathlib.Algebra.BigOperators.Group.Multiset.Basic

namespace Birdtest.Exports.Objects

open Birdtest.Base.Runs Birdtest.Base.Tables Birdtest.Models.Job
open Birdtest.Exports.Final (ExportState Job)
open Birdtest.Exports.Upload
open Birdtest.Jobs.Finish (JobType)

variable {J E Z : Type}

/-- `exports/{job}/{id}.ndjson.gz`, and with `.positions` after the id. -/
structure Key (J E : Type) where
  job : J
  exportId : E
  positions : Bool
  deriving DecidableEq

structure Artifact (J E : Type) where
  key : Key J E
  uploaded : Uploaded

/-- A `job_exports` row. `left` is how many statements took it out of `running`, which none asks. -/
structure JobExport (J E : Type) where
  job : J
  state : ExportState
  results : Option (Artifact J E)
  positions : Option (Artifact J E)
  isFinal : Bool
  snapshotAt : Option ℤ
  error : Option String
  left : ℕ

structure Snapshot where
  results : Uploaded
  positions : Option Uploaded
  isFinal : Bool
  takenAt : ℤ

/-- Where `build` is. The lists of `removing` are of the keys yet to be deleted. -/
inductive Build
  | settling
  | reading
  | opened (isFinal : Bool) (takenAt : ℤ)
  | results (uploaded : Uploaded) (isFinal : Bool) (takenAt : ℤ)
  | positions (results : Uploaded) (isFinal : Bool) (takenAt : ℤ)
  | snapshot (snapshot : Snapshot)
  | marking (snapshot : Snapshot)
  | failed
  | removing (positions : List Bool) (ok : Bool)
  | returned (ok : Bool)

inductive Run
  | waiting
  | awaiting
  | failing (error : String)
  | ended

/-- An export's task. `update` is `mark_ready`'s statement, sent and neither executed nor refused;
`answer` is how many rows it marked. -/
structure Task (J : Type) where
  job : J
  run : Run
  build : Option Build
  update : Option Snapshot
  answer : Option ℕ

/-- `deletes` are on their way, and `deleted` says which have been done. -/
structure Store (J E : Type) where
  objects : Key J E → Option Bytes
  deletes : Multiset (Key J E)
  deleted : Key J E → Bool

inductive Operation
  | purge | edit
  deriving DecidableEq

/-- The database, with what holds each job's row, the server's tasks and the object store. -/
structure State (J E : Type) where
  jobs : J → Job
  held : J → Option Operation
  exports : Table E (JobExport J E)
  tasks : E → Option (Task J)
  store : Store J E

structure View (J E : Type) where
  row : Option (JobExport J E)
  task : Task J
  store : Store J E

inductive Step
  | turn (readable : Bool)
  | settle (ok : Bool)
  | readSnapshot (settled : Bool) (takenAt : ℤ)
  | upload (lines : List Bytes) (answered : Bool)
  | captured (found : Bool)
  | markReady
  | takeAnswer
  | fail
  | namedReady (readable : Bool)
  | delete
  | drop
  | outcome (error : String)
  | timeOut
  | markFailed (executed : Bool)
  | crash
  | execute
  | refuse

inductive Action (J E : Type)
  | start (e : E) (job : J)
  | step (e : E) (step : Step)
  | failOrphaned
  | lock (job : J) (operation : Operation)
  | commit (job : J) (status : JobStatus) (answered : Bool)
  | rollback (job : J)
  | setStatus (job : J) (status : JobStatus)
  | deliver (key : Key J E)
  | lose (key : Key J E)

def mayCapturePositions : JobType → Bool
  | .games | .gamePairs => true
  | _ => false

def JobExport.artifacts (row : JobExport J E) : List (Artifact J E) :=
  row.results.toList ++ row.positions.toList

def Snapshot.artifacts (snapshot : Snapshot) (job : J) (e : E) : List (Artifact J E) :=
  ⟨⟨job, e, false⟩, snapshot.results⟩ ::
    (snapshot.positions.map fun uploaded ↦ ⟨⟨job, e, true⟩, uploaded⟩).toList

def Build.fallible : Build → Bool
  | .reading | .opened _ _ | .results _ _ _ | .positions _ _ _ | .snapshot _ | .marking _ => true
  | _ => false

def JobExport.failed (row : JobExport J E) (error : String) : JobExport J E :=
  if row.state = .running then
    { row with state := .failed, error := some error, left := row.left + 1 }
  else row

def JobExport.markedReady (row : JobExport J E) (job : J) (e : E) (snapshot : Snapshot)
    (completed : Bool) : JobExport J E :=
  { row with
    state := .ready
    results := some ⟨⟨job, e, false⟩, snapshot.results⟩
    positions := snapshot.positions.map fun uploaded ↦ ⟨⟨job, e, true⟩, uploaded⟩
    isFinal := snapshot.isFinal && completed
    snapshotAt := some snapshot.takenAt
    left := row.left + 1 }

def JobExport.unfinalized (row : JobExport J E) : JobExport J E :=
  { row with isFinal := false }.failed
    "the job's consensus settings changed while this export was building: export it again"

def JobExport.orphaned (row : JobExport J E) : JobExport J E :=
  row.failed "the server restarted while this export was running"

namespace Store

variable [DecidableEq J] [DecidableEq E] (store : Store J E) (key : Key J E)

def put (object : Bytes) : Store J E :=
  { store with objects := Function.update store.objects key (some object) }

def send (keys : Multiset (Key J E)) : Store J E := { store with deletes := keys + store.deletes }

def lose : Store J E := { store with deletes := store.deletes.erase key }

def deliver : Store J E :=
  ⟨Function.update store.objects key none, store.deletes.erase key,
    Function.update store.deleted key true⟩

@[simp]
theorem objects_put (object : Bytes) :
    (store.put key object).objects = Function.update store.objects key (some object) := rfl

@[simp]
theorem objects_deliver : (store.deliver key).objects = Function.update store.objects key none :=
  rfl

@[simp]
theorem deleted_deliver : (store.deliver key).deleted = Function.update store.deleted key true :=
  rfl

end Store

namespace View

variable (v : View J E)

def setBuild (build : Option Build) : View J E := { v with task := { v.task with build } }

def setRun (run : Run) : View J E := { v with task := { v.task with run } }

def running : Bool := v.row.any (·.state = .running)

section Steps

variable [DecidableEq J] [DecidableEq E] (gz : Encoder Z) (sha256 : Bytes → String)
variable (job : Job) (held : Bool) (e : E)

def upload (positions : Bool) (lines : List Bytes) : View J E :=
  { v with store := v.store.put ⟨v.task.job, e, positions⟩ (uploadRows gz sha256 lines).1.flatten }

def execute : Option (View J E) :=
  v.task.update.bind fun snapshot ↦
    if v.running then
      if held then none
      else some { v with
        row := v.row.map (·.markedReady v.task.job e snapshot (job.status = .completed))
        task := { v.task with update := none, answer := some 1 } }
    else some { v with task := { v.task with update := none, answer := some 0 } }

def advance : Step → Option (View J E)
  -- `run`, when it is its turn
  | .turn readable =>
    match v.task.run with
    | .waiting =>
      if readable ∧ ¬ v.running then some (v.setRun .ended)
      else some ((v.setRun .awaiting).setBuild (some .settling))
    | _ => none
  | .settle ok =>
    match v.task.build with
    | some .settling => some (v.setBuild (some (if ok then .reading else .returned false)))
    | _ => none
  | .readSnapshot settled takenAt =>
    match v.task.build with
    | some .reading =>
      some (v.setBuild (some (.opened (job.status = .completed ∧ settled) takenAt)))
    | _ => none
  | .upload lines answered =>
    let uploaded := (uploadRows gz sha256 lines).2
    match v.task.build with
    | some (.opened isFinal takenAt) =>
      some ((v.upload gz sha256 e false lines).setBuild
        (some (if answered then .results uploaded isFinal takenAt else .failed)))
    | some (.positions results isFinal takenAt) =>
      some ((v.upload gz sha256 e true lines).setBuild
        (some (if answered then .snapshot ⟨results, some uploaded, isFinal, takenAt⟩ else .failed)))
    | _ => none
  | .captured found =>
    match v.task.build with
    | some (.results uploaded isFinal takenAt) =>
      some (v.setBuild (some (if mayCapturePositions job.jobType ∧ found then
        .positions uploaded isFinal takenAt else .snapshot ⟨uploaded, none, isFinal, takenAt⟩)))
    | _ => none
  | .markReady =>
    match v.task.build with
    | some (.snapshot snapshot) =>
      some { v with
        task := { v.task with build := some (.marking snapshot), update := some snapshot } }
    | _ => none
  | .takeAnswer =>
    match v.task.build, v.task.answer with
    | some (.marking snapshot), some marked =>
      some { v with task := { v.task with
        build := some (if marked = 0 then
          .removing (false :: (snapshot.positions.map fun _ ↦ true).toList) true
            else .returned true)
        answer := none } }
    | _, _ => none
  -- an error of the snapshot, an upload or the update, whatever the server made of it
  | .fail =>
    match v.task.build with
    | some build => if build.fallible then some (v.setBuild (some .failed)) else none
    | none => none
  | .namedReady readable =>
    match v.task.build with
    | some .failed =>
      some (v.setBuild (some (if ¬ readable ∨ v.row.any (·.state = .ready) then .returned false
        else .removing [false, true] false)))
    | _ => none
  -- waits for the store or gives up on it
  | .delete =>
    match v.task.build with
    | some (.removing (positions :: rest) ok) =>
      some { v.setBuild (some (.removing rest ok)) with
        store := v.store.send {⟨v.task.job, e, positions⟩} }
    | some (.removing [] ok) => some (v.setBuild (some (.returned ok)))
    | _ => none
  -- aborted past its time limit, or panicked
  | .drop => some (v.setBuild none)
  | .outcome error =>
    match v.task.run, v.task.build with
    | .awaiting, some (.returned true) => some (v.setRun .ended)
    | .awaiting, some (.returned false) | .awaiting, none => some (v.setRun (.failing error))
    | _, _ => none
  | .timeOut =>
    match v.task.run with
    | .awaiting => some (v.setRun (.failing "the export did not finish within its time limit"))
    | _ => none
  | .markFailed executed =>
    match v.task.run with
    | .failing error =>
      some { v.setRun .ended with row := if executed then v.row.map (·.failed error) else v.row }
    | _ => none
  -- the process ends
  | .crash => some ((v.setRun .ended).setBuild none)
  | .execute => v.execute job held e
  | .refuse => some { v with task := { v.task with update := none } }

end Steps

end View

section Machine

variable [DecidableEq J] [DecidableEq E] (gz : Encoder Z) (sha256 : Bytes → String)

namespace State

variable (s : State J E)

def setJob (job : J) (row : Job) : State J E := { s with jobs := Function.update s.jobs job row }

def setHeld (job : J) (operation : Option Operation) : State J E :=
  { s with held := Function.update s.held job operation }

def view (e : E) (task : Task J) : View J E := ⟨s.exports.get e, task, s.store⟩

def setView (e : E) (v : View J E) : State J E :=
  { s with
    exports := v.row.elim s.exports (s.exports.put e)
    tasks := Function.update s.tasks e (some v.task)
    store := v.store }

def start (e : E) (job : J) : Option (State J E) :=
  if (s.tasks e).isNone ∧ s.exports.get e = none ∧ (s.held job).isNone ∧
      ¬ s.exports.rows.any fun row ↦ row.2.job = job ∧ row.2.state = .running then
    some { s with
      exports := s.exports.put e ⟨job, .running, none, none, false, none, none, 0⟩
      tasks := Function.update s.tasks e (some ⟨job, .waiting, none, none, none⟩) }
  else none

def named (job : J) : List (Key J E) :=
  (s.exports.rows.filter (·.2.job = job)).flatMap fun row ↦ row.2.artifacts.map (·.key)

def purge (job : J) (answered : Bool) : State J E :=
  { s with
    exports := s.exports.retain (·.job ≠ job)
    store := if answered then s.store.send (s.named job) else s.store }

def unfinalize (job : J) : State J E :=
  { s with exports := s.exports.map fun row ↦ if row.job = job then row.unfinalized else row }

def failOrphaned : State J E := { s with exports := s.exports.map JobExport.orphaned }

def write (job : J) (answered : Bool) : Operation → State J E
  | .purge => s.purge job answered
  | .edit => s.unfinalize job

end State

def next (s : State J E) : Action J E → Option (State J E)
  | .start e job => s.start e job
  | .step e step =>
    (s.tasks e).bind fun task ↦
      ((s.view e task).advance gz sha256 (s.jobs task.job) (s.held task.job).isSome e step).map
        (s.setView e)
  | .failOrphaned => some s.failOrphaned
  | .lock job operation =>
    if (s.held job).isNone then some (s.setHeld job (some operation)) else none
  | .commit job status answered =>
    (s.held job).map fun operation ↦
      ((s.write job answered operation).setJob job { s.jobs job with status }).setHeld job none
  | .rollback job => if (s.held job).isSome then some (s.setHeld job none) else none
  | .setStatus job status =>
    if (s.held job).isNone then some (s.setJob job { s.jobs job with status }) else none
  | .deliver key =>
    if key ∈ s.store.deletes then some { s with store := s.store.deliver key }
    else none
  | .lose key => if key ∈ s.store.deletes then some { s with store := s.store.lose key } else none

def machine : Machine (State J E) (Action J E) where
  start s := s.exports = .empty ∧ (∀ job, s.held job = none) ∧ (∀ e, s.tasks e = none) ∧
    s.store.deletes = 0 ∧ ∀ key, s.store.deleted key = false
  next := next gz sha256

end Machine

section Timely

def Task.removes (task : Task J) (positions : Bool) : Bool :=
  match task.build with
  | some (.removing rest _) => positions ∈ rest
  | _ => false

variable [DecidableEq J] [DecidableEq E]

namespace View

variable (v : View J E) (e : E)

def condemned (key : Key J E) : Bool :=
  key ∈ v.store.deletes ∨ v.store.deleted key ∨ v.task.removes key.positions

/-- `mark_ready`'s update does not find the row `running` once the build has gone on to delete what
it names. -/
def timely : Bool := v.task.update.all fun snapshot ↦
  v.running → (snapshot.artifacts v.task.job e).all fun artifact ↦ ¬ v.condemned artifact.key

end View

def Timely (s : State J E) : Action J E → Prop
  | .step e .execute => ∀ task ∈ s.tasks e, (s.view e task).timely e = true
  | _ => True

instance (s : State J E) (a : Action J E) : Decidable (Timely s a) := by
  unfold Timely
  split <;> infer_instance

end Timely

section Invariant

def Artifact.Stored (gz : Encoder Z) (sha256 : Bytes → String) (store : Store J E)
    (artifact : Artifact J E) : Prop :=
  store.deleted artifact.key = true ∨ ∃ object, store.objects artifact.key = some object ∧
    artifact.uploaded.Describes gz sha256 object

def Build.artifacts (build : Build) (job : J) (e : E) : List (Artifact J E) :=
  match build with
  | .results uploaded _ _ | .positions uploaded _ _ => [⟨⟨job, e, false⟩, uploaded⟩]
  | .snapshot read => read.artifacts job e
  | _ => []

def Build.early : Build → Bool
  | .settling | .reading | .opened _ _ | .results _ _ _ | .positions _ _ _ | .snapshot _ => true
  | _ => false

def Task.early (task : Task J) : Bool := task.run matches .waiting ∨ task.build.any Build.early

namespace View

variable (gz : Encoder Z) (sha256 : Bytes → String) (e : E)

/-- Its row is not `ready` before its one update is executed, nor after one that marked no row. -/
structure Sound (v : View J E) : Prop where
  left : ∀ row ∈ v.row, row.left = if row.state = .running then 0 else 1
  own : ∀ row ∈ v.row, ∀ artifact ∈ row.artifacts, artifact.key.exportId = e
  built : ∀ build ∈ v.task.build, ∀ artifact ∈ build.artifacts v.task.job e,
    artifact.Stored gz sha256 v.store
  sent : ∀ snapshot ∈ v.task.update, ∀ artifact ∈ snapshot.artifacts v.task.job e,
    artifact.Stored gz sha256 v.store
  waiting : v.task.run = .waiting → v.task.build = none
  early : v.task.early = true → v.task.update = none ∧ v.task.answer = none
  unmarked : v.task.early = true ∨ v.task.update.isSome ∨ v.task.answer = some 0 →
    ∀ row ∈ v.row, row.state ≠ .ready
  ready : ∀ row ∈ v.row, row.state = .ready → row.results.isSome ∧
    ∀ artifact ∈ row.artifacts, artifact.Stored gz sha256 v.store

/-- What a `ready` row names is not condemned. -/
def Kept [DecidableEq J] [DecidableEq E] (v : View J E) : Prop :=
  ∀ row ∈ v.row, row.state = .ready → ∀ artifact ∈ row.artifacts, v.condemned artifact.key = false

end View

section Stored

variable [DecidableEq J] [DecidableEq E] {gz : Encoder Z} {sha256 : Bytes → String}
  {store : Store J E} {artifact : Artifact J E}
variable {key : Key J E}

theorem Artifact.stored_put (lines : List Bytes) :
    (⟨key, (uploadRows gz sha256 lines).2⟩ : Artifact J E).Stored gz sha256
      (store.put key (uploadRows gz sha256 lines).1.flatten) := by
  refine .inr ⟨_, ?_, uploadRows_describes gz sha256 lines⟩
  rw [Store.objects_put, Function.update_self]

theorem Artifact.Stored.put (h : artifact.Stored gz sha256 store) (hkey : artifact.key ≠ key)
    (object : Bytes) : artifact.Stored gz sha256 (store.put key object) := by
  rcases h with hdeleted | ⟨old, hold, hdescribes⟩
  · exact .inl hdeleted
  · refine .inr ⟨old, ?_, hdescribes⟩
    rwa [Store.objects_put, Function.update_of_ne hkey]

theorem Artifact.Stored.deliver (h : artifact.Stored gz sha256 store) (key : Key J E) :
    artifact.Stored gz sha256 (store.deliver key) := by
  unfold Artifact.Stored
  rw [Store.deleted_deliver, Store.objects_deliver]
  by_cases hkey : artifact.key = key
  · rw [hkey, Function.update_self]
    exact .inl rfl
  · rwa [Function.update_of_ne hkey, Function.update_of_ne hkey]

end Stored

section Row

structure JobExport.Lapses (row row' : JobExport J E) : Prop where
  results : row'.results = row.results
  positions : row'.positions = row.positions
  ready : row'.state = .ready → row.state = .ready
  left : (row.left = if row.state = .running then 0 else 1) →
    row'.left = if row'.state = .running then 0 else 1

variable {row row' : JobExport J E}

theorem JobExport.Lapses.artifacts (h : row.Lapses row') : row'.artifacts = row.artifacts := by
  rw [JobExport.artifacts, JobExport.artifacts, h.results, h.positions]

theorem JobExport.lapses_self : row.Lapses row := ⟨rfl, rfl, id, id⟩

theorem JobExport.lapses_failed (error : String) : row.Lapses (row.failed error) := by
  unfold JobExport.failed
  split
  · next hrunning =>
    refine ⟨rfl, rfl, nofun, fun hleft ↦ ?_⟩
    rw [if_pos hrunning] at hleft
    rw [hleft, if_neg nofun]
  · exact lapses_self

theorem JobExport.lapses_unfinalized : row.Lapses row.unfinalized := by
  have hfailed : ({ row with isFinal := false } : JobExport J E).Lapses row.unfinalized :=
    JobExport.lapses_failed _
  exact ⟨hfailed.results, hfailed.positions, hfailed.ready, hfailed.left⟩

end Row

namespace View

variable {gz : Encoder Z} {sha256 : Bytes → String} {e : E} {v v' : View J E} {build : Build}

theorem Sound.ne_waiting (h : v.Sound gz sha256 e) (hbuild : v.task.build = some build) :
    v.task.run ≠ .waiting := by
  intro hwaiting
  have hnone := h.waiting hwaiting
  rw [hbuild] at hnone
  cases hnone

theorem Sound.early_eq (h : v.Sound gz sha256 e) (hbuild : v.task.build = some build) :
    v.task.early = build.early := by
  have hrun := h.ne_waiting hbuild
  unfold Task.early
  rw [hbuild]
  cases hcases : v.task.run <;> simp_all

theorem Sound.of_early (h : v.Sound gz sha256 e) (hbuild : v.task.build = some build)
    (hearly : build.early = true) :
    v.task.update = none ∧ v.task.answer = none ∧ ∀ row ∈ v.row, row.state ≠ .ready := by
  rw [← h.early_eq hbuild] at hearly
  exact ⟨(h.early hearly).1, (h.early hearly).2, h.unmarked (.inl hearly)⟩

theorem Sound.setBuild (h : v.Sound gz sha256 e) (build' : Build)
    (hbuild : v.task.build = some build) (hearly : build'.early = true → build.early = true)
    (hbuilt : ∀ artifact ∈ build'.artifacts v.task.job e, artifact.Stored gz sha256 v.store) :
    (v.setBuild (some build')).Sound gz sha256 e := by
  have hrun := h.ne_waiting hbuild
  have hearly : (v.setBuild (some build')).task.early = true → v.task.early = true := by
    intro hnew
    rw [h.early_eq hbuild]
    refine hearly ?_
    simp only [Task.early, Bool.decide_or, Bool.or_eq_true, decide_eq_true_iff] at hnew
    rcases hnew with hwaiting | hnew
    · cases hcases : v.task.run <;> simp_all [View.setBuild]
    · exact hnew
  refine ⟨h.left, h.own, ?_, h.sent, fun hwaiting ↦ absurd hwaiting hrun,
    fun hnew ↦ h.early (hearly hnew), fun hnew ↦ h.unmarked (hnew.imp_left hearly), h.ready⟩
  rintro _ ⟨⟩
  exact hbuilt

theorem Sound.setRun {run : Run} (h : v.Sound gz sha256 e) (hrun : run ≠ .waiting) :
    (v.setRun run).Sound gz sha256 e := by
  have hearly : (v.setRun run).task.early = true → v.task.early = true := by
    intro hnew
    simp only [Task.early, Bool.decide_or, Bool.or_eq_true, decide_eq_true_iff] at hnew ⊢
    rcases hnew with hwaiting | hnew
    · cases run <;> simp_all [View.setRun]
    · exact .inr hnew
  exact ⟨h.left, h.own, h.built, h.sent, fun hwaiting ↦ absurd hwaiting hrun,
    fun hnew ↦ h.early (hearly hnew), fun hnew ↦ h.unmarked (hnew.imp_left hearly), h.ready⟩

theorem Sound.send [DecidableEq J] [DecidableEq E] (h : v.Sound gz sha256 e)
    (keys : Multiset (Key J E)) :
    ({ v with store := v.store.send keys } : View J E).Sound gz sha256 e :=
  ⟨h.left, h.own, h.built, h.sent, h.waiting, h.early, h.unmarked, h.ready⟩

theorem Sound.upload [DecidableEq J] [DecidableEq E] (h : v.Sound gz sha256 e)
    (hbuild : v.task.build = some build) (hearly : build.early = true) (positions : Bool)
    (lines : List Bytes)
    (hkey : ∀ artifact ∈ build.artifacts v.task.job e, artifact.key ≠ ⟨v.task.job, e, positions⟩) :
    (v.upload gz sha256 e positions lines).Sound gz sha256 e := by
  obtain ⟨hupdate, hanswer, hready⟩ := h.of_early hbuild hearly
  refine ⟨h.left, h.own, ?_, ?_, h.waiting, h.early, h.unmarked, ?_⟩
  · intro b hb artifact hartifact
    have hb' : b = build := Option.some.inj (hb.symm.trans hbuild)
    exact (h.built b hb artifact hartifact).put (hkey artifact (hb' ▸ hartifact)) _
  · intro snapshot hsnapshot
    rw [Option.mem_def, show (v.upload gz sha256 e positions lines).task.update = none from hupdate]
      at hsnapshot
    cases hsnapshot
  · exact fun row hrow hstate ↦ absurd hstate (hready row hrow)

theorem lapses_markFailed (executed : Bool) (error : String) :
    ∀ row' ∈ if executed then v.row.map (·.failed error) else v.row, ∃ row ∈ v.row,
    row.Lapses row' := by
  cases executed with
  | false => exact fun row hrow ↦ ⟨row, hrow, JobExport.lapses_self⟩
  | true =>
    intro row' hrow'
    obtain ⟨row, hrow, rfl⟩ := Option.map_eq_some_iff.1 hrow'
    exact ⟨row, hrow, JobExport.lapses_failed error⟩

theorem Sound.lapse {lapsed : Option (JobExport J E)} (h : v.Sound gz sha256 e)
    (hlapse : ∀ row' ∈ lapsed, ∃ row ∈ v.row, row.Lapses row') :
    ({ v with row := lapsed } : View J E).Sound gz sha256 e := by
  refine ⟨?_, ?_, h.built, h.sent, h.waiting, h.early, ?_, ?_⟩
  · intro row' hrow'
    obtain ⟨row, hrow, hlapses⟩ := hlapse row' hrow'
    exact hlapses.left (h.left row hrow)
  · intro row' hrow' artifact hartifact
    obtain ⟨row, hrow, hlapses⟩ := hlapse row' hrow'
    exact h.own row hrow artifact (hlapses.artifacts ▸ hartifact)
  · intro hunmarked row' hrow' hready
    obtain ⟨row, hrow, hlapses⟩ := hlapse row' hrow'
    exact h.unmarked hunmarked row hrow (hlapses.ready hready)
  · intro row' hrow' hready
    obtain ⟨row, hrow, hlapses⟩ := hlapse row' hrow'
    rw [hlapses.results, hlapses.artifacts]
    exact h.ready row hrow (hlapses.ready hready)

theorem Sound.not_early_of_update {snapshot : Snapshot} (h : v.Sound gz sha256 e)
    (hsnapshot : v.task.update = some snapshot) : v.task.early ≠ true := by
  intro hearly
  rw [(h.early hearly).1] at hsnapshot
  cases hsnapshot

theorem exportId_artifacts {snapshot : Snapshot} {job : J} {artifact : Artifact J E}
    (h : artifact ∈ snapshot.artifacts job e) : artifact.key.exportId = e := by
  simp only [Snapshot.artifacts, List.mem_cons, Option.mem_toList, Option.map_eq_some_iff] at h
  rcases h with rfl | ⟨uploaded, -, rfl⟩
  · rfl
  · rfl

theorem Sound.mark {snapshot : Snapshot} (h : v.Sound gz sha256 e)
    (hsnapshot : v.task.update = some snapshot) (hrunning : v.running = true) (completed : Bool) :
    ({ v with
        row := v.row.map (·.markedReady v.task.job e snapshot completed)
        task := { v.task with update := none, answer := some 1 } } :
          View J E).Sound gz sha256 e := by
  have hearly := h.not_early_of_update hsnapshot
  refine ⟨?_, ?_, h.built, nofun, h.waiting, fun hnew ↦ absurd hnew hearly, ?_, ?_⟩
  · intro row' hrow'
    obtain ⟨row, hrow, rfl⟩ := Option.map_eq_some_iff.1 hrow'
    have hleft := h.left row hrow
    rw [View.running, hrow, Option.any_some, decide_eq_true_iff] at hrunning
    rw [if_pos hrunning] at hleft
    exact congrArg (· + 1) hleft
  · intro row' hrow' artifact hartifact
    obtain ⟨row, hrow, rfl⟩ := Option.map_eq_some_iff.1 hrow'
    exact exportId_artifacts hartifact
  · rintro (hnew | hnew | hnew)
    · exact absurd hnew hearly
    · cases hnew
    · cases hnew
  · intro row' hrow' _
    obtain ⟨row, hrow, rfl⟩ := Option.map_eq_some_iff.1 hrow'
    exact ⟨rfl, h.sent snapshot hsnapshot⟩

theorem Sound.execute {job : Job} {held : Bool} (h : v.Sound gz sha256 e)
    (hv' : v.execute job held e = some v') : v'.Sound gz sha256 e := by
  obtain ⟨snapshot, hsnapshot, hv'⟩ := Option.bind_eq_some_iff.1 hv'
  split at hv'
  · next hrunning =>
    split at hv'
    · cases hv'
    · cases hv'
      exact h.mark hsnapshot hrunning _
  · cases hv'
    have hearly := h.not_early_of_update hsnapshot
    have hready := h.unmarked (.inr (.inl (by rw [hsnapshot]; rfl)))
    exact ⟨h.left, h.own, h.built, nofun, h.waiting, fun hnew ↦ absurd hnew hearly,
      fun _ ↦ hready, h.ready⟩

theorem Sound.refuse (h : v.Sound gz sha256 e) :
    ({ v with task := { v.task with update := none } } : View J E).Sound gz sha256 e := by
  refine ⟨h.left, h.own, h.built, nofun, h.waiting, fun hnew ↦ ⟨rfl, (h.early hnew).2⟩, ?_, h.ready⟩
  rintro (hnew | hnew | hnew)
  · exact h.unmarked (.inl hnew)
  · cases hnew
  · exact h.unmarked (.inr (.inr hnew))

theorem Sound.drop (h : v.Sound gz sha256 e) : (v.setBuild none).Sound gz sha256 e := by
  have hearly : (v.setBuild none).task.early = true → v.task.early = true := by
    intro hnew
    simp only [Task.early, Bool.decide_or, Bool.or_eq_true, decide_eq_true_iff] at hnew ⊢
    exact hnew.imp_right nofun
  exact ⟨h.left, h.own, nofun, h.sent, fun _ ↦ rfl, fun hnew ↦ h.early (hearly hnew),
    fun hnew ↦ h.unmarked (hnew.imp_left hearly), h.ready⟩

section Advanced

variable [DecidableEq J] [DecidableEq E]

inductive Advanced (gz : Encoder Z) (sha256 : Bytes → String) (job : Job) (held : Bool) (e : E)
    (v : View J E) : Step → View J E → Prop
  | unread {readable : Bool} : Advanced gz sha256 job held e v (.turn readable) (v.setRun .ended)
  | turn {readable : Bool} (hrun : v.task.run = .waiting) :
      Advanced gz sha256 job held e v (.turn readable)
        ((v.setRun .awaiting).setBuild (some .settling))
  | settle {ok : Bool} (hbuild : v.task.build = some .settling) :
      Advanced gz sha256 job held e v (.settle ok)
        (v.setBuild (some (if ok then .reading else .returned false)))
  | readSnapshot {settled : Bool} {takenAt : ℤ} (hbuild : v.task.build = some .reading) :
      Advanced gz sha256 job held e v (.readSnapshot settled takenAt)
        (v.setBuild (some (.opened (job.status = .completed ∧ settled) takenAt)))
  | uploadResults {lines : List Bytes} {answered isFinal : Bool} {takenAt : ℤ}
      (hbuild : v.task.build = some (.opened isFinal takenAt)) :
      Advanced gz sha256 job held e v (.upload lines answered)
        ((v.upload gz sha256 e false lines).setBuild (some (if answered then
          .results (uploadRows gz sha256 lines).2 isFinal takenAt else .failed)))
  | uploadPositions {lines : List Bytes} {answered isFinal : Bool} {takenAt : ℤ}
      {results : Uploaded}
      (hbuild : v.task.build = some (.positions results isFinal takenAt)) :
      Advanced gz sha256 job held e v (.upload lines answered)
        ((v.upload gz sha256 e true lines).setBuild (some (if answered then
          .snapshot ⟨results, some (uploadRows gz sha256 lines).2, isFinal, takenAt⟩ else .failed)))
  | captured {found isFinal : Bool} {takenAt : ℤ} {uploaded : Uploaded}
      (hbuild : v.task.build = some (.results uploaded isFinal takenAt)) :
      Advanced gz sha256 job held e v (.captured found)
        (v.setBuild (some (if mayCapturePositions job.jobType ∧ found then
          .positions uploaded isFinal takenAt else .snapshot ⟨uploaded, none, isFinal, takenAt⟩)))
  | markReady {snapshot : Snapshot} (hbuild : v.task.build = some (.snapshot snapshot)) :
      Advanced gz sha256 job held e v .markReady
        { v with
          task := { v.task with build := some (.marking snapshot), update := some snapshot } }
  | takeAnswer {snapshot : Snapshot} {marked : ℕ} (hbuild : v.task.build = some (.marking snapshot))
      (hanswer : v.task.answer = some marked) :
      Advanced gz sha256 job held e v .takeAnswer { v with task := { v.task with
        build := some (if marked = 0 then
          .removing (false :: (snapshot.positions.map fun _ ↦ true).toList) true
            else .returned true)
        answer := none } }
  | fail {build : Build} (hbuild : v.task.build = some build) :
      Advanced gz sha256 job held e v .fail (v.setBuild (some .failed))
  | namedReady {readable : Bool} (hbuild : v.task.build = some .failed) :
      Advanced gz sha256 job held e v (.namedReady readable)
        (v.setBuild (some (if ¬ readable ∨ v.row.any (·.state = .ready) then .returned false
          else .removing [false, true] false)))
  | delete {positions ok : Bool} {rest : List Bool}
      (hbuild : v.task.build = some (.removing (positions :: rest) ok)) :
      Advanced gz sha256 job held e v .delete { v.setBuild (some (.removing rest ok)) with
        store := v.store.send {⟨v.task.job, e, positions⟩} }
  | removed {ok : Bool} (hbuild : v.task.build = some (.removing [] ok)) :
      Advanced gz sha256 job held e v .delete (v.setBuild (some (.returned ok)))
  | drop : Advanced gz sha256 job held e v .drop (v.setBuild none)
  | succeeded {error : String} : Advanced gz sha256 job held e v (.outcome error) (v.setRun .ended)
  | failing {step : Step} {error : String} :
      Advanced gz sha256 job held e v step (v.setRun (.failing error))
  | markFailed {executed : Bool} {error : String} :
      Advanced gz sha256 job held e v (.markFailed executed)
        { v.setRun .ended with row := if executed then v.row.map (·.failed error) else v.row }
  | crash : Advanced gz sha256 job held e v .crash ((v.setRun .ended).setBuild none)
  | execute {v' : View J E} (hv' : v.execute job held e = some v') :
      Advanced gz sha256 job held e v .execute v'
  | refuse : Advanced gz sha256 job held e v .refuse
      { v with task := { v.task with update := none } }

theorem advanced_of_advance {job : Job} {held : Bool} {step : Step}
    (hv' : v.advance gz sha256 job held e step = some v') :
    Advanced gz sha256 job held e v step v' := by
  cases step with
  | turn readable =>
    simp only [View.advance] at hv'
    split at hv'
    · next hrun =>
      split at hv'
      · cases hv'
        exact .unread
      · cases hv'
        exact .turn hrun
    · cases hv'
  | settle | readSnapshot | captured | markReady | namedReady =>
    simp only [View.advance] at hv'
    split at hv'
    · next hbuild =>
      cases hv'
      constructor
      exact hbuild
    · cases hv'
  | upload lines answered =>
    simp only [View.advance] at hv'
    split at hv'
    · next hbuild =>
      cases hv'
      exact .uploadResults hbuild
    · next hbuild =>
      cases hv'
      exact .uploadPositions hbuild
    · cases hv'
  | takeAnswer =>
    simp only [View.advance] at hv'
    split at hv'
    · next hbuild hanswer =>
      cases hv'
      exact .takeAnswer hbuild hanswer
    · cases hv'
  | fail =>
    simp only [View.advance] at hv'
    split at hv'
    · next hbuild =>
      obtain ⟨-, hv'⟩ := Option.ite_none_right_eq_some.1 hv'
      cases hv'
      exact .fail hbuild
    · cases hv'
  | delete =>
    simp only [View.advance] at hv'
    split at hv'
    · next hbuild =>
      cases hv'
      exact .delete hbuild
    · next hbuild =>
      cases hv'
      exact .removed hbuild
    · cases hv'
  | outcome error =>
    simp only [View.advance] at hv'
    split at hv'
    · cases hv'
      exact .succeeded
    · cases hv'
      exact .failing
    · cases hv'
      exact .failing
    · cases hv'
  | timeOut =>
    simp only [View.advance] at hv'
    split at hv'
    · cases hv'
      exact .failing
    · cases hv'
  | markFailed executed =>
    simp only [View.advance] at hv'
    split at hv'
    · cases hv'
      exact .markFailed
    · cases hv'
  | execute => exact .execute hv'
  | drop | crash | refuse =>
    cases hv'
    constructor

end Advanced

theorem Sound.advance [DecidableEq J] [DecidableEq E] {job : Job} {held : Bool} {step : Step}
    (h : v.Sound gz sha256 e) (hv' : v.advance gz sha256 job held e step = some v') :
    v'.Sound gz sha256 e := by
  have hended : Run.ended ≠ .waiting := nofun
  cases advanced_of_advance hv' with
  | unread | succeeded => exact h.setRun hended
  | failing => exact h.setRun nofun
  | turn hrun =>
    have hearly : v.task.early = true := by
      rw [Task.early, hrun]
      rfl
    exact ⟨h.left, h.own, by rintro _ ⟨⟩ artifact ⟨⟩, h.sent, nofun, fun _ ↦ h.early hearly,
      fun hnew ↦ h.unmarked (hnew.imp_left fun _ ↦ hearly), h.ready⟩
  | @settle ok hbuild => exact h.setBuild _ hbuild (fun _ ↦ rfl) (by cases ok <;> nofun)
  | readSnapshot hbuild => exact h.setBuild _ hbuild (fun _ ↦ rfl) nofun
  | @uploadResults lines answered isFinal takenAt hbuild =>
    refine (h.upload hbuild rfl false lines nofun).setBuild _ hbuild (fun _ ↦ rfl) ?_
    cases answered with
    | false => nofun
    | true =>
      intro artifact hartifact
      obtain rfl := List.mem_singleton.1 hartifact
      exact Artifact.stored_put lines
  | @uploadPositions lines answered isFinal takenAt results hbuild =>
    have hkey : ∀ artifact ∈ (Build.positions results isFinal takenAt).artifacts v.task.job e,
        artifact.key ≠ ⟨v.task.job, e, true⟩ := by
      intro artifact hartifact
      obtain rfl := List.mem_singleton.1 hartifact
      nofun
    have hput := h.upload hbuild rfl true lines hkey
    refine hput.setBuild _ hbuild (fun _ ↦ rfl) ?_
    cases answered with
    | false => nofun
    | true =>
      intro artifact hartifact
      rcases List.mem_cons.1 hartifact with rfl | hartifact
      · exact hput.built _ hbuild _ (List.mem_singleton_self _)
      · obtain rfl := List.mem_singleton.1 hartifact
        exact Artifact.stored_put lines
  | captured hbuild =>
    refine h.setBuild _ hbuild (fun _ ↦ rfl) ?_
    have hbuilt := h.built _ hbuild
    split
    · exact hbuilt
    · exact hbuilt
  | @markReady snapshot hbuild =>
    obtain ⟨-, hanswer, hready⟩ := h.of_early hbuild rfl
    have hnext := h.setBuild (.marking snapshot) hbuild nofun nofun
    have hearly := hnext.early_eq rfl
    refine ⟨h.left, h.own, hnext.built, ?_, hnext.waiting, fun hnew ↦ ?_, fun _ ↦ hready, h.ready⟩
    · rintro _ ⟨⟩
      exact h.built _ hbuild
    · cases hearly.symm.trans hnew
  | @takeAnswer snapshot marked hbuild hanswer =>
    have hnext := h.setBuild (if marked = 0 then
      .removing (false :: (snapshot.positions.map fun _ ↦ true).toList) true else .returned true)
      hbuild (by split <;> nofun) (by split <;> nofun)
    refine ⟨h.left, h.own, hnext.built, h.sent, hnext.waiting, fun hnew ↦
      ⟨(hnext.early hnew).1, rfl⟩, ?_, h.ready⟩
    rintro (hnew | hnew | hnew)
    · exact hnext.unmarked (.inl hnew)
    · exact h.unmarked (.inr (.inl hnew))
    · cases hnew
  | fail hbuild => exact h.setBuild .failed hbuild nofun nofun
  | namedReady hbuild =>
    refine h.setBuild _ hbuild ?_ ?_
    · split <;> nofun
    · split <;> nofun
  | delete hbuild => exact (h.setBuild (.removing _ _) hbuild nofun nofun).send _
  | removed hbuild => exact h.setBuild _ hbuild nofun nofun
  | drop => exact h.drop
  | @markFailed executed error => exact (h.setRun hended).lapse (lapses_markFailed executed error)
  | crash => exact (h.setRun hended).drop
  | execute hv' => exact h.execute hv'
  | refuse => exact h.refuse

section Kept

variable [DecidableEq J] [DecidableEq E]

theorem Kept.of_not_ready (h : ∀ row ∈ v.row, row.state ≠ .ready) : v.Kept :=
  fun row hrow hready ↦ absurd hready (h row hrow)

theorem Kept.lapse {lapsed : Option (JobExport J E)} (h : v.Kept)
    (hlapse : ∀ row' ∈ lapsed, ∃ row ∈ v.row, row.Lapses row') :
    ({ v with row := lapsed } : View J E).Kept := by
  intro row' hrow' hready artifact hartifact
  obtain ⟨row, hrow, hlapses⟩ := hlapse row' hrow'
  exact h row hrow (hlapses.ready hready) artifact (hlapses.artifacts ▸ hartifact)

theorem Kept.of_condemned (h : v.Kept) (hrow : v'.row = v.row)
    (hcondemned : ∀ key, v'.condemned key = true → v.condemned key = true) : v'.Kept := by
  intro row hrow' hready artifact hartifact
  have hkept := h row (hrow ▸ hrow') hready artifact hartifact
  exact Bool.eq_false_iff.2 fun hcon ↦ Bool.false_ne_true (hkept.symm.trans (hcondemned _ hcon))

theorem Kept.quiet (h : v.Kept) (hrow : v'.row = v.row)
    (hdeletes : v'.store.deletes = v.store.deletes) (hdeleted : v'.store.deleted = v.store.deleted)
    (hremoves : ∀ positions, v'.task.removes positions = true → v.task.removes positions = true) :
    v'.Kept := by
  refine h.of_condemned hrow fun key hkey ↦ ?_
  simp only [condemned, decide_eq_true_iff, hdeletes, hdeleted] at hkey ⊢
  exact hkey.imp_right (.imp_right (hremoves _))

theorem Kept.delete {positions ok : Bool} {rest : List Bool} (h : v.Kept)
    (hbuild : v.task.build = some (.removing (positions :: rest) ok)) :
    ({ v.setBuild (some (.removing rest ok)) with
      store := v.store.send {⟨v.task.job, e, positions⟩} } : View J E).Kept := by
  refine h.of_condemned rfl fun key hkey ↦ ?_
  have hremoves : ∀ b, v.task.removes b = decide (b ∈ positions :: rest) := by
    intro b
    rw [Task.removes, hbuild]
  simp only [condemned, decide_eq_true_iff, hremoves] at hkey ⊢
  rcases hkey with hkey | hkey | hkey
  · rcases Multiset.mem_add.1 hkey with hkey | hkey
    · rw [Multiset.mem_singleton] at hkey
      exact .inr (.inr (hkey ▸ List.mem_cons_self))
    · exact .inl hkey
  · exact .inr (.inl hkey)
  · exact .inr (.inr (List.mem_cons_of_mem _ (of_decide_eq_true hkey)))

theorem Kept.execute {job : Job} {held : Bool} (h : v.Kept) (htimely : v.timely e = true)
    (hv' : v.execute job held e = some v') : v'.Kept := by
  obtain ⟨snapshot, hsnapshot, hv'⟩ := Option.bind_eq_some_iff.1 hv'
  split at hv'
  · next hrunning =>
    split at hv'
    · cases hv'
    · cases hv'
      intro row' hrow' _ artifact hartifact
      obtain ⟨row, hrow, rfl⟩ := Option.map_eq_some_iff.1 hrow'
      rw [View.timely, hsnapshot, Option.all_some, decide_eq_true_iff] at htimely
      have hall := List.all_eq_true.1 (htimely hrunning) artifact hartifact
      rw [decide_eq_true_iff, Bool.not_eq_true] at hall
      exact hall
  · cases hv'
    exact h.quiet rfl rfl rfl fun _ ↦ id

theorem Kept.advance {job : Job} {held : Bool} {step : Step} (hsound : v.Sound gz sha256 e)
    (h : v.Kept) (htimely : step = .execute → v.timely e = true)
    (hv' : v.advance gz sha256 job held e step = some v') : v'.Kept := by
  cases advanced_of_advance hv' with
  | unread | succeeded | failing | refuse => exact h.quiet rfl rfl rfl fun _ ↦ id
  | turn | readSnapshot | markReady | fail | removed | drop | crash =>
    exact h.quiet rfl rfl rfl nofun
  | @settle ok => exact h.quiet rfl rfl rfl (by cases ok <;> nofun)
  | @uploadResults lines answered | @uploadPositions lines answered =>
    exact h.quiet rfl rfl rfl (by cases answered <;> nofun)
  | captured =>
    refine h.quiet rfl rfl rfl ?_
    split <;> nofun
  | @takeAnswer snapshot marked hbuild hanswer =>
    by_cases hmarked : marked = 0
    · exact Kept.of_not_ready (hsound.unmarked (.inr (.inr (hmarked ▸ hanswer))))
    · refine h.quiet rfl rfl rfl ?_
      simp only [if_neg hmarked]
      nofun
  | namedReady =>
    split
    · exact h.quiet rfl rfl rfl nofun
    · next hreadable =>
      refine Kept.of_not_ready fun row hrow hready ↦ hreadable (.inr ?_)
      have hrow : v.row = some row := hrow
      rw [hrow, Option.any_some, hready, decide_eq_true_iff]
  | delete hbuild => exact h.delete hbuild
  | @markFailed executed error =>
    have hnext : (v.setRun .ended).Kept := h.quiet rfl rfl rfl fun _ ↦ id
    exact hnext.lapse (lapses_markFailed executed error)
  | execute hv' => exact h.execute (htimely rfl) hv'

end Kept

section Frame

structure Agrees (e : E) (store store' : Store J E) : Prop where
  objects : ∀ key : Key J E, key.exportId = e → store'.objects key = store.objects key
  deleted : ∀ key : Key J E, key.exportId = e → store'.deleted key = store.deleted key
  deletes : ∀ key : Key J E, key.exportId = e → key ∈ store'.deletes → key ∈ store.deletes

variable {store : Store J E}

theorem Agrees.stored {artifact : Artifact J E} (hagrees : Agrees e v.store store)
    (hkey : artifact.key.exportId = e) (h : artifact.Stored gz sha256 v.store) :
    artifact.Stored gz sha256 store := by
  unfold Artifact.Stored
  rwa [hagrees.objects _ hkey, hagrees.deleted _ hkey]

theorem exportId_build {job : J} {artifact : Artifact J E}
    (h : artifact ∈ build.artifacts job e) : artifact.key.exportId = e := by
  cases build with
  | results uploaded isFinal takenAt | positions uploaded isFinal takenAt =>
    obtain rfl := List.mem_singleton.1 h
    rfl
  | snapshot read => exact exportId_artifacts h
  | _ => cases h

theorem Sound.frame (h : v.Sound gz sha256 e) (hagrees : Agrees e v.store store) :
    ({ v with store } : View J E).Sound gz sha256 e where
  left := h.left
  own := h.own
  built build hbuild artifact hartifact :=
    hagrees.stored (exportId_build hartifact) (h.built build hbuild artifact hartifact)
  sent snapshot hsnapshot artifact hartifact :=
    hagrees.stored (exportId_artifacts hartifact) (h.sent snapshot hsnapshot artifact hartifact)
  waiting := h.waiting
  early := h.early
  unmarked := h.unmarked
  ready row hrow hready := by
    obtain ⟨hresults, hstored⟩ := h.ready row hrow hready
    exact ⟨hresults, fun artifact hartifact ↦
      hagrees.stored (h.own row hrow artifact hartifact) (hstored artifact hartifact)⟩

theorem Sound.deliver [DecidableEq J] [DecidableEq E] (h : v.Sound gz sha256 e) (key : Key J E) :
    ({ v with store := v.store.deliver key } : View J E).Sound gz sha256 e where
  left := h.left
  own := h.own
  built build hbuild artifact hartifact := (h.built build hbuild artifact hartifact).deliver key
  sent snapshot hsnapshot artifact hartifact :=
    (h.sent snapshot hsnapshot artifact hartifact).deliver key
  waiting := h.waiting
  early := h.early
  unmarked := h.unmarked
  ready row hrow hready := by
    obtain ⟨hresults, hstored⟩ := h.ready row hrow hready
    exact ⟨hresults, fun artifact hartifact ↦ (hstored artifact hartifact).deliver key⟩

variable [DecidableEq J] [DecidableEq E]

theorem Kept.frame (h : v.Kept) (hsound : v.Sound gz sha256 e) (hagrees : Agrees e v.store store) :
    ({ v with store } : View J E).Kept := by
  intro row hrow hready artifact hartifact
  have hkey := hsound.own row hrow artifact hartifact
  have hkept := h row hrow hready artifact hartifact
  simp only [condemned, decide_eq_false_iff_not, not_or, hagrees.deleted _ hkey] at hkept ⊢
  exact ⟨fun hmem ↦ hkept.1 (hagrees.deletes _ hkey hmem), hkept.2⟩

theorem Kept.deliver {key : Key J E} (h : v.Kept) (hkey : key ∈ v.store.deletes) :
    ({ v with store := v.store.deliver key } : View J E).Kept := by
  intro row hrow hready artifact hartifact
  have hkept := h row hrow hready artifact hartifact
  simp only [condemned, decide_eq_false_iff_not, not_or] at hkept ⊢
  have hne : artifact.key ≠ key := fun heq ↦ hkept.1 (heq ▸ hkey)
  rw [Store.deleted_deliver, Function.update_of_ne hne]
  exact ⟨fun hmem ↦ hkept.1 (Multiset.mem_of_mem_erase hmem), hkept.2⟩

theorem Kept.lose (h : v.Kept) (key : Key J E) :
    ({ v with store := v.store.lose key } : View J E).Kept := by
  refine h.of_condemned rfl fun key' hkey' ↦ ?_
  simp only [condemned, decide_eq_true_iff] at hkey' ⊢
  exact hkey'.imp_left Multiset.mem_of_mem_erase

structure Effect (e : E) (v v' : View J E) : Prop where
  row : ∃ f, v'.row = v.row.map f
  store : v'.store = v.store ∨ ∃ key : Key J E, key.exportId = e ∧
    ((∃ object, v'.store = v.store.put key object) ∨ v'.store = v.store.send {key})

theorem effect_task (task : Task J) : Effect e v ⟨v.row, task, v.store⟩ :=
  ⟨⟨id, Option.map_id_apply.symm⟩, .inl rfl⟩

theorem effect_put (task : Task J) (job : J) (positions : Bool) (object : Bytes) :
    Effect e v ⟨v.row, task, v.store.put ⟨job, e, positions⟩ object⟩ :=
  ⟨⟨id, Option.map_id_apply.symm⟩, .inr ⟨_, rfl, .inl ⟨object, rfl⟩⟩⟩

theorem effect_send (task : Task J) (job : J) (positions : Bool) :
    Effect e v ⟨v.row, task, v.store.send {⟨job, e, positions⟩}⟩ :=
  ⟨⟨id, Option.map_id_apply.symm⟩, .inr ⟨_, rfl, .inr rfl⟩⟩

theorem effect_advance {job : Job} {held : Bool} {step : Step}
    (hv' : v.advance gz sha256 job held e step = some v') : Effect e v v' := by
  cases advanced_of_advance hv' with
  | uploadResults | uploadPositions => exact effect_put _ _ _ _
  | delete => exact effect_send _ _ _
  | @markFailed executed =>
    cases executed with
    | false => exact effect_task _
    | true => exact ⟨⟨_, rfl⟩, .inl rfl⟩
  | execute hv' =>
    obtain ⟨snapshot, hsnapshot, hv'⟩ := Option.bind_eq_some_iff.1 hv'
    split at hv'
    · obtain ⟨-, hv'⟩ := Option.ite_none_left_eq_some.1 hv'
      cases hv'
      exact ⟨⟨_, rfl⟩, .inl rfl⟩
    · cases hv'
      exact effect_task _
  | _ => exact effect_task _

theorem Effect.row_eq_none (h : Effect e v v') (hnone : v'.row = none) : v.row = none := by
  obtain ⟨f, hf⟩ := h.row
  rw [hf] at hnone
  exact Option.map_eq_none_iff.1 hnone

theorem Effect.agrees {e' : E} (h : Effect e v v') (hne : e' ≠ e) : Agrees e' v.store v'.store := by
  obtain ⟨-, hstore | ⟨key, hkey, ⟨object, hstore⟩ | hstore⟩⟩ := h
  · rw [hstore]
    exact ⟨fun _ _ ↦ rfl, fun _ _ ↦ rfl, fun _ _ ↦ id⟩
  · rw [hstore]
    refine ⟨fun key' hkey' ↦ ?_, fun _ _ ↦ rfl, fun _ _ ↦ id⟩
    have hne : key' ≠ key :=
      fun heq ↦ hne (hkey'.symm.trans ((congrArg Key.exportId heq).trans hkey))
    rw [Store.objects_put, Function.update_of_ne hne]
  · rw [hstore]
    refine ⟨fun _ _ ↦ rfl, fun _ _ ↦ rfl, fun key' hkey' hmem ↦ ?_⟩
    rcases Multiset.mem_add.1 hmem with hmem | hmem
    · have heq := Multiset.mem_singleton.1 hmem
      exact absurd (hkey'.symm.trans ((congrArg Key.exportId heq).trans hkey)) hne
    · exact hmem

end Frame

end View

namespace State

variable [DecidableEq E] {gz : Encoder Z} {sha256 : Bytes → String}
variable {s t : State J E} {e : E} {task : Task J}

variable (gz sha256) in
structure Sound (s : State J E) : Prop where
  unborn : ∀ e, s.tasks e = none → s.exports.get e = none
  view : ∀ e task, s.tasks e = some task → (s.view e task).Sound gz sha256 e

theorem exports_setView {v : View J E} (hrow : v.row = none → s.exports.get e = none) (e' : E) :
    (s.setView e v).exports.get e' = if e' = e then v.row else s.exports.get e' := by
  unfold State.setView
  cases hv : v.row with
  | none =>
    split
    · next heq => exact heq ▸ hrow hv
    · rfl
  | some row =>
    split
    · next heq => rw [heq, Option.elim_some, Table.get_put_self]
    · next hne => rw [Option.elim_some, Table.get_put_of_ne hne]

theorem view_setView_self {v : View J E} (hrow : v.row = none → s.exports.get e = none) :
    (s.setView e v).view e v.task = v := by
  rw [State.view, exports_setView hrow, if_pos rfl]
  rfl

theorem view_setView_of_ne {v : View J E} {e' : E} (hrow : v.row = none → s.exports.get e = none)
    (hne : e' ≠ e) (task : Task J) :
    (s.setView e v).view e' task = { s.view e' task with store := v.store } := by
  rw [State.view, exports_setView hrow, if_neg hne]
  rfl

theorem lapses_map {f : JobExport J E → JobExport J E}
    (hf : ∀ row : JobExport J E, row.Lapses (f row)) (e : E) :
    ∀ row' ∈ (s.exports.map f).get e, ∃ row ∈ s.exports.get e, row.Lapses row' := by
  intro row' hrow'
  rw [Table.get_map] at hrow'
  obtain ⟨row, hrow, rfl⟩ := Option.map_eq_some_iff.1 hrow'
  exact ⟨row, hrow, hf row⟩

theorem lapses_retain (p : JobExport J E → Bool) (e : E) :
    ∀ row' ∈ (s.exports.retain p).get e, ∃ row ∈ s.exports.get e, row.Lapses row' := by
  intro row' hrow'
  rw [Table.get_retain] at hrow'
  exact ⟨row', (Option.filter_eq_some_iff.1 hrow').1, JobExport.lapses_self⟩

theorem Sound.exists_task {row : JobExport J E} (h : s.Sound gz sha256)
    (hrow : s.exports.get e = some row) : ∃ task, s.tasks e = some task := by
  cases htask : s.tasks e with
  | none =>
    rw [h.unborn e htask] at hrow
    cases hrow
  | some task => exact ⟨task, rfl⟩

theorem Sound.map {f : JobExport J E → JobExport J E} (h : s.Sound gz sha256)
    (hf : ∀ row : JobExport J E, row.Lapses (f row)) :
    ({ s with exports := s.exports.map f } : State J E).Sound gz sha256 where
  unborn e htask := by rw [Table.get_map, h.unborn e htask, Option.map_none]
  view e task htask := (h.view e task htask).lapse (lapses_map hf e)

variable [DecidableEq J]

def Kept (s : State J E) : Prop := ∀ e task, s.tasks e = some task → (s.view e task).Kept

omit [DecidableEq E] in
theorem lapses_unfinalize (job : J) (row : JobExport J E) :
    row.Lapses (if row.job = job then row.unfinalized else row) := by
  split
  · exact JobExport.lapses_unfinalized
  · exact JobExport.lapses_self

theorem Kept.map {f : JobExport J E → JobExport J E} (h : s.Kept)
    (hf : ∀ row : JobExport J E, row.Lapses (f row)) :
    ({ s with exports := s.exports.map f } : State J E).Kept :=
  fun e task htask ↦ (h e task htask).lapse (lapses_map hf e)

theorem Sound.purge (h : s.Sound gz sha256) (job : J) (answered : Bool) :
    (s.purge job answered).Sound gz sha256 where
  unborn e htask := by rw [State.purge, Table.get_retain, h.unborn e htask, Option.filter_none]
  view e task htask := by
    have hview := (h.view e task htask).lapse (lapses_retain (·.job ≠ job) e)
    cases answered with
    | false => exact hview
    | true => exact hview.send (s.named job)

theorem Sound.get_purge {job : J} {key : Key J E} (h : s.Sound gz sha256) (answered : Bool)
    (hkey : key ∈ s.named job) : (s.purge job answered).exports.get key.exportId = none := by
  obtain ⟨⟨e, row⟩, hrow, hnamed⟩ := List.mem_flatMap.1 hkey
  obtain ⟨hmem, hjob⟩ := List.mem_filter.1 hrow
  obtain ⟨artifact, hartifact, rfl⟩ := List.mem_map.1 hnamed
  rw [Table.mem_rows] at hmem
  obtain ⟨task, htask⟩ := h.exists_task hmem
  rw [(h.view e task htask).own row hmem artifact hartifact, State.purge, Table.get_retain, hmem]
  simpa using of_decide_eq_true hjob

theorem Kept.purge (h : s.Kept) (hsound : s.Sound gz sha256) (job : J) (answered : Bool) :
    (s.purge job answered).Kept := by
  intro e task htask
  have hview := (h e task htask).lapse (lapses_retain (·.job ≠ job) e)
  cases answered with
  | false => exact hview
  | true =>
    intro row hrow hready artifact hartifact
    have hkept := hview row hrow hready artifact hartifact
    have hkey := ((hsound.purge job true).view e task htask).own row hrow artifact hartifact
    simp only [View.condemned, decide_eq_false_iff_not, not_or] at hkept ⊢
    refine ⟨fun hmem ↦ ?_, hkept.2⟩
    rcases Multiset.mem_add.1 hmem with hmem | hmem
    · have hnone := hsound.get_purge true (Multiset.mem_coe.1 hmem)
      rw [hkey] at hnone
      cases hnone.symm.trans hrow
    · exact hkept.1 hmem

theorem forall_setView {P : E → View J E → Prop} {v : View J E}
    (heffect : View.Effect e (s.view e task) v) (hv : P e v)
    (hframe : ∀ e' task', e' ≠ e → s.tasks e' = some task' →
      P e' { s.view e' task' with store := v.store }) :
    ∀ e' task', (s.setView e v).tasks e' = some task' → P e' ((s.setView e v).view e' task') := by
  have hrow : v.row = none → s.exports.get e = none := heffect.row_eq_none
  intro e' task' htask'
  rcases of_update_eq_some htask' with ⟨rfl, rfl⟩ | ⟨hne, htask'⟩
  · rw [view_setView_self hrow]
    exact hv
  · rw [view_setView_of_ne hrow hne]
    exact hframe e' task' hne htask'

theorem Sound.setView {v : View J E} (h : s.Sound gz sha256)
    (heffect : View.Effect e (s.view e task) v) (hv : v.Sound gz sha256 e) :
    (s.setView e v).Sound gz sha256 where
  unborn e' htask' := by
    obtain ⟨hne, htask'⟩ := of_update_eq_none htask'
    rw [exports_setView heffect.row_eq_none, if_neg hne]
    exact h.unborn e' htask'
  view := forall_setView heffect hv fun e' task' hne htask' ↦
    (h.view e' task' htask').frame (heffect.agrees hne)

theorem Kept.setView {v : View J E} (h : s.Kept) (hsound : s.Sound gz sha256)
    (heffect : View.Effect e (s.view e task) v) (hv : v.Kept) : (s.setView e v).Kept :=
  forall_setView (P := fun _ v ↦ v.Kept) heffect hv fun e' task' hne htask' ↦
    (h e' task' htask').frame (hsound.view e' task' htask') (heffect.agrees hne)

theorem forall_start {P : E → View J E → Prop} {job : J} (hstart : s.start e job = some t)
    (hnew : P e ⟨some ⟨job, .running, none, none, false, none, none, 0⟩,
      ⟨job, .waiting, none, none, none⟩, s.store⟩)
    (hold : ∀ e' task', s.tasks e' = some task' → P e' (s.view e' task')) :
    ∀ e' task', t.tasks e' = some task' → P e' (t.view e' task') := by
  simp only [State.start, Option.ite_none_right_eq_some] at hstart
  obtain ⟨-, hstart⟩ := hstart
  cases hstart
  intro e' task' htask'
  rcases of_update_eq_some htask' with ⟨rfl, rfl⟩ | ⟨hne, htask'⟩
  · simpa only [State.view, Table.get_put_self] using hnew
  · simpa only [State.view, Table.get_put_of_ne hne] using hold e' task' htask'

theorem Sound.start {job : J} (h : s.Sound gz sha256) (hstart : s.start e job = some t) :
    t.Sound gz sha256 where
  unborn e' htask' := by
    simp only [State.start, Option.ite_none_right_eq_some] at hstart
    obtain ⟨-, hstart⟩ := hstart
    cases hstart
    obtain ⟨hne, htask'⟩ := of_update_eq_none htask'
    rw [Table.get_put_of_ne hne]
    exact h.unborn e' htask'
  view := by
    refine forall_start hstart ⟨?_, ?_, ?_, ?_, fun _ ↦ rfl, fun _ ↦ ⟨rfl, rfl⟩, ?_, ?_⟩ h.view
    · rintro _ ⟨⟩
      rfl
    · rintro _ ⟨⟩ _ hartifact
      cases hartifact
    · intro _ hbuild
      cases hbuild
    · intro _ hsnapshot
      cases hsnapshot
    · rintro - _ ⟨⟩ hready
      cases hready
    · rintro _ ⟨⟩ hready
      cases hready

theorem Kept.start {job : J} (h : s.Kept) (hstart : s.start e job = some t) : t.Kept :=
  forall_start (P := fun _ v ↦ v.Kept) hstart (View.Kept.of_not_ready (by rintro _ ⟨⟩; nofun)) h

theorem Sound.next {a : Action J E} (h : s.Sound gz sha256)
    (ht : Objects.next gz sha256 s a = some t) : t.Sound gz sha256 := by
  cases a with
  | start e job => exact h.start ht
  | step e step =>
    obtain ⟨task, htask, ht⟩ := Option.bind_eq_some_iff.1 ht
    obtain ⟨v, hv, rfl⟩ := Option.map_eq_some_iff.1 ht
    exact h.setView (View.effect_advance hv) ((h.view e task htask).advance hv)
  | failOrphaned =>
    cases ht
    exact h.map fun row ↦ JobExport.lapses_failed _
  | commit job status answered =>
    obtain ⟨operation, -, rfl⟩ := Option.map_eq_some_iff.1 ht
    cases operation with
    | purge =>
      have hpurge := h.purge job answered
      exact ⟨hpurge.unborn, hpurge.view⟩
    | edit =>
      have hmap := h.map (lapses_unfinalize job)
      exact ⟨hmap.unborn, hmap.view⟩
  | lock _ _ | rollback _ | setStatus _ _ =>
    simp only [Objects.next, Option.ite_none_right_eq_some] at ht
    obtain ⟨-, ht⟩ := ht
    cases ht
    exact ⟨h.unborn, h.view⟩
  | deliver key =>
    simp only [Objects.next, Option.ite_none_right_eq_some] at ht
    obtain ⟨-, ht⟩ := ht
    cases ht
    exact ⟨h.unborn, fun e task htask ↦ (h.view e task htask).deliver key⟩
  | lose key =>
    simp only [Objects.next, Option.ite_none_right_eq_some] at ht
    obtain ⟨-, ht⟩ := ht
    cases ht
    exact ⟨h.unborn, fun e task htask ↦ (h.view e task htask).frame
      ⟨fun _ _ ↦ rfl, fun _ _ ↦ rfl, fun _ _ ↦ Multiset.mem_of_mem_erase⟩⟩

theorem Kept.next {a : Action J E} (h : s.Kept) (hsound : s.Sound gz sha256) (htimely : Timely s a)
    (ht : Objects.next gz sha256 s a = some t) : t.Kept := by
  cases a with
  | start e job => exact h.start ht
  | step e step =>
    obtain ⟨task, htask, ht⟩ := Option.bind_eq_some_iff.1 ht
    obtain ⟨v, hv, rfl⟩ := Option.map_eq_some_iff.1 ht
    have htimely : step = .execute → (s.view e task).timely e = true := by
      rintro rfl
      exact htimely task htask
    exact h.setView hsound (View.effect_advance hv)
      ((h e task htask).advance (hsound.view e task htask) htimely hv)
  | failOrphaned =>
    cases ht
    exact h.map fun row ↦ JobExport.lapses_failed _
  | commit job status answered =>
    obtain ⟨operation, -, rfl⟩ := Option.map_eq_some_iff.1 ht
    cases operation with
    | purge => exact h.purge hsound job answered
    | edit => exact h.map (lapses_unfinalize job)
  | lock _ _ | rollback _ | setStatus _ _ =>
    simp only [Objects.next, Option.ite_none_right_eq_some] at ht
    obtain ⟨-, ht⟩ := ht
    cases ht
    exact h
  | deliver key =>
    simp only [Objects.next, Option.ite_none_right_eq_some] at ht
    obtain ⟨hkey, ht⟩ := ht
    cases ht
    exact fun e task htask ↦ (h e task htask).deliver hkey
  | lose key =>
    simp only [Objects.next, Option.ite_none_right_eq_some] at ht
    obtain ⟨-, ht⟩ := ht
    cases ht
    exact fun e task htask ↦ (h e task htask).lose key

end State

section Exports

variable [DecidableEq J] [DecidableEq E] (gz : Encoder Z) (sha256 : Bytes → String)

variable {gz sha256} in
theorem sound_of_reachable {s : State J E} (h : (machine gz sha256).Reachable s) :
    s.Sound gz sha256 := by
  refine h.invariant ?_ fun s a t hs _ ht ↦ hs.next ht
  rintro s ⟨hexports, -, htasks, -, -⟩
  refine ⟨fun e _ ↦ by rw [hexports, Table.get_empty], fun e task htask ↦ ?_⟩
  rw [htasks e] at htask
  cases htask

variable {gz sha256} in
theorem kept_of_reachableBy {s : State J E} (h : (machine gz sha256).ReachableBy Timely s) :
    s.Kept := by
  refine h.invariant_of (fun s ↦ sound_of_reachable) ?_ fun s a t hsound hs htimely ht ↦
    hs.next hsound htimely ht
  rintro s ⟨-, -, htasks, -, -⟩ e task htask
  rw [htasks e] at htask
  cases htask

/-- The object it names is there, uploaded whole and never deleted, and is as the row says. -/
def Artifact.Served (store : Store J E) (artifact : Artifact J E) : Prop :=
  store.deleted artifact.key = false ∧ ∃ object, store.objects artifact.key = some object ∧
    artifact.uploaded.Describes gz sha256 object

/-- A row leaves `running` once. Where it is `ready`, it names what was uploaded as it says and is
there still, unless `mark_ready`'s update took effect after the build went on to delete it. -/
theorem readyExports_served :
    (∀ s : State J E, (machine gz sha256).Reachable s → ∀ e row, s.exports.get e = some row →
      (row.left = if row.state = .running then 0 else 1) ∧
      (row.state = .ready → row.results.isSome ∧
        ∀ artifact ∈ row.artifacts, artifact.Stored gz sha256 s.store)) ∧
    ∀ s : State J E, (machine gz sha256).ReachableBy Timely s → ∀ e row,
    s.exports.get e = some row →
      row.state = .ready → (∃ results ∈ row.results, results.Served gz sha256 s.store) ∧
        ∀ positions ∈ row.positions, positions.Served gz sha256 s.store := by
  refine ⟨fun s hs e row hrow ↦ ?_, fun s hs e row hrow hready ↦ ?_⟩
  · have hsound := sound_of_reachable hs
    obtain ⟨task, htask⟩ := hsound.exists_task hrow
    have hview := hsound.view e task htask
    exact ⟨hview.left row hrow, hview.ready row hrow⟩
  · have hsound := sound_of_reachable hs.reachable
    obtain ⟨task, htask⟩ := hsound.exists_task hrow
    obtain ⟨hresults, hstored⟩ := (hsound.view e task htask).ready row hrow hready
    have hserved : ∀ artifact ∈ row.artifacts, artifact.Served gz sha256 s.store := by
      intro artifact hartifact
      have hkept := kept_of_reachableBy hs e task htask row hrow hready artifact hartifact
      simp only [View.condemned, decide_eq_false_iff_not, not_or, Bool.not_eq_true] at hkept
      refine ⟨hkept.2.1, (hstored artifact hartifact).resolve_left fun hdeleted ↦ ?_⟩
      exact Bool.false_ne_true (hkept.2.1.symm.trans hdeleted)
    obtain ⟨results, hresults⟩ := Option.isSome_iff_exists.1 hresults
    refine ⟨⟨results, hresults, hserved results ?_⟩, fun positions hpositions ↦
      hserved positions ?_⟩
    · exact List.mem_append_left _ (Option.mem_toList.2 hresults)
    · exact List.mem_append_right _ (Option.mem_toList.2 hpositions)

end Exports

section Runs

def emptyGzip : Encoder Unit :=
  ⟨(), fun _ _ ↦ ((), []),
    fun _ ↦ [31, 139, 8, 0, 0, 0, 0, 0, 0, 255, 3, 0, 0, 0, 0, 0, 0, 0, 0, 0]⟩

def emptySha256 : Bytes → String :=
  fun _ ↦ "ac73670af3abed54ac6fb4695131f4099be9fbe39d6076c5d0264a6bbdae9d83"

def noExports : State ℕ ℕ :=
  ⟨fun _ ↦ ⟨.games, .completed⟩, fun _ ↦ none, .empty, fun _ ↦ none,
    ⟨fun _ ↦ none, 0, fun _ ↦ false⟩⟩

theorem reachableBy_noExports (gz : Encoder Z) (sha256 : Bytes → String)
    (ok : State ℕ ℕ → Action ℕ ℕ → Prop) : (machine gz sha256).ReachableBy ok noExports :=
  .start ⟨rfl, fun _ ↦ rfl, fun _ ↦ rfl, rfl, fun _ ↦ rfl⟩

def toMarkReady (lines : List Bytes) : List (Action ℕ ℕ) :=
  [.start 0 0] ++ [.turn true, .settle true, .readSnapshot true 0, .upload lines true,
    .captured false, .markReady].map (.step 0)

theorem exists_readyExports_served : ∃ (s : State ℕ ℕ) (row : JobExport ℕ ℕ),
    (machine lateEncoder seedSha256).ReachableBy Timely s ∧ s.exports.get 0 = some row ∧
      row.left = 1 ∧ ∃ results ∈ row.results, results.Served lateEncoder seedSha256 s.store ∧
        results.uploaded.rows = 1 := by
  obtain ⟨s, hs, hready⟩ := (reachableBy_noExports lateEncoder seedSha256 Timely).follow_any
    (toMarkReady [seedRow] ++ [.step 0 .execute])
    (fun s ↦ (s.exports.get 0).any fun row ↦ row.state = .ready ∧
      row.results.all fun results ↦ results.uploaded.rows = 1) (by decide +kernel)
  obtain ⟨row, hrow, hready⟩ := (Option.any_eq_true ..).1 hready
  obtain ⟨hready, hrows⟩ := of_decide_eq_true hready
  obtain ⟨hall, htimely⟩ := readyExports_served (J := ℕ) (E := ℕ) lateEncoder seedSha256
  obtain ⟨hleft, -⟩ := hall s hs.reachable 0 row hrow
  rw [hready, if_neg nofun] at hleft
  obtain ⟨results, hresults, hserved⟩ := (htimely s hs 0 row hrow hready).1
  exact ⟨s, row, hs, hrow, hleft, results, hresults, hserved,
    of_decide_eq_true ((Option.all_eq_true ..).1 hrows results hresults)⟩

/-- The update waits for an edit of the job and its client gives up on it; the row is not `ready`
yet, so the build deletes the objects, the edit is rolled back, and the update goes on. -/
theorem not_readyExports_served : ¬ ∀ s : State ℕ ℕ, (machine emptyGzip emptySha256).Reachable s →
    ∀ e row, s.exports.get e = some row → row.state = .ready →
      ∃ results ∈ row.results, results.Served emptyGzip emptySha256 s.store := by
  intro hall
  obtain ⟨s, hs, hready⟩ := (reachableBy_noExports emptyGzip emptySha256 fun _ _ ↦ True).follow_any
    (toMarkReady [] ++ [.lock 0 .edit, .step 0 .fail, .step 0 (.namedReady true), .step 0 .delete,
      .deliver ⟨0, 0, false⟩, .rollback 0, .step 0 .execute])
    (fun s ↦ (s.exports.get 0).any fun row ↦
      row.state = .ready ∧ row.results.all fun results ↦ s.store.deleted results.key)
    (by decide +kernel)
  obtain ⟨row, hrow, hready⟩ := (Option.any_eq_true ..).1 hready
  obtain ⟨hready, hdeleted⟩ := of_decide_eq_true hready
  obtain ⟨results, hresults, hkept, -⟩ := hall s hs 0 row hrow hready
  rw [(Option.all_eq_true ..).1 hdeleted results hresults] at hkept
  cases hkept

end Runs

end Invariant

end Birdtest.Exports.Objects
