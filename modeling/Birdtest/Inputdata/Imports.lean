import Birdtest.Base.Runs
import Birdtest.Base.Tables
import Birdtest.Inputdata.Archive

namespace Birdtest.Inputdata.Imports

open Birdtest.Base.Checked Birdtest.Base.Runs Birdtest.Base.Tables

inductive ImportState
  | running | staged | nothingNew | confirmed | cancelled | failed
  deriving DecidableEq

/-- Why an import ended: what the archive was refused for, another error on the way, its time limit,
its day for being confirmed, or a restart of the server. -/
inductive ImportError
  | refused (refusal : Refusal)
  | other (message : String)
  | timedOut
  | notConfirmed
  | orphaned
  deriving DecidableEq

structure Import (U : Type) where
  tarballDate : List Char
  commitSha : String
  tarballSha256 : Option String
  state : ImportState
  error : Option ImportError
  requestedBy : U
  requestedAt : ℕ
  confirmedAt : Option ℕ

inductive Disposition
  | new | known | collision
  deriving DecidableEq

structure ImportRow where
  path : List Char
  role : InputRole
  name : List Char
  sha256 : String
  bytes : ℕ
  disposition : Disposition
  content : Option Bytes
  objectKey : Option String

structure InputData (U : Type) where
  role : InputRole
  name : List Char
  bytes : ℕ
  tarballDate : List Char
  content : Option Bytes
  objectKey : Option String
  importedBy : U

abbrev Key : Type := List Char × String

def ImportRow.key (row : ImportRow) : Key := (row.path, row.sha256)

/-- How far the background task of an import is. Within its transaction it has inserted `done`, and
of the first of `rest` it may have read whether the path is known. -/
inductive Task
  | fetching
  | staging (tarballSha256 : String) (done : List ImportRow) (knownPath : Option Bool)
      (rest : List ImportedFile)
  | finishing (tarballSha256 : String)
  | failing (error : ImportError)

structure State (I U : Type) where
  now : ℕ
  imports : Table I (Import U)
  rows : I → List ImportRow
  inputData : Table Key (InputData U)
  tasks : I → Option Task

inductive ConfirmError
  | noSuchImport
  | nothingNew
  | notStaged (state : ImportState)

inductive Action (I U : Type)
  | elapse (duration : ℕ)
  | start (id : I) (tarballDate : List Char) (commitSha : String) (admin : U)
  | fetched (id : I) (tarballSha256 : String) (compressed : ℕ) (entries : List (Option RawEntry))
  | readPath (id : I)
  | stageFile (id : I)
  | commitStage (id : I) (late : Bool)
  | giveUp (id : I) (error : ImportError)
  | finishStaging (id : I)
  | fail (id : I)
  | dropTask (id : I)
  | failOrphaned
  | expire
  | confirm (id : I) (admin : U)
  | deleteInputData (key : Key)

section Operations

variable {I U : Type} [DecidableEq I] (digest : Bytes → String) (s : State I U)

def setTask (id : I) (task : Option Task) : State I U :=
  { s with tasks := Function.update s.tasks id task }

def validDate (tarballDate : List Char) : Bool :=
  tarballDate.length = 8 ∧ tarballDate.all Char.isDigit

def startImport (id : I) (tarballDate : List Char) (commitSha : String) (admin : U) : State I U :=
  let im := ⟨tarballDate, commitSha, none, .running, none, admin, s.now, none⟩
  setTask { s with imports := s.imports.put id im } id (some .fetching)

def disposition (knownExact knownPath : Bool) : Disposition :=
  if knownExact then .known else if knownPath then .collision else .new

def stagedRow (file : ImportedFile) (d : Disposition) : ImportRow :=
  ⟨file.path, file.role, file.name, file.sha256, file.bytes, d, file.content, file.objectKey⟩

/-- `ON CONFLICT (import_id, path, sha256) DO NOTHING` -/
def insertRow (rows : List ImportRow) (row : ImportRow) : List ImportRow :=
  if rows.any (·.key = row.key) then rows else rows ++ [row]

def hasPath (path : List Char) : Bool := s.inputData.rows.any (·.1.1 = path)

def hasExact (key : Key) : Bool := (s.inputData.get key).isSome

def ImportRow.isProposed (row : ImportRow) : Bool := row.disposition ≠ .known

def finished (rows : List ImportRow) (tarballSha256 : String) (im : Import U) : Import U :=
  { im with
    tarballSha256 := some tarballSha256
    state := if rows.any ImportRow.isProposed then .staged else .nothingNew }

def updateRunning (id : I) (f : Import U → Import U) : State I U :=
  match s.imports.get id with
  | some im => if im.state = .running then { s with imports := s.imports.put id (f im) } else s
  | none => s

def failed (error : ImportError) (im : Import U) : Import U :=
  { im with state := .failed, error := some error }

def unconfirmedImportTtl : ℕ := 24 * 60 * 60

def isStale (im : Import U) : Bool :=
  im.state = .staged ∧ im.requestedAt + unconfirmedImportTtl < s.now

def expireUnconfirmedImports : State I U := { s with
  imports := s.imports.map fun im ↦
    if isStale s im then { im with state := .cancelled, error := some .notConfirmed } else im
  rows := fun id ↦ if (s.imports.get id).any (isStale s) then [] else s.rows id }

def failOrphanedImports : State I U := { s with
  imports := s.imports.map fun im ↦ if im.state = .running then failed .orphaned im else im }

def ImportRow.toInputData (row : ImportRow) (tarballDate : List Char) (admin : U) : InputData U :=
  ⟨row.role, row.name, row.bytes, tarballDate, row.content, row.objectKey, admin⟩

/-- `ON CONFLICT (path, sha256) DO NOTHING`, and the rows inserted so far. -/
def insertInputData (tarballDate : List Char) (admin : U) (acc : Table Key (InputData U) × ℕ)
    (row : ImportRow) :
    Table Key (InputData U) × ℕ :=
  if (acc.1.get row.key).isSome then acc
  else (acc.1.put row.key (row.toInputData tarballDate admin), acc.2 + 1)

def confirmImport (id : I) (admin : U) : Except ConfirmError (ℕ × State I U) :=
  match s.imports.get id with
  | none => .error .noSuchImport
  | some im =>
    if im.state = .nothingNew then .error .nothingNew
    else if im.state ≠ .staged then .error (.notStaged im.state)
    else
      let (inputData, inserted) := ((s.rows id).filter ImportRow.isProposed).foldl
        (insertInputData im.tarballDate admin) (s.inputData, 0)
      .ok (inserted, { s with
        inputData := inputData
        imports := s.imports.put id { im with state := .confirmed, confirmedAt := some s.now } })

def next (s : State I U) : Action I U → Option (State I U)
  | .elapse duration => some { s with now := s.now + duration }
  | .start id tarballDate commitSha admin =>
    if (s.imports.get id).isNone ∧ validDate tarballDate then
      some (startImport s id tarballDate commitSha admin)
    else none
  | .fetched id tarballSha256 compressed entries => match s.tasks id with
    | some .fetching => some (setTask s id (some (match walkArchive digest compressed entries with
      | .ok files => .staging tarballSha256 [] none files
      | .error refusal => .failing (.refused refusal))))
    | _ => none
  -- every statement of the transaction reads what is committed by then
  | .readPath id => match s.tasks id with
    | some (.staging sha done none (file :: rest)) =>
      some (setTask s id (some (.staging sha done (some (hasPath s file.path)) (file :: rest))))
    | _ => none
  | .stageFile id => match s.tasks id with
    | some (.staging sha done (some knownPath) (file :: rest)) =>
      let row := stagedRow file (disposition (hasExact s (file.path, file.sha256)) knownPath)
      some (setTask s id (some (.staging sha (insertRow done row) none rest)))
    | _ => none
  -- `late`: the time limit passed while the transaction was being committed
  | .commitStage id late => match s.tasks id with
    | some (.staging sha done none []) =>
      some (setTask { s with rows := Function.update s.rows id (s.rows id ++ done) } id
        (some (if late then .failing .timedOut else .finishing sha)))
    | _ => none
  | .giveUp id error => match s.tasks id with
    | some .fetching | some (.staging ..) => some (setTask s id (some (.failing error)))
    | _ => none
  | .finishStaging id => match s.tasks id with
    | some (.finishing sha) =>
      some (setTask (updateRunning s id (finished (s.rows id) sha)) id none)
    | _ => none
  | .fail id => match s.tasks id with
    | some (.failing error) => some (setTask (updateRunning s id (failed error)) id none)
    | _ => none
  -- its process ends, or its last write is refused
  | .dropTask id => some (setTask s id none)
  | .failOrphaned => some (failOrphanedImports s)
  | .expire => some (expireUnconfirmedImports s)
  | .confirm id admin => (confirmImport s id admin).toOption.map (·.2)
  | .deleteInputData key => some { s with inputData := s.inputData.filter (· ≠ key) }

def machine (I U : Type) [DecidableEq I] (digest : Bytes → String) :
    Machine (State I U) (Action I U) where
  start s := ∃ now, s = ⟨now, Table.empty, fun _ ↦ [], Table.empty, fun _ ↦ none⟩
  next := next digest

end Operations

section Changes

variable {I U : Type}

def Task.isEarly : Task → Bool
  | .fetching | .staging .. => true
  | _ => false

def Task.done : Task → List ImportRow
  | .staging _ done _ _ => done
  | _ => []

inductive Changes (now : ℕ) : Option (Import U) → List ImportRow → Option Task →
    Option (Import U) → List ImportRow → Option Task → Prop
  | same {im : Option (Import U)} {rows : List ImportRow} {task : Option Task} :
      Changes now im rows task im rows task
  | started {rows : List ImportRow} {task : Option Task} {tarballDate : List Char}
      {commitSha : String} {admin : U}
      (hdate : validDate tarballDate = true) :
      Changes now none rows task
      (some ⟨tarballDate, commitSha, none, .running, none, admin, now, none⟩) rows
        (some .fetching)
  | worked {im : Option (Import U)} {rows : List ImportRow} {task task' : Task}
      (hearly : task.isEarly = true)
      (hdone : task'.done = [] ∨ task'.done = task.done ∨ ∃ row,
        task'.done = insertRow task.done row) :
      Changes now im rows (some task) im rows (some task')
  | committed {im : Option (Import U)} {rows : List ImportRow} {task task' : Task}
      (hearly : task.isEarly = true)
      (hlate : task'.isEarly = false) :
      Changes now im rows (some task) im (rows ++ task.done) (some task')
  | finished {im : Import U} {rows : List ImportRow} {sha : String}
      (hrunning : im.state = .running) :
      Changes now (some im) rows (some (.finishing sha)) (some (finished rows sha im)) rows none
  | failed {im : Import U} {rows : List ImportRow} {task task' : Option Task} {error : ImportError}
      (hrunning : im.state = .running) (htask : task' = none ∨ task' = task) :
      Changes now (some im) rows task (some (failed error im)) rows task'
  | dropped {im : Option (Import U)} {rows : List ImportRow} {task : Option Task} :
      Changes now im rows task im rows none
  | expired {im : Import U} {rows : List ImportRow} {task : Option Task}
      (hstaged : im.state = .staged) :
      Changes now (some im) rows task
        (some { im with state := .cancelled, error := some .notConfirmed }) [] task
  | confirmed {im : Import U} {rows : List ImportRow} {task : Option Task}
      (hstaged : im.state = .staged) :
      Changes now (some im) rows task
        (some { im with state := .confirmed, confirmedAt := some now }) rows task

variable [DecidableEq I] {digest : Bytes → String} {s t : State I U} {id : I}

abbrev ChangesAt (s t : State I U) (id : I) : Prop :=
  Changes s.now (s.imports.get id) (s.rows id) (s.tasks id) (t.imports.get id) (t.rows id)
    (t.tasks id)

theorem changesAt_setTask {u : State I U} {task : Option Task} {own : I} (hother : ∀ id, id ≠ own →
    u.imports.get id = s.imports.get id ∧ u.rows id = s.rows id ∧ u.tasks id = s.tasks id)
    (hown : Changes s.now (s.imports.get own) (s.rows own) (s.tasks own) (u.imports.get own)
      (u.rows own) task)
    (id : I) : ChangesAt s (setTask u own task) id := by
  unfold ChangesAt setTask
  dsimp only
  by_cases hid : id = own
  · subst hid
    rw [Function.update_self]
    exact hown
  · obtain ⟨himports, hrows, htasks⟩ := hother id hid
    rw [Function.update_of_ne hid, himports, hrows, htasks]
    exact .same

theorem updateRunning_of_ne {f : Import U → Import U} {own : I} (hid : id ≠ own) :
    (updateRunning s own f).imports.get id = s.imports.get id := by
  unfold updateRunning
  split
  · split
    · exact Table.get_put_of_ne hid
    · rfl
  · rfl

theorem rows_updateRunning {f : Import U → Import U} {own : I} :
    (updateRunning s own f).rows = s.rows ∧ (updateRunning s own f).tasks = s.tasks := by
  unfold updateRunning
  split
  · split <;> exact ⟨rfl, rfl⟩
  · exact ⟨rfl, rfl⟩

theorem changes_updateRunning {f : Import U → Import U} {own : I} {task : Option Task}
    (hf : ∀ im, im.state = .running → s.imports.get own = some im →
      Changes s.now (some im) (s.rows own) task (some (f im)) (s.rows own) none) :
    Changes s.now (s.imports.get own) (s.rows own) task ((updateRunning s own f).imports.get own)
      ((updateRunning s own f).rows own) none := by
  rw [rows_updateRunning.1]
  unfold updateRunning
  split
  · next im him =>
    split
    · next hrunning =>
      dsimp only
      rw [Table.get_put_self, him]
      exact hf im hrunning him
    · rw [him]
      exact .dropped
  · next him =>
    rw [him]
    exact .dropped

theorem changesAt_guarded {f : Import U → Import U} {own : I} {task : Task}
    (htask : s.tasks own = some task)
    (hf : ∀ im, im.state = .running → Changes s.now (some im) (s.rows own) (some task) (some (f im))
      (s.rows own) none)
    (id : I) : ChangesAt s (setTask (updateRunning s own f) own none) id := by
  refine changesAt_setTask (fun id hid ↦ ?_) ?_ id
  · exact ⟨updateRunning_of_ne hid, congrFun rows_updateRunning.1 id,
      congrFun rows_updateRunning.2 id⟩
  · rw [htask]
    exact changes_updateRunning fun im hrunning _ ↦ hf im hrunning

theorem next_changes {a : Action I U} (hs : Imports.next digest s a = some t) (id : I) :
    ChangesAt s t id := by
  cases a with
  | elapse duration =>
    cases hs
    exact .same
  | start own tarballDate commitSha admin =>
    simp only [Imports.next, Option.ite_none_right_eq_some, Option.some.injEq,
      Option.isNone_iff_eq_none] at hs
    obtain ⟨⟨hnone, hdate⟩, rfl⟩ := hs
    refine changesAt_setTask ?_ ?_ id
    · exact fun id hid ↦ ⟨Table.get_put_of_ne hid, rfl, rfl⟩
    · dsimp only
      rw [hnone, Table.get_put_self]
      exact .started hdate
  | fetched own sha compressed entries =>
    simp only [Imports.next] at hs
    split at hs
    · next htask =>
      cases hs
      refine changesAt_setTask (fun _ _ ↦ ⟨rfl, rfl, rfl⟩) ?_ id
      rw [htask]
      refine .worked rfl (.inl ?_)
      split <;> rfl
    · cases hs
  | readPath own =>
    simp only [Imports.next] at hs
    split at hs
    · next htask =>
      cases hs
      refine changesAt_setTask (fun _ _ ↦ ⟨rfl, rfl, rfl⟩) ?_ id
      rw [htask]
      exact .worked rfl (.inr (.inl rfl))
    · cases hs
  | stageFile own =>
    simp only [Imports.next] at hs
    split at hs
    · next htask =>
      cases hs
      refine changesAt_setTask (fun _ _ ↦ ⟨rfl, rfl, rfl⟩) ?_ id
      rw [htask]
      exact .worked rfl (.inr (.inr ⟨_, rfl⟩))
    · cases hs
  | commitStage own late =>
    simp only [Imports.next] at hs
    split at hs
    · next sha done htask =>
      cases hs
      refine changesAt_setTask ?_ ?_ id
      · exact fun id hid ↦ ⟨rfl, Function.update_of_ne hid .., rfl⟩
      · dsimp only
        rw [htask, Function.update_self]
        exact @Changes.committed _ _ _ _ (.staging sha done none []) _ rfl (by cases late <;> rfl)
    · cases hs
  | giveUp own error =>
    simp only [Imports.next] at hs
    split at hs
    · next htask =>
      cases hs
      refine changesAt_setTask (fun _ _ ↦ ⟨rfl, rfl, rfl⟩) ?_ id
      rw [htask]
      exact .worked rfl (.inl rfl)
    · next htask =>
      cases hs
      refine changesAt_setTask (fun _ _ ↦ ⟨rfl, rfl, rfl⟩) ?_ id
      rw [htask]
      exact .worked rfl (.inl rfl)
    · cases hs
  | finishStaging own =>
    simp only [Imports.next] at hs
    split at hs
    · next sha htask =>
      cases hs
      exact changesAt_guarded htask (fun im hrunning ↦ .finished hrunning) id
    · cases hs
  | fail own =>
    simp only [Imports.next] at hs
    split at hs
    · next error htask =>
      cases hs
      exact changesAt_guarded htask (fun im hrunning ↦ .failed hrunning (.inl rfl)) id
    · cases hs
  | dropTask own =>
    cases hs
    exact changesAt_setTask (fun _ _ ↦ ⟨rfl, rfl, rfl⟩) .dropped id
  | failOrphaned =>
    cases hs
    unfold ChangesAt failOrphanedImports
    dsimp only
    rw [Table.get_map]
    cases him : s.imports.get id with
    | none => exact .same
    | some im =>
      rw [Option.map_some]
      split
      · next hrunning => exact .failed hrunning (.inr rfl)
      · exact .same
  | expire =>
    cases hs
    unfold ChangesAt expireUnconfirmedImports
    dsimp only
    rw [Table.get_map]
    cases him : s.imports.get id with
    | none => exact .same
    | some im =>
      rw [Option.map_some, Option.any_some]
      split
      · next hstale => exact .expired (of_decide_eq_true hstale).1
      · exact .same
  | confirm own admin =>
    simp only [Imports.next, confirmImport] at hs
    split at hs
    · cases hs
    · next im him =>
      split at hs
      · cases hs
      · split at hs
        · cases hs
        · next hstaged =>
          cases hs
          unfold ChangesAt
          dsimp only
          by_cases hid : id = own
          · subst hid
            rw [him, Table.get_put_self]
            exact .confirmed (not_not.1 hstaged)
          · rw [Table.get_put_of_ne hid]
            exact .same
  | deleteInputData key =>
    cases hs
    exact .same

end Changes

section Lifecycle

variable {I U : Type} {now : ℕ} {im im' : Option (Import U)} {rows rows' : List ImportRow}
  {task task' : Option Task}
variable {a b c : Import U}

def ImportState.canBecome : ImportState → ImportState → Bool
  | .running, _ => true
  | .staged, state => state = .staged ∨ state = .confirmed ∨ state = .cancelled
  | state, state' => state' = state

theorem ImportState.canBecome_trans {x y z : ImportState} (h : x.canBecome y = true)
    (h' : y.canBecome z = true) :
    x.canBecome z = true := by
  revert h h'
  cases x <;> cases y <;> cases z <;> decide

theorem ImportState.canBecome_shown {x y : ImportState} (h : x.canBecome y = true)
    (hx : x ≠ .running ∧ x ≠ .failed) :
    y ≠ .running ∧ y ≠ .failed := by
  revert h hx
  cases x <;> cases y <;> decide

structure Import.Later (a b : Import U) : Prop where
  tarballDate : b.tarballDate = a.tarballDate
  commitSha : b.commitSha = a.commitSha
  requestedBy : b.requestedBy = a.requestedBy
  requestedAt : b.requestedAt = a.requestedAt
  state : a.state.canBecome b.state = true
  settled : a.state ≠ .running → a.state ≠ .staged → b = a

theorem Import.Later.refl (a : Import U) : a.Later a :=
  ⟨rfl, rfl, rfl, rfl, by cases a.state <;> rfl, fun _ _ ↦ rfl⟩

theorem Import.Later.trans (h : a.Later b) (h' : b.Later c) : a.Later c where
  tarballDate := h'.tarballDate.trans h.tarballDate
  commitSha := h'.commitSha.trans h.commitSha
  requestedBy := h'.requestedBy.trans h.requestedBy
  requestedAt := h'.requestedAt.trans h.requestedAt
  state := ImportState.canBecome_trans h.state h'.state
  settled hrunning hstaged := by
    have hb := h.settled hrunning hstaged
    rw [h'.settled (hb ▸ hrunning) (hb ▸ hstaged), hb]

def Import.Consistent (i : Import U) (rows : List ImportRow) (task : Option Task) : Prop :=
  match i.state with
  | .running => i.error = none ∧ i.confirmedAt = none ∧ i.tarballSha256 = none
  | .staged => i.error = none ∧ i.confirmedAt = none ∧ i.tarballSha256.isSome = true ∧
      rows.any ImportRow.isProposed = true ∧ task = none
  | .nothingNew => i.error = none ∧ i.confirmedAt = none ∧ i.tarballSha256.isSome = true ∧
      rows.any ImportRow.isProposed = false ∧ task = none
  | .confirmed => i.error = none ∧ i.confirmedAt.isSome = true ∧ i.tarballSha256.isSome = true ∧
      rows.any ImportRow.isProposed = true ∧ task = none
  | .cancelled => i.error = some .notConfirmed ∧ i.confirmedAt = none ∧
    i.tarballSha256.isSome = true ∧
      rows = [] ∧ task = none
  | .failed => i.error.isSome = true ∧ i.confirmedAt = none ∧ i.tarballSha256 = none

theorem Import.Consistent.busy {k : Task} (h : a.Consistent rows (some k)) :
    (a.state = .running ∨ a.state = .failed) ∧ ∀ rows' task', a.Consistent rows' task' := by
  unfold Import.Consistent at h ⊢
  cases hstate : a.state <;> simp_all

theorem Import.Consistent.drop (h : a.Consistent rows task) : a.Consistent rows none := by
  unfold Import.Consistent at h ⊢
  cases hstate : a.state <;> simp_all

theorem Import.Consistent.failed (h : a.Consistent rows task) (hrunning : a.state = .running)
    (error : ImportError) (rows' : List ImportRow) (task' : Option Task) :
    (failed error a).Consistent rows' task' := by
  unfold Import.Consistent at h
  rw [hrunning] at h
  exact ⟨rfl, h.2.1, h.2.2⟩

structure Good (im : Option (Import U)) (rows : List ImportRow) (task : Option Task) : Prop where
  fresh : im = none → task = none ∧ rows = []
  early : ∀ k, task = some k → k.isEarly = true → rows = []
  working : ∀ k, task = some k → (k.done.map ImportRow.key).Nodup
  nodup : (rows.map ImportRow.key).Nodup
  consistent : ∀ i, im = some i → i.Consistent rows task

theorem nodup_insertRow {row : ImportRow} (h : (rows.map ImportRow.key).Nodup) :
    ((insertRow rows row).map ImportRow.key).Nodup := by
  unfold insertRow
  split
  · exact h
  · next hnew =>
    rw [List.map_append, List.map_singleton, List.nodup_append]
    refine ⟨h, List.nodup_singleton _, fun key hkey key' hkey' heq ↦ hnew ?_⟩
    obtain ⟨row', hmem, rfl⟩ := List.mem_map.1 hkey
    rw [List.mem_singleton] at hkey'
    exact List.any_eq_true.2 ⟨row', hmem, decide_eq_true (heq.trans hkey')⟩

theorem Good.changes (h : Good im rows task) (hchange : Changes now im rows task im' rows' task') :
    Good im' rows' task' := by
  cases hchange with
  | same => exact h
  | started hdate =>
    obtain ⟨-, rfl⟩ := h.fresh rfl
    refine ⟨fun hnone ↦ (by cases hnone), fun _ _ _ ↦ rfl, fun k hk ↦ ?_, List.nodup_nil,
      fun i hi ↦ ?_⟩
    · cases hk
      exact List.nodup_nil
    · cases hi
      exact ⟨rfl, rfl, rfl⟩
  | worked hearly hdone =>
    refine ⟨fun hnone ↦ ?_, fun k _ _ ↦ h.early _ rfl hearly, fun k hk ↦ ?_, h.nodup, fun i hi ↦ ?_⟩
    · cases (h.fresh hnone).1
    · cases hk
      have hworking := h.working _ rfl
      rcases hdone with hdone | hdone | ⟨row, hdone⟩
      · rw [hdone]
        exact List.nodup_nil
      · rwa [hdone]
      · rw [hdone]
        exact nodup_insertRow hworking
    · exact (h.consistent i hi).busy.2 _ _
  | committed hearly hlate =>
    have hrows := h.early _ rfl hearly
    refine ⟨fun hnone ↦ ?_, fun k hk hearly' ↦ ?_, fun k hk ↦ ?_, ?_, fun i hi ↦ ?_⟩
    · cases (h.fresh hnone).1
    · cases hk
      exact Bool.noConfusion (hlate.symm.trans hearly')
    · cases hk
      rename_i k'
      cases k' with
      | fetching => exact List.nodup_nil
      | staging sha done known rest => cases hlate
      | finishing sha => exact List.nodup_nil
      | failing error => exact List.nodup_nil
    · rw [hrows, List.nil_append]
      exact h.working _ rfl
    · exact (h.consistent i hi).busy.2 _ _
  | finished hrunning =>
    refine ⟨fun hnone ↦ (by cases hnone), fun k hk ↦ (by cases hk), fun k hk ↦
      (by cases hk), h.nodup, fun i hi ↦ ?_⟩
    cases hi
    have hconsistent := h.consistent _ rfl
    simp only [Import.Consistent, hrunning] at hconsistent
    unfold Imports.finished
    by_cases hany : rows.any ImportRow.isProposed = true
    · simp only [hany, if_true]
      exact ⟨hconsistent.1, hconsistent.2.1, rfl, hany, rfl⟩
    · simp only [hany]
      exact ⟨hconsistent.1, hconsistent.2.1, rfl, Bool.eq_false_iff.2 hany, rfl⟩
  | failed hrunning htask =>
    have hconsistent := h.consistent _ rfl
    rcases htask with rfl | rfl
    · refine ⟨fun hnone ↦ (by cases hnone), fun k hk ↦ (by cases hk), fun k hk ↦
        (by cases hk), h.nodup, fun i hi ↦ ?_⟩
      cases hi
      exact hconsistent.failed hrunning _ _ _
    · refine ⟨fun hnone ↦ (by cases hnone), h.early, h.working, h.nodup, fun i hi ↦ ?_⟩
      cases hi
      exact hconsistent.failed hrunning _ _ _
  | dropped =>
    refine ⟨fun hnone ↦ ⟨rfl, (h.fresh hnone).2⟩, fun k hk ↦ (by cases hk), fun k hk ↦
      (by cases hk), h.nodup, fun i hi ↦ (h.consistent i hi).drop⟩
  | expired hstaged =>
    have hconsistent := h.consistent _ rfl
    simp only [Import.Consistent, hstaged] at hconsistent
    obtain ⟨-, hconfirmed, hsha, -, rfl⟩ := hconsistent
    refine ⟨fun hnone ↦ (by cases hnone), fun k hk ↦ (by cases hk), fun k hk ↦ (by cases hk),
      List.nodup_nil, fun i hi ↦ ?_⟩
    cases hi
    exact ⟨rfl, hconfirmed, hsha, rfl, rfl⟩
  | confirmed hstaged =>
    have hconsistent := h.consistent _ rfl
    simp only [Import.Consistent, hstaged] at hconsistent
    obtain ⟨herror, -, hsha, hproposed, rfl⟩ := hconsistent
    refine ⟨fun hnone ↦ (by cases hnone), fun k hk ↦ (by cases hk), fun k hk ↦
      (by cases hk), h.nodup, fun i hi ↦ ?_⟩
    cases hi
    exact ⟨herror, rfl, hsha, hproposed, rfl⟩

/-- An import stays, and what was staged for it stays as it is until it is cancelled. -/
def Keeps (im : Option (Import U)) (rows : List ImportRow) (im' : Option (Import U))
    (rows' : List ImportRow) : Prop :=
  ∀ a, im = some a → ∃ b, im' = some b ∧ a.Later b ∧
    (a.state ≠ .running → a.state ≠ .failed → rows' = if b.state = .cancelled then [] else rows)

theorem Good.keeps (h : Good im rows task) (hchange : Changes now im rows task im' rows' task') :
    Keeps im rows im' rows' := by
  intro a ha
  have hconsistent := h.consistent a ha
  have hsame : a.state ≠ .running → a.state ≠ .failed → rows = if a.state = .cancelled then []
      else rows := by
    intro _ _
    split
    · next hcancelled =>
      simp only [Import.Consistent, hcancelled] at hconsistent
      exact hconsistent.2.2.2.1
    · rfl
  cases hchange with
  | same => exact ⟨a, ha, .refl a, hsame⟩
  | started hdate => cases ha
  | worked hearly hdone => exact ⟨a, ha, .refl a, hsame⟩
  | committed hearly hlate =>
    refine ⟨a, ha, .refl a, fun hrunning hfailed ↦ ?_⟩
    exact (hconsistent.busy.1.elim hrunning hfailed).elim
  | finished hrunning =>
    cases ha
    refine ⟨_, rfl, ⟨rfl, rfl, rfl, rfl, ?_, fun hne ↦ absurd hrunning hne⟩, fun hne ↦
      absurd hrunning hne⟩
    rw [hrunning]
    rfl
  | failed hrunning htask =>
    cases ha
    refine ⟨_, rfl, ⟨rfl, rfl, rfl, rfl, ?_, fun hne ↦ absurd hrunning hne⟩, fun hne ↦
      absurd hrunning hne⟩
    rw [hrunning]
    rfl
  | dropped => exact ⟨a, ha, .refl a, hsame⟩
  | expired hstaged =>
    cases ha
    refine ⟨_, rfl, ⟨rfl, rfl, rfl, rfl, ?_, fun _ hne ↦ absurd hstaged hne⟩, fun _ _ ↦ rfl⟩
    rw [hstaged]
    rfl
  | confirmed hstaged =>
    cases ha
    refine ⟨_, rfl, ⟨rfl, rfl, rfl, rfl, ?_, fun _ hne ↦ absurd hstaged hne⟩, fun _ _ ↦ rfl⟩
    rw [hstaged]
    rfl

theorem Keeps.trans {im'' : Option (Import U)} {rows'' : List ImportRow}
    (h : Keeps im rows im' rows') (h' : Keeps im' rows' im'' rows'') :
    Keeps im rows im'' rows'' := by
  intro a ha
  obtain ⟨b, hb, hlater, hrows⟩ := h a ha
  obtain ⟨c, hc, hlater', hrows'⟩ := h' b hb
  refine ⟨c, hc, hlater.trans hlater', fun hrunning hfailed ↦ ?_⟩
  obtain ⟨hrunning', hfailed'⟩ := ImportState.canBecome_shown hlater.state ⟨hrunning, hfailed⟩
  rw [hrows' hrunning' hfailed', hrows hrunning hfailed]
  by_cases hcancelled : b.state = .cancelled
  · have hsettled := hlater'.settled hrunning' (by rw [hcancelled]; decide)
    rw [if_pos hcancelled, ite_self, hsettled, if_pos hcancelled]
  · rw [if_neg hcancelled]

end Lifecycle

section Confirm

variable {I U : Type} {t : Table Key (InputData U)} {tarballDate : List Char} {admin : U}
  {rows : List ImportRow}

def proposal (rows : List ImportRow) (tarballDate : List Char) (admin : U) (key : Key) :
    Option (InputData U) :=
  (rows.find? (·.key = key)).map (·.toInputData tarballDate admin)

theorem get_insertInputData (tarballDate : List Char) (admin : U) (row : ImportRow)
    (acc : Table Key (InputData U) × ℕ) :
    (insertInputData tarballDate admin acc row).1.get row.key =
      (acc.1.get row.key).or (some (row.toInputData tarballDate admin)) ∧
    ∀ key, key ≠ row.key → (insertInputData tarballDate admin acc row).1.get key =
    acc.1.get key := by
  unfold insertInputData
  split
  · next hsome =>
    obtain ⟨old, hold⟩ := Option.isSome_iff_exists.1 hsome
    rw [hold]
    exact ⟨rfl, fun _ _ ↦ rfl⟩
  · next hnone =>
    rw [Option.not_isSome_iff_eq_none] at hnone
    rw [hnone]
    exact ⟨Table.get_put_self, fun key hne ↦ Table.get_put_of_ne hne⟩

theorem foldl_insertInputData (tarballDate : List Char) (admin : U)
    (hnodup : (rows.map ImportRow.key).Nodup) (n : ℕ) :
    (∀ key, (rows.foldl (insertInputData tarballDate admin) (t, n)).1.get key =
      (t.get key).or (proposal rows tarballDate admin key)) ∧
    (rows.foldl (insertInputData tarballDate admin) (t, n)).2 =
      n + rows.countP fun row ↦ (t.get row.key).isNone := by
  induction rows generalizing t n with
  | nil => exact ⟨fun key ↦ (Option.or_none ..).symm, rfl⟩
  | cons row rows ih =>
    rw [List.map_cons, List.nodup_cons] at hnodup
    obtain ⟨hself, hother⟩ := get_insertInputData tarballDate admin row (t, n)
    have hrest : ∀ row' ∈ rows, (insertInputData tarballDate admin (t, n) row).1.get row'.key =
        t.get row'.key :=
      fun row' hrow' ↦ hother _ fun heq ↦ hnodup.1 (heq ▸ List.mem_map_of_mem hrow')
    have hcounted : (insertInputData tarballDate admin (t, n) row).2 =
        n + if (t.get row.key).isNone = true then 1 else 0 := by
      unfold insertInputData
      cases t.get row.key <;> rfl
    rw [List.foldl_cons]
    generalize insertInputData tarballDate admin (t, n) row = acc at hself hother hrest hcounted ⊢
    obtain ⟨u, m⟩ := acc
    obtain ⟨hget, hcount⟩ := ih (t := u) hnodup.2 m
    dsimp only at hself hother hrest hcounted
    constructor
    · intro key
      rw [hget key]
      by_cases hkey : key = row.key
      · subst hkey
        rw [hself, proposal, proposal, List.find?_cons_of_pos (by simp), Option.or_assoc]
        rfl
      · rw [hother key hkey, proposal, proposal,
          List.find?_cons_of_neg (by simpa using Ne.symm hkey)]
    · have hsame : rows.countP (fun row' ↦ (u.get row'.key).isNone) = rows.countP fun row' ↦
          (t.get row'.key).isNone :=
        List.countP_congr fun row' hrow' ↦ by rw [hrest row' hrow']
      rw [hcount, hcounted, hsame, List.countP_cons]
      omega

end Confirm

section Formed

variable {digest : Bytes → String} {raw : List RawEntry} {g : Named} {file row : ImportedFile}

/-- A row that the walk of an archive makes: found under its role and its name, with its bytes where
the server reads them, and an object where it builds from them. -/
structure Formed (digest : Bytes → String) (path : List Char) (role : InputRole) (name : List Char)
    (sha256 : String) (content : Option Bytes) (objectKey : Option String) : Prop where
  located : path = role.directory ++ '/' :: (name ++ role.suffix)
  hashed : ∃ bytes, sha256 = digest bytes
  kept : content.isSome = keepsContent role
  stored : objectKey = if storesObject role then some ("inputs/" ++ sha256) else none

def FileFormed (digest : Bytes → String) (file : ImportedFile) : Prop :=
  Formed digest file.path file.role file.name file.sha256 file.content file.objectKey

theorem formed_of_file (h : g.file digest = some file) : FileFormed digest file := by
  obtain ⟨-, path, role, name, hpinned, rfl⟩ := of_file h
  obtain ⟨entryPath, hclassify⟩ := classify_of_pinned hpinned
  refine ⟨(classify_eq_some hclassify).1, ⟨_, rfl⟩, ?_, rfl⟩
  dsimp only [Inputdata.hashed]
  cases keepsContent role <;> rfl

theorem formed_of_reaches (h : Reaches digest raw g file) : FileFormed digest file := by
  induction h with
  | file _ _ hfile _ => exact formed_of_file hfile
  | link _ _ _ _ _ ih => exact ih

theorem formed_of_isAlias (h : IsAlias digest raw g row) : FileFormed digest row := by
  obtain ⟨path, role, name, file, hpinned, hreach, rfl, rfl⟩ := h
  obtain ⟨entryPath, hclassify⟩ := classify_of_pinned hpinned
  have hfile := formed_of_reaches hreach
  exact ⟨(classify_eq_some hclassify).1, hfile.hashed, hfile.kept, hfile.stored⟩

theorem formed_of_walkArchive {compressed : ℕ} {entries : List (Option RawEntry)}
    {files : List ImportedFile} (h : walkArchive digest compressed entries = .ok files) :
    ∀ row ∈ files, FileFormed digest row := by
  obtain ⟨w, hrun, h⟩ := bind_eq_ok h
  obtain ⟨⟨files', total⟩, haliases, h⟩ := bind_eq_ok h
  obtain ⟨-, -, h⟩ := bind_eq_ok h
  cases h
  have hstands : Stands [] Walk.empty := ⟨rfl, rfl⟩
  obtain ⟨raw, rfl, hwalked⟩ := walked_of_run hstands hrun
  have hfiles : w.files = (named raw).filterMap (Named.file digest) := hwalked.files
  have hlinks : w.links = (named raw).filterMap Named.link := hwalked.links
  have hnamed : ∀ link ∈ w.links, ∃ g ∈ named raw, g.link = some link :=
    fun link hlink ↦ List.mem_filterMap.1 (hlinks ▸ hlink)
  have hrows : ∀ row ∈ w.files, ∃ g ∈ named raw, g.file digest = some row :=
    fun row hrow ↦ List.mem_filterMap.1 (hfiles ▸ hrow)
  obtain ⟨aliases, rfl, hforall⟩ := aliases_of_run
    (fun row hrow ↦ (hrows row hrow).imp fun _ ↦ And.imp_right .inl) hnamed (fun _ ↦ id) haliases
  intro row hrow
  rcases List.mem_append.1 hrow with hrow | hrow
  · obtain ⟨g, -, hfile⟩ := hrows row hrow
    exact formed_of_file hfile
  · obtain ⟨link, hlink, -, halias⟩ := exists_of_forall₂ hforall.flip hrow
    obtain ⟨g, hg, hg'⟩ := hnamed link hlink
    exact formed_of_isAlias (halias g hg hg')

end Formed

section Sound

variable {I U : Type} {digest : Bytes → String}

def ImportRow.Formed (digest : Bytes → String) (row : ImportRow) : Prop :=
  Imports.Formed digest row.path row.role row.name row.sha256 row.content row.objectKey

def InputData.Formed (digest : Bytes → String) (key : Key) (row : InputData U) : Prop :=
  Imports.Formed digest key.1 row.role row.name key.2 row.content row.objectKey ∧
    validDate row.tarballDate = true

def TaskFormed (digest : Bytes → String) : Option Task → Prop
  | some (.staging _ done _ rest) => (∀ row ∈ done, row.Formed digest) ∧ ∀ file ∈ rest,
    FileFormed digest file
  | _ => True

structure Sound (digest : Bytes → String) (s : State I U) : Prop where
  tasks : ∀ id, TaskFormed digest (s.tasks id)
  rows : ∀ id, ∀ row ∈ s.rows id, row.Formed digest
  inputData : ∀ key row, s.inputData.get key = some row → row.Formed digest key

theorem of_mem_insertRow {rows : List ImportRow} {row row' : ImportRow}
    (h : row' ∈ insertRow rows row) :
    row' ∈ rows ∨ row' = row := by
  unfold insertRow at h
  split at h
  · exact .inl h
  · exact (List.mem_append.1 h).imp_right List.mem_singleton.1

theorem validDate_of_changes {now : ℕ} {im im' : Option (Import U)} {rows rows' : List ImportRow}
    {task task' : Option Task} (h : Changes now im rows task im' rows' task')
    (hdate : ∀ i, im = some i → validDate i.tarballDate = true) :
    ∀ i, im' = some i → validDate i.tarballDate = true := by
  intro i hi
  cases h with
  | same => exact hdate i hi
  | started hvalid =>
    cases hi
    exact hvalid
  | worked => exact hdate i hi
  | committed => exact hdate i hi
  | finished =>
    have hold := hdate _ rfl
    cases hi
    exact hold
  | failed =>
    have hold := hdate _ rfl
    cases hi
    exact hold
  | dropped => exact hdate i hi
  | expired =>
    have hold := hdate _ rfl
    cases hi
    exact hold
  | confirmed =>
    have hold := hdate _ rfl
    cases hi
    exact hold

variable [DecidableEq I] {s t : State I U}

theorem Sound.setTask (h : Sound digest s) (id : I) {task : Option Task}
    (htask : TaskFormed digest task) :
    Sound digest (setTask s id task) where
  tasks id' := by
    unfold Imports.setTask
    dsimp only
    by_cases hid : id' = id
    · rwa [hid, Function.update_self]
    · rw [Function.update_of_ne hid]
      exact h.tasks id'
  rows := h.rows
  inputData := h.inputData

theorem Sound.updateRunning (h : Sound digest s) (id : I) (f : Import U → Import U) :
    Sound digest (updateRunning s id f) := by
  unfold Imports.updateRunning
  split
  · split
    · exact ⟨h.tasks, h.rows, h.inputData⟩
    · exact h
  · exact h

theorem formed_of_proposal {rows : List ImportRow} {tarballDate : List Char} {admin : U} {key : Key}
    {row : InputData U} (h : proposal rows tarballDate admin key = some row)
    (hrows : ∀ row ∈ rows, row.Formed digest) (hdate : validDate tarballDate = true) :
    row.Formed digest key := by
  obtain ⟨found, hfound, rfl⟩ := Option.map_eq_some_iff.1 h
  have hkey : found.key = key := of_decide_eq_true (List.find?_some hfound :)
  subst hkey
  exact ⟨hrows found (List.mem_of_find?_eq_some hfound), hdate⟩

theorem confirmImport_eq_ok {id : I} {admin : U} {inserted : ℕ}
    (h : confirmImport s id admin = .ok (inserted, t)) :
    ∃ im, s.imports.get id = some im ∧ im.state = .staged ∧
      (t.inputData, inserted) = ((s.rows id).filter ImportRow.isProposed).foldl
        (insertInputData im.tarballDate admin) (s.inputData, 0) ∧
      t.rows = s.rows ∧ t.tasks = s.tasks ∧
      t.imports = s.imports.put id { im with state := .confirmed, confirmedAt := some s.now } := by
  unfold confirmImport at h
  split at h
  · cases h
  · next im him =>
    split at h
    · cases h
    · split at h
      · cases h
      · next hstaged =>
        cases h
        exact ⟨im, him, not_not.1 hstaged, rfl, rfl, rfl, rfl⟩

theorem Sound.confirm (h : Sound digest s)
    (hgood : ∀ id, Good (s.imports.get id) (s.rows id) (s.tasks id))
    (hdates : ∀ id im, s.imports.get id = some im → validDate im.tarballDate = true)
    {id : I} {admin : U} {inserted : ℕ} (hs : confirmImport s id admin = .ok (inserted, t)) :
    Sound digest t := by
  obtain ⟨im, him, -, hinserted, hrows, htasks, -⟩ := confirmImport_eq_ok hs
  refine ⟨fun id ↦ htasks ▸ h.tasks id, fun id ↦ hrows ▸ h.rows id, fun key row hget ↦ ?_⟩
  have hnodup := ((List.filter_sublist (p := ImportRow.isProposed)).map ImportRow.key).nodup
    (hgood id).nodup
  have hall := (foldl_insertInputData (t := s.inputData) im.tarballDate admin hnodup 0).1 key
  rw [← hinserted] at hall
  rw [show t.inputData.get key = _ from hall, Option.or_eq_some_iff] at hget
  rcases hget with hget | ⟨-, hget⟩
  · exact h.inputData key row hget
  · exact formed_of_proposal hget (fun row hrow ↦ h.rows id row (List.mem_filter.1 hrow).1)
      (hdates id im him)

theorem Sound.next (h : Sound digest s)
    (hgood : ∀ id, Good (s.imports.get id) (s.rows id) (s.tasks id))
    (hdates : ∀ id im, s.imports.get id = some im → validDate im.tarballDate = true)
    {a : Action I U} (hs : Imports.next digest s a = some t) : Sound digest t := by
  cases a with
  | elapse duration =>
    cases hs
    exact ⟨h.tasks, h.rows, h.inputData⟩
  | start own tarballDate commitSha admin =>
    simp only [Imports.next, Option.ite_none_right_eq_some, Option.some.injEq] at hs
    obtain ⟨-, rfl⟩ := hs
    unfold startImport
    refine Sound.setTask ?_ own trivial
    exact ⟨h.tasks, h.rows, h.inputData⟩
  | fetched own sha compressed entries =>
    simp only [Imports.next] at hs
    split at hs
    · cases hs
      refine h.setTask own ?_
      split
      · next files hwalk => exact ⟨fun row hrow ↦ (by cases hrow), formed_of_walkArchive hwalk⟩
      · trivial
    · cases hs
  | readPath own =>
    simp only [Imports.next] at hs
    split at hs
    · next htask =>
      have hformed := h.tasks own
      rw [htask] at hformed
      cases hs
      exact h.setTask own hformed
    · cases hs
  | stageFile own =>
    simp only [Imports.next] at hs
    split at hs
    · next htask =>
      have hformed := h.tasks own
      rw [htask] at hformed
      cases hs
      refine h.setTask own ⟨fun row hrow ↦ ?_, fun file hfile ↦
        hformed.2 file (List.mem_cons_of_mem _ hfile)⟩
      rcases of_mem_insertRow hrow with hrow | rfl
      · exact hformed.1 row hrow
      · exact hformed.2 _ List.mem_cons_self
    · cases hs
  | commitStage own late =>
    simp only [Imports.next] at hs
    split at hs
    · next sha done htask =>
      have hformed := h.tasks own
      rw [htask] at hformed
      cases hs
      refine Sound.setTask ?_ own (by cases late <;> trivial)
      refine ⟨h.tasks, fun id row hrow ↦ ?_, h.inputData⟩
      dsimp only at hrow
      by_cases hid : id = own
      · rw [hid, Function.update_self] at hrow
        exact (List.mem_append.1 hrow).elim (h.rows own row) (hformed.1 row)
      · rw [Function.update_of_ne hid] at hrow
        exact h.rows id row hrow
    · cases hs
  | giveUp own error =>
    simp only [Imports.next] at hs
    split at hs
    · cases hs
      exact h.setTask own trivial
    · cases hs
      exact h.setTask own trivial
    · cases hs
  | finishStaging own =>
    simp only [Imports.next] at hs
    split at hs
    · cases hs
      exact (h.updateRunning own _).setTask own trivial
    · cases hs
  | fail own =>
    simp only [Imports.next] at hs
    split at hs
    · cases hs
      exact (h.updateRunning own _).setTask own trivial
    · cases hs
  | dropTask own =>
    cases hs
    exact h.setTask own trivial
  | failOrphaned =>
    cases hs
    exact ⟨h.tasks, h.rows, h.inputData⟩
  | expire =>
    cases hs
    refine ⟨h.tasks, fun id row hrow ↦ ?_, h.inputData⟩
    dsimp only [expireUnconfirmedImports] at hrow
    split at hrow
    · cases hrow
    · exact h.rows id row hrow
  | confirm own admin =>
    simp only [Imports.next] at hs
    cases hconfirm : confirmImport s own admin with
    | error e =>
      rw [hconfirm] at hs
      cases hs
    | ok result =>
      rw [hconfirm] at hs
      cases hs
      exact h.confirm hgood hdates hconfirm
  | deleteInputData key =>
    cases hs
    refine ⟨h.tasks, h.rows, fun key' row hget ↦ ?_⟩
    dsimp only at hget
    rw [Table.get_filter] at hget
    split at hget
    · exact h.inputData key' row hget
    · cases hget

end Sound

section Results

variable {I U : Type} [DecidableEq I] {digest : Bytes → String} {s t u : State I U} {id : I}
  {im : Import U}

theorem good_of_reachable (h : (machine I U digest).Reachable s) (id : I) :
    Good (s.imports.get id) (s.rows id) (s.tasks id) := by
  refine h.invariant (I := fun s ↦ ∀ id, Good (s.imports.get id) (s.rows id) (s.tasks id))
    (fun s hs id ↦ ?_)
    (fun s a t hgood _ hs id ↦ (hgood id).changes (next_changes hs id)) id
  obtain ⟨now, rfl⟩ := hs
  exact ⟨fun _ ↦ ⟨rfl, rfl⟩, fun k hk ↦ (by cases hk), fun k hk ↦ (by cases hk), List.nodup_nil,
    fun i hi ↦ (by cases hi)⟩

theorem validDate_of_reachable (h : (machine I U digest).Reachable s) :
    ∀ id im, s.imports.get id = some im → validDate im.tarballDate = true := by
  refine h.invariant (I := fun s ↦ ∀ id im, s.imports.get id = some im →
    validDate im.tarballDate = true)
    (fun s hs id im him ↦ ?_) fun s a t hdates _ hs id ↦
      validDate_of_changes (next_changes hs id) (hdates id)
  obtain ⟨now, rfl⟩ := hs
  cases him

theorem sound_of_reachable (h : (machine I U digest).Reachable s) : Sound digest s := by
  refine h.invariant_of (J := fun s ↦ (∀ id, Good (s.imports.get id) (s.rows id) (s.tasks id)) ∧
    ∀ id im, s.imports.get id = some im → validDate im.tarballDate = true)
    (fun s hs ↦ ⟨good_of_reachable hs, validDate_of_reachable hs⟩) (fun s hs ↦ ?_)
    fun s a t hJ hsound _ hs ↦ hsound.next hJ.1 hJ.2 hs
  obtain ⟨now, rfl⟩ := hs
  exact ⟨fun _ ↦ trivial, fun id row hrow ↦ (by cases hrow), fun key row hget ↦ (by cases hget)⟩

theorem keeps_of_reachable (h : (machine I U digest).Reachable s)
    (ht : ((machine I U digest).startingAt s).Reachable t)
    (id : I) : Keeps (s.imports.get id) (s.rows id) (t.imports.get id) (t.rows id) := by
  have hboth : (machine I U digest).Reachable t ∧
      Keeps (s.imports.get id) (s.rows id) (t.imports.get id) (t.rows id) := by
    refine ht.invariant (I := fun t ↦ (machine I U digest).Reachable t ∧
      Keeps (s.imports.get id) (s.rows id) (t.imports.get id) (t.rows id))
      (fun s' hs' ↦ ?_) fun s' a t' hI _ hs' ↦ ?_
    · have hs' : s' = s := hs'
      subst hs'
      exact ⟨h, (good_of_reachable h id).keeps (Changes.same : Changes s'.now _ _ _ _ _ _)⟩
    · exact ⟨.step hI.1 trivial hs',
        hI.2.trans ((good_of_reachable hI.1 id).keeps (next_changes hs' id))⟩
  exact hboth.2

theorem imports_settle (h : (machine I U digest).Reachable s)
    (ht : ((machine I U digest).startingAt s).Reachable t)
    (him : s.imports.get id = some im) :
    ∃ later, t.imports.get id = some later ∧ im.Later later ∧
    later.Consistent (t.rows id) (t.tasks id) ∧
      (im.state ≠ .running → im.state ≠ .failed →
        t.rows id = if later.state = .cancelled then [] else s.rows id) := by
  obtain ⟨later, hlater, hthen, hrows⟩ := keeps_of_reachable h ht id im him
  exact ⟨later, hlater, hthen, (good_of_reachable (h.trans ht) id).consistent later hlater, hrows⟩

theorem confirm_inserts_as_shown (h : (machine I U digest).Reachable s)
    (him : s.imports.get id = some im) (hshown : im.state = .staged)
    (ht : ((machine I U digest).startingAt s).Reachable t) {admin : U} {inserted : ℕ}
    (hconfirm : confirmImport t id admin = .ok (inserted, u)) :
    (∀ key, u.inputData.get key = (t.inputData.get key).or
      (proposal ((s.rows id).filter ImportRow.isProposed) im.tarballDate admin key)) ∧
    inserted = ((s.rows id).filter ImportRow.isProposed).countP
    (fun row ↦ (t.inputData.get row.key).isNone) ∧
    ∀ v, ((machine I U digest).startingAt u).Reachable v → ∀ admin',
      confirmImport v id admin' = .error (.notStaged .confirmed) := by
  obtain ⟨now, hnow, hlater, hrows⟩ := keeps_of_reachable h ht id im him
  obtain ⟨now', hnow', hstaged, hinserted, -, -, himports⟩ := confirmImport_eq_ok hconfirm
  cases hnow.symm.trans hnow'
  have hsame : t.rows id = s.rows id := by
    rw [hrows (by rw [hshown]; decide) (by rw [hshown]; decide), hstaged]
    rfl
  have hnodup := ((List.filter_sublist (p := ImportRow.isProposed)).map ImportRow.key).nodup
    (good_of_reachable (h.trans ht) id).nodup
  obtain ⟨hget, hcount⟩ := foldl_insertInputData (t := t.inputData) now.tarballDate admin hnodup 0
  rw [← hinserted, hsame, hlater.tarballDate] at hget
  rw [← hinserted, hsame, Nat.zero_add] at hcount
  refine ⟨hget, hcount, fun v hv admin' ↦ ?_⟩
  have hu : (machine I U digest).Reachable u := by
    refine .step (a := .confirm id admin) (h.trans ht) trivial ?_
    simp only [machine, next, hconfirm]
    rfl
  have hu_get :
      u.imports.get id = some { now with state := .confirmed, confirmedAt := some t.now } := by
    rw [himports, Table.get_put_self]
  obtain ⟨last, hlast, hsettled, -⟩ := keeps_of_reachable hu hv id _ hu_get
  rw [hsettled.settled (by simp) (by simp)] at hlast
  simp only [confirmImport, hlast]
  rfl

/-- `sha256 ~ '^[0-9a-f]{64}$'` -/
def isHexDigest (text : String) : Bool :=
  text.length = 64 ∧ text.toList.all fun c ↦ c.isDigit ∨ 'a' ≤ c ∧ c ≤ 'f'

def passesChecks (key : Key) (row : InputData U) : Bool :=
  isHexDigest key.2 ∧ validDate row.tarballDate ∧ keepsContent row.role = row.content.isSome

theorem input_data_wellformed (hdigest : ∀ bytes, isHexDigest (digest bytes) = true)
    (h : (machine I U digest).Reachable s) {key : Key} {row : InputData U}
    (hrow : s.inputData.get key = some row) :
    passesChecks key row = true ∧ key.1 = row.role.directory ++
    '/' :: (row.name ++ row.role.suffix) ∧
      row.objectKey = if storesObject row.role then some ("inputs/" ++ key.2) else none := by
  obtain ⟨⟨hlocated, ⟨bytes, hhashed⟩, hkept, hstored⟩, hdate⟩ :=
    (sound_of_reachable h).inputData key row hrow
  refine ⟨?_, hlocated, hstored⟩
  rw [passesChecks, decide_eq_true_eq]
  exact ⟨hhashed ▸ hdigest bytes, hdate, hkept.symm⟩

def reviewed : List (Action ℕ ℕ) :=
  [.start 1 "20260101".toList "c0ffee" 0, .fetched 1 "aa" 1000 aliasedArchive, .readPath 1,
    .stageFile 1, .readPath 1, .stageFile 1, .commitStage 1 false, .finishStaging 1]

def abcSha256 (_ : Bytes) : String :=
  "ba7816bf8f01cfea414140de5dae2223b00361a396177a9cb410ff61f20015ad"

def fresh : State ℕ ℕ := ⟨0, Table.empty, fun _ ↦ [], Table.empty, fun _ ↦ none⟩

theorem reachable_fresh : (machine ℕ ℕ abcSha256).Reachable fresh := .start ⟨0, rfl⟩

/-- A day passes before the admin confirms. -/
theorem exists_imports_settle : ∃ s t : State ℕ ℕ, s.rows 1 ≠ [] ∧ t.rows 1 = [] ∧
    ∃ im later : Import ℕ,
    t.imports.get 1 = some later ∧ im.Later later := by
  obtain ⟨s, hs, hp⟩ := reachable_fresh.follow_any reviewed
    (fun s ↦ (s.imports.get 1).any (·.state = .staged) ∧ s.rows 1 ≠ [] ∧
      ((machine ℕ ℕ abcSha256).follow (fun _ _ ↦ True) s [.elapse 100000, .expire]).any
        fun t ↦ t.rows 1 = [])
    (by decide +kernel)
  obtain ⟨hstaged, hrows, hrun⟩ := of_decide_eq_true hp
  obtain ⟨im, him, -⟩ := (Option.any_eq_true ..).1 hstaged
  obtain ⟨t, ht, hempty⟩ := (Machine.ReachableBy.start rfl :
    ((machine ℕ ℕ abcSha256).startingAt s).Reachable s).follow_any [.elapse 100000, .expire]
    (fun t ↦ t.rows 1 = []) hrun
  obtain ⟨later, hlater, hthen, -⟩ := imports_settle hs ht him
  exact ⟨s, t, hrows, of_decide_eq_true hempty, im, later, hlater, hthen⟩

theorem exists_confirm_inserts_as_shown : ∃ s u : State ℕ ℕ,
    ((s.rows 1).filter ImportRow.isProposed).countP
      (fun row ↦ (s.inputData.get row.key).isNone) = 2 ∧
    confirmImport u 1 0 = .error (.notStaged .confirmed) := by
  obtain ⟨s, hs, hp⟩ := reachable_fresh.follow_any reviewed
    (fun s ↦ (s.imports.get 1).any (·.state = .staged) ∧
      (confirmImport s 1 0).toOption.any fun result ↦ result.1 = 2) (by decide +kernel)
  obtain ⟨hstaged, hconfirm⟩ := of_decide_eq_true hp
  obtain ⟨im, him, hstate⟩ := (Option.any_eq_true ..).1 hstaged
  obtain ⟨⟨inserted, u⟩, hok, htwo⟩ := (Option.any_eq_true ..).1 hconfirm
  have hok : confirmImport s 1 0 = .ok (inserted, u) := by
    cases hresult : confirmImport s 1 0 with
    | error e =>
      rw [hresult] at hok
      cases hok
    | ok result =>
      rw [hresult] at hok
      exact congrArg Except.ok (Option.some.inj hok)
  obtain ⟨-, hcount, honce⟩ := confirm_inserts_as_shown hs him (of_decide_eq_true hstate)
    (.start rfl) hok
  exact ⟨s, u, hcount ▸ of_decide_eq_true htwo, honce u (.start rfl) 0⟩

theorem exists_input_data_wellformed : ∃ (s : State ℕ ℕ) (row : InputData ℕ),
    s.inputData.get ("lexica/B.kwg".toList, abcSha256 (ascii "abc")) = some row ∧
      passesChecks ("lexica/B.kwg".toList, abcSha256 (ascii "abc")) row = true := by
  obtain ⟨s, hs, hp⟩ := reachable_fresh.follow_any (reviewed ++ [.confirm 1 0])
    (fun s ↦ (s.inputData.get ("lexica/B.kwg".toList, abcSha256 (ascii "abc"))).isSome)
    (by decide +kernel)
  obtain ⟨row, hrow⟩ := Option.isSome_iff_exists.1 hp
  have hdigest : ∀ bytes, isHexDigest (abcSha256 bytes) = true := fun bytes ↦ by
    unfold abcSha256
    decide
  exact ⟨s, row, hrow, (input_data_wellformed hdigest hs hrow).1⟩

end Results

end Birdtest.Inputdata.Imports
