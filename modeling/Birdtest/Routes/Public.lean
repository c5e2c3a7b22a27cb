import Birdtest.Jobs.Finish
import Birdtest.Routes.Generations
import Birdtest.Routes.Positions
import Birdtest.Routes.Workers

namespace Birdtest.Routes

open Birdtest.Base.Paging
open Birdtest.Jobs.Finish (JobType)

variable {J U R : Type}

/-- The tables that the feeds are read from, with the keys that the schema declares. A result is of
its claim's job, and a task is of one job. -/
structure Tables (J U R : Type) where
  claims : List (Claim J U)
  records : List (Record J U R)
  games : List (GameResult J U)
  progress : List (Progress J R)
  claims_nodup : (claims.map (·.id)).Nodup
  records_nodup : (records.map (·.id)).Nodup
  games_nodup : (games.map (·.claim)).Nodup
  progress_nodup : progress.Nodup
  records_claim : ∀ r ∈ records, ∃ c ∈ claims, c.id = r.claim ∧ c.job = r.job
  games_claim : ∀ g ∈ games, ∃ c ∈ claims, c.id = g.claim ∧ c.job = g.job
  inGame_unique : InGameUnique records
  task_job : ∀ r ∈ records, ∀ r' ∈ records, r.task = r'.task → r.job = r'.job

section Route

variable [DecidableEq J] [LinearOrder U] [LinearOrder R]

def recordColumns : Columns (Record J U R) J U Serial :=
  ⟨(·.claim), (·.job), (·.submittedAt), (·.id)⟩

def gameColumns : Columns (GameResult J U) J U U := ⟨(·.claim), (·.job), (·.submittedAt), (·.claim)⟩

inductive Item (J U R : Type)
  | rack (entry : Entry (Record J U R))
  | game (entry : Entry (GameResult J U))
  | leave (row : Progress J R)

/-- `worker` is `?worker=`, resolved: a name may be nobody's. A leave job's racks have no
contributor to filter by. -/
def jobResults (tables : Tables J U R) (uuid : PlainText U) (rack : Text R)
    (jobType : JobType) (job : J) (limit : ℕ) (worker : Option (Option (WorkerFilter U)))
    (cursor : Option Cursor) :
    Page (Item J U R) Cursor :=
  match worker with
  | some none => ⟨[], none⟩
  | none | some (some _) =>
    match jobType with
    | .openingRack => (resultsPage recordColumns tables.claims tables.records (digits _) job limit
        worker.join (resultCursor (digits _) cursor)).map .rack
    | .games | .gamePairs => (resultsPage gameColumns tables.claims tables.games uuid job limit
        worker.join (resultCursor uuid cursor)).map .game
    | .leaveGeneration =>
      (leavePage tables.progress rack job limit (leaveCursor rack cursor)).map .leave

end Route

section Exact

def Item.Before [LinearOrder U] [LinearOrder R] : Item J U R → Item J U R → Prop
  | .rack e, .rack e' => e'.time < e.time ∨ e'.time = e.time ∧ e'.row.id < e.row.id
  | .game e, .game e' => e'.time < e.time ∨ e'.time = e.time ∧ e'.row.claim < e.row.claim
  | .leave p, .leave p' => p'.generation < p.generation ∨
      p'.generation = p.generation ∧ p.rack < p'.rack
  | _, _ => False

variable [DecidableEq J] [LinearOrder U] [LinearOrder R] {tables : Tables J U R}
  {uuid : PlainText U}
variable {text : Text R} {contributors : Contributors U} {limit : ℕ}

/-- The rows of a job that a filter selects; generations count from one. -/
def Item.Selected (tables : Tables J U R) (jobType : JobType) (job : J)
    (worker : Option (WorkerFilter U)) : Item J U R → Prop
  | .rack e => jobType = .openingRack ∧
      Selects recordColumns tables.claims tables.records job worker e
  | .game e => (jobType = .games ∨ jobType = .gamePairs) ∧
      Selects gameColumns tables.claims tables.games job worker e
  | .leave p => jobType = .leaveGeneration ∧ p ∈ tables.progress ∧ p.job = job ∧ 0 < p.generation

theorem exact_rackResults (hlimit : 0 < limit) (job : J) (worker : Option (WorkerFilter U)) :
    Exact (fun c ↦
      (resultsPage recordColumns tables.claims tables.records (digits _) job limit worker
        (resultCursor (digits _) c)).map Item.rack)
      Item.Before (Item.Selected tables .openingRack job worker) := by
  have hclaim : ∀ r ∈ tables.records, ∃ c ∈ tables.claims, c.id = r.claim :=
    fun r hr ↦ (tables.records_claim r hr).imp fun _ hc ↦ ⟨hc.1, hc.2.1⟩
  refine (exact_map_iff (fun _ _ ↦ Item.rack.inj) (fun _ _ ↦ Iff.rfl) fun item ↦ ?_).2
    (exact_resultsPage tables.claims_nodup tables.records_nodup hclaim hlimit)
  cases item <;> simp [Item.Selected]

theorem exact_gameResults (hlimit : 0 < limit) {jobType : JobType}
    (hgames : jobType = .games ∨ jobType = .gamePairs) (job : J)
    (worker : Option (WorkerFilter U)) :
    Exact (fun c ↦ (resultsPage gameColumns tables.claims tables.games uuid job limit worker
        (resultCursor uuid c)).map Item.game)
      Item.Before (Item.Selected tables jobType job worker) := by
  have hclaim : ∀ g ∈ tables.games, ∃ c ∈ tables.claims, c.id = g.claim :=
    fun g hg ↦ (tables.games_claim g hg).imp fun _ hc ↦ ⟨hc.1, hc.2.1⟩
  refine (exact_map_iff (fun _ _ ↦ Item.game.inj) (fun _ _ ↦ Iff.rfl) fun item ↦ ?_).2
    (exact_resultsPage tables.claims_nodup tables.games_nodup hclaim hlimit)
  cases item <;> rcases hgames with rfl | rfl <;> simp [Item.Selected]

/-- No page of a leave job ends at a rack that a cursor cannot hold. -/
def CursorsRead (tables : Tables J U R) (text : Text R) (limit : ℕ) (job : J) : Prop :=
  ∀ p, EndsPage limit (leaveFeed (tables.progress.filter (·.job = job))) p →
    separator ∉ text.print p.rack

theorem exact_leaveResults_iff (hlimit : 0 < limit) (job : J) (worker : Option (WorkerFilter U)) :
    Exact (fun c ↦ (leavePage tables.progress text job limit (leaveCursor text c)).map Item.leave)
        Item.Before (Item.Selected tables .leaveGeneration job worker) ↔
      CursorsRead tables text limit job := by
  refine Iff.trans ?_ (exact_leavePage_iff tables.progress_nodup hlimit)
  refine exact_map_iff (fun _ _ ↦ Item.leave.inj) (fun _ _ ↦ Iff.rfl) fun item ↦ ?_
  cases item <;> simp [Item.Selected]

theorem jobResults_eq (jobType : JobType) (job : J) (worker : Option (WorkerFilter U)) :
    jobResults tables uuid text jobType job limit (worker.map some) = fun c ↦
      match jobType with
      | .openingRack => (resultsPage recordColumns tables.claims tables.records (digits _) job limit
          worker (resultCursor (digits _) c)).map .rack
      | .games | .gamePairs => (resultsPage gameColumns tables.claims tables.games uuid job limit
          worker (resultCursor uuid c)).map .game
      | .leaveGeneration =>
        (leavePage tables.progress text job limit (leaveCursor text c)).map .leave := by
  cases worker <;> rfl

theorem exact_jobResults_iff (hlimit : 0 < limit) (jobType : JobType) (job : J)
    (worker : Option (WorkerFilter U)) :
    Exact (jobResults tables uuid text jobType job limit (worker.map some)) Item.Before
        (Item.Selected tables jobType job worker) ↔
      (jobType = .leaveGeneration → CursorsRead tables text limit job) := by
  rw [jobResults_eq]
  cases jobType with
  | games => exact iff_of_true (exact_gameResults hlimit (.inl rfl) job worker) nofun
  | gamePairs => exact iff_of_true (exact_gameResults hlimit (.inr rfl) job worker) nofun
  | openingRack => exact iff_of_true (exact_rackResults hlimit job worker) nofun
  | leaveGeneration => simpa using exact_leaveResults_iff hlimit job worker

/-- Following the cursors of the public feeds gives what the filter selects, each once and in order,
unless a page of a leave job ends at a rack that holds the cursors' separator; a page of the
contributors is one of their whole ranking. -/
theorem feeds_exact (tables : Tables J U R) (uuid : PlainText U) (text : Text R)
    (contributors : Contributors U) {limit : ℕ} (hlimit : 0 < limit) :
    (∀ jobType job worker,
      Exact (jobResults tables uuid text jobType job limit (worker.map some)) Item.Before
          (Item.Selected tables jobType job worker) ↔
        (jobType = .leaveGeneration → CursorsRead tables text limit job)) ∧
    (∀ pairs job rack,
      Exact (jobPositions tables.records pairs job rack limit)
        (fun s s' ↦ s'.position.id < s.position.id) (Shows tables.records pairs job rack) ∧
      ∀ r, Searched tables.records job rack r →
        ∃! s, Shows tables.records pairs job rack s ∧ (s.position = r ∨ s.partner = some r)) ∧
    ∀ sort page perPage, workerPage sort contributors page perPage =
      ((orderBy (rankOrder sort) (contributorRows contributors)).drop
        (page.toNat * (paginate page perPage).1)).take (paginate page perPage).1 :=
  ⟨exact_jobResults_iff hlimit,
    fun _ _ _ ↦ ⟨exact_jobPositions tables.records_nodup tables.inGame_unique hlimit,
      fun _ ↦ existsUnique_shows tables.inGame_unique tables.task_job⟩,
    fun _ ↦ workerPage_eq⟩

/-- An account's claim and an anonymous worker's, finished at one time with a record each, and a
leave job's rack. -/
def tiedTables : Tables Bool (Fin 2) (Fin 2) where
  claims := [⟨0, true, .account 0, some 5⟩, ⟨1, true, .anonymous 1, some 5⟩]
  records := [⟨1, 0, 0, true, 0, none, 5⟩, ⟨2, 1, 0, true, 1, none, 5⟩]
  games := []
  progress := [⟨false, 1, 0⟩, ⟨false, 2, 1⟩]
  claims_nodup := by decide
  records_nodup := by decide
  games_nodup := .nil
  progress_nodup := by decide
  records_claim := by decide
  games_claim := nofun
  inGame_unique r hr r' hr' hsome := by
    have : ∀ r ∈ [Record.mk (1 : Serial) (0 : Fin 2) (0 : Fin 2) true (0 : Fin 2) none (5 : Micros),
        ⟨2, 1, 0, true, 1, none, 5⟩], r.inGame.isSome = false := by decide
    cases hsome.symm.trans (this r hr)
  task_job := by decide

theorem feeds_exact_tied : 0 < 1 ∧
    Exact (jobResults tiedTables (digits _) (digits _).toText .openingRack true 1
        (some (some ⟨some 0, some 1, .inl rfl⟩))) Item.Before
      (Item.Selected tiedTables .openingRack true (some ⟨some 0, some 1, .inl rfl⟩)) ∧
    Exact (jobResults tiedTables (digits _) (digits _).toText .leaveGeneration false 1 none)
      Item.Before (Item.Selected tiedTables .leaveGeneration false none) := by
  obtain ⟨hresults, -, -⟩ := feeds_exact tiedTables (digits _) (digits _).toText
    ⟨[], [], .nil, .nil, Nat.zero_le _⟩ Nat.one_pos
  refine ⟨Nat.one_pos, ?_, ?_⟩
  · exact (hresults .openingRack true (some ⟨some 0, some 1, .inl rfl⟩)).2 nofun
  · exact (hresults .leaveGeneration false none).2 fun _ _ _ ↦ (digits _).separator_notMem _

def separatorText : Text (Fin 2) where
  print r := if r = 0 then [separator] else ['A']
  parse cs := if cs = [separator] then some 0 else if cs = ['A'] then some 1 else none
  parse_print r := by
    match r with
    | 0 => rfl
    | 1 => rfl

def separatorTables : Tables Bool (Fin 2) (Fin 2) where
  claims := []
  records := []
  games := []
  progress := [⟨false, 1, 0⟩, ⟨false, 1, 1⟩]
  claims_nodup := .nil
  records_nodup := .nil
  games_nodup := .nil
  progress_nodup := by decide
  records_claim := nofun
  games_claim := nofun
  inGame_unique := nofun
  task_job := nofun

/-- The first page ends at the separator, and its cursor leads to the first page again. -/
theorem not_feeds_exact : ¬ Exact
    (jobResults separatorTables (digits _) separatorText .leaveGeneration false 1 none) Item.Before
    (Item.Selected separatorTables .leaveGeneration false none) := by
  intro hexact
  have hread := (exact_jobResults_iff Nat.one_pos .leaveGeneration false none).1 hexact rfl
  refine hread ⟨false, 1, 0⟩ ⟨0, ?_⟩ List.mem_cons_self
  decide

end Exact

end Birdtest.Routes
