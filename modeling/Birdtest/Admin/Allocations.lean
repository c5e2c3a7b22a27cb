import Birdtest.Base.Runs
import Birdtest.Models.Job
import Mathlib.Algebra.BigOperators.Group.Finset.Basic
import Mathlib.Algebra.Order.BigOperators.Group.Finset
import Mathlib.Algebra.Order.Ring.Int
import Mathlib.Data.List.Sort

namespace Birdtest.Admin.Allocations

open Birdtest.Base.Runs Birdtest.Models.Job

structure Job where
  status : JobStatus
  allocation : ℤ
  deriving DecidableEq

section SetAllocations

variable (rows : List (ℕ × ℤ))

def maxAllocationRows : ℕ := 200

def rowErrors (i : ℕ) (row : ℕ × ℤ) (seen : List ℕ) : List (String × String) :=
  (if 0 ≤ row.2 ∧ row.2 ≤ 100 then []
    else [(s!"allocations[{i}].allocation", "must be between 0 and 100")]) ++
  if row.1 ∈ seen then [(s!"allocations[{i}].job_id", "names a job named before it")] else []

def rowsErrors : ℕ → List (ℕ × ℤ) → List ℕ → List (String × String)
  | _, [], _ => []
  | i, row :: rows, seen => rowErrors i row seen ++ rowsErrors (i + 1) rows (row.1 :: seen)

def requestErrors : List (String × String) :=
  (if rows = [] then [("allocations", "name at least one job")]
    else if maxAllocationRows < rows.length then
      [("allocations", s!"at most {maxAllocationRows} jobs at once")]
    else []) ++ rowsErrors 0 rows []

def lockedErrors (before : ℕ → Option Job) : ℕ → List (ℕ × ℤ) → List (String × String)
  | _, [] => []
  | i, row :: rows =>
    (match before row.1 with
    | none => [(s!"allocations[{i}].job_id", "no such job")]
    | some job =>
      if job.status = .completed then
        [(s!"allocations[{i}].job_id",
          "the job is completed, and a completed job cannot be reactivated")]
      else []) ++ lockedErrors before (i + 1) rows

def named : ℤ := (rows.map Prod.snd).sum

def allocate (allocation : ℤ) (job : Job) : Job :=
  if allocation = job.allocation then job
  else if 0 < allocation then ⟨.active, allocation⟩
  else ⟨.inactive, 0⟩

def allocateJobs : List (ℕ × ℤ) → (ℕ → Job) → ℕ → Job
  | [], jobs => jobs
  | row :: rows, jobs =>
    allocateJobs rows (Function.update jobs row.1 (allocate row.2 (jobs row.1)))

end SetAllocations

/-- What else writes a job's status or its allocation: an admin's completion, the server's, a
set-aside, a purge, and an edit of the consensus that leaves so many racks unsettled. -/
inductive Change
  | complete
  | finish
  | setAside
  | purge
  | consensus (unsettled : ℕ)
  deriving DecidableEq

def Change.write : Change → Job → Option Job
  | .complete, job => if job.status = .completed then none else some ⟨.completed, 0⟩
  | .finish, job => some (if job.status = .active then ⟨.completed, 0⟩ else job)
  | .setAside, job => some (if job.status = .active then ⟨.inactive, 0⟩ else job)
  | .purge, _ => some ⟨.inactive, 0⟩
  | .consensus unsettled, job =>
    some (if job.status = .completed ∧ 0 < unsettled then { job with status := .inactive } else job)

inductive Request
  | setAllocations (rows : List (ℕ × ℤ))
  | change (job : ℕ) (change : Change)
  deriving DecidableEq

def Request.errors : Request → List (String × String)
  | .setAllocations rows => requestErrors rows
  | .change _ _ => []

def Request.jobs : Request → List ℕ
  | .setAllocations rows => (rows.map Prod.fst).insertionSort (· ≤ ·)
  | .change job _ => [job]

/-- `activated`: it has the activation lock; `summed`: and has found room for what it asks. -/
inductive Stage
  | locking (rest : List ℕ)
  | activated
  | summed
  deriving DecidableEq

structure Transaction where
  request : Request
  stage : Stage

/-- The committed rows of the jobs there are, who has each locked and who has the activation
lock, and the running transactions. -/
structure State where
  ids : Finset ℕ
  jobs : ℕ → Job
  lock : ℕ → Option ℕ
  activation : Option ℕ
  running : ℕ → Option Transaction

inductive Statement
  | lockRow | activate | sum | commit | abort
  deriving DecidableEq

inductive Action
  | createJob (job : ℕ)
  | deleteJob (job : ℕ)
  | begin (i : ℕ) (request : Request)
  | run (i : ℕ) (statement : Statement)
  deriving DecidableEq

def allocated (job : Job) : ℤ := if job.status = .active then job.allocation else 0

def total (ids : Finset ℕ) (jobs : ℕ → Job) : ℤ := ∑ j ∈ ids, allocated (jobs j)

/-- `SELECT SUM(allocation) FROM jobs WHERE status = 'active' AND id <> ALL($1)` -/
def others (ids : Finset ℕ) (jobs : ℕ → Job) (rows : List (ℕ × ℤ)) : ℤ :=
  ∑ j ∈ ids with j ∉ rows.map Prod.fst, allocated (jobs j)

def before (s : State) (j : ℕ) : Option Job := if j ∈ s.ids then some (s.jobs j) else none

def finish (s : State) (i : ℕ) (jobs : ℕ → Job) : State :=
  { s with
    jobs
    lock := fun j ↦ if s.lock j = some i then none else s.lock j
    activation := if s.activation = some i then none else s.activation
    running := Function.update s.running i none }

def setStage (s : State) (i : ℕ) (t : Transaction) (stage : Stage) : ℕ → Option Transaction :=
  Function.update s.running i (some { t with stage })

/-- A request that is refused aborts, as does one whose job is gone or was purged since. -/
def step (s : State) (i : ℕ) (t : Transaction) : Statement → Option State
  | .lockRow => match t.stage with
    | .locking (j :: rest) =>
      if j ∈ s.ids ∧ (s.lock j = none ∨ s.lock j = some i) then
        some { s with
          lock := Function.update s.lock j (some i)
          running := setStage s i t (.locking rest) }
      else none
    | _ => none
  | .activate => match t.request, t.stage with
    | .setAllocations rows, .locking [] =>
      if lockedErrors (before s) 0 rows = [] ∧ s.activation = none then
        some { s with activation := some i, running := setStage s i t .activated }
      else none
    | _, _ => none
  | .sum => match t.request, t.stage with
    | .setAllocations rows, .activated =>
      if others s.ids s.jobs rows + named rows ≤ 100 then
        some { s with running := setStage s i t .summed }
      else none
    | _, _ => none
  | .commit => match t.request, t.stage with
    | .setAllocations rows, .summed => some (finish s i (allocateJobs rows s.jobs))
    | .change j change, .locking [] =>
      (change.write (s.jobs j)).map fun job ↦ finish s i (Function.update s.jobs j job)
    | _, _ => none
  | .abort => some (finish s i s.jobs)

def next (s : State) : Action → Option State
  | .createJob j =>
    if j ∈ s.ids then none
    else some { s with ids := insert j s.ids, jobs := Function.update s.jobs j ⟨.inactive, 0⟩ }
  | .deleteJob j => if s.lock j = none then some { s with ids := s.ids.erase j } else none
  | .begin i request =>
    if (s.running i).isNone ∧ request.errors = [] then
      some { s with
        running := Function.update s.running i (some ⟨request, .locking request.jobs⟩) }
    else none
  | .run i statement => (s.running i).bind (step s i · statement)

def start (s : State) : Prop :=
  s.ids = ∅ ∧ (∀ j, s.lock j = none) ∧ s.activation = none ∧ ∀ i, s.running i = none

/-- Any number of requests and of the server's own changes, from an empty database. -/
def machine : Machine State Action := ⟨start, next⟩

section Requests

variable {rows : List (ℕ × ℤ)} {jobs : ℕ → Job} {j : ℕ} {row : ℕ × ℤ}

theorem rowsErrors_eq_nil {i : ℕ} {seen : List ℕ} (h : rowsErrors i rows seen = []) :
    (∀ row ∈ rows, 0 ≤ row.2 ∧ row.2 ≤ 100) ∧ (rows.map Prod.fst).Nodup ∧
      ∀ j ∈ rows.map Prod.fst, j ∉ seen := by
  induction rows generalizing i seen with
  | nil => simp
  | cons row rows ih =>
    obtain ⟨hrow, hrest⟩ := List.append_eq_nil_iff.1 h
    obtain ⟨hrange, hseen⟩ := List.append_eq_nil_iff.1 hrow
    have hrange : 0 ≤ row.2 ∧ row.2 ≤ 100 := by
      by_contra hnot
      simp [hnot] at hrange
    have hseen : row.1 ∉ seen := by
      intro hmem
      simp [hmem] at hseen
    obtain ⟨hranges, hnodup, hnot⟩ := ih hrest
    refine ⟨?_, ?_, ?_⟩
    · intro row' hmem
      rcases List.mem_cons.1 hmem with rfl | hmem
      · exact hrange
      · exact hranges row' hmem
    · rw [List.map_cons, List.nodup_cons]
      exact ⟨fun hmem ↦ hnot _ hmem List.mem_cons_self, hnodup⟩
    · intro j hmem
      rw [List.map_cons] at hmem
      rcases List.mem_cons.1 hmem with rfl | hmem
      · exact hseen
      · exact fun hj ↦ hnot j hmem (List.mem_cons_of_mem _ hj)

theorem requestErrors_eq_nil (h : requestErrors rows = []) :
    (∀ row ∈ rows, 0 ≤ row.2 ∧ row.2 ≤ 100) ∧ (rows.map Prod.fst).Nodup := by
  have hrows := rowsErrors_eq_nil (List.append_eq_nil_iff.1 h).2
  exact ⟨hrows.1, hrows.2.1⟩

theorem lockedErrors_eq_nil {found : ℕ → Option Job} {i : ℕ} (h : lockedErrors found i rows = [])
    (hmem : row ∈ rows) : ∃ job, found row.1 = some job ∧ job.status ≠ .completed := by
  induction rows generalizing i with
  | nil => cases hmem
  | cons row' rows ih =>
    obtain ⟨hrow, hrest⟩ := List.append_eq_nil_iff.1 h
    rcases List.mem_cons.1 hmem with rfl | hmem
    · cases hjob : found row.1 with
      | none => simp [hjob] at hrow
      | some job =>
        refine ⟨job, rfl, fun hcompleted ↦ ?_⟩
        simp [hjob, hcompleted] at hrow
    · exact ih hrest hmem

theorem allocateJobs_of_not_mem (h : j ∉ rows.map Prod.fst) :
    allocateJobs rows jobs j = jobs j := by
  induction rows generalizing jobs with
  | nil => rfl
  | cons row rows ih =>
    rw [List.map_cons, List.mem_cons, not_or] at h
    rw [allocateJobs, ih h.2, Function.update_of_ne h.1]

theorem allocateJobs_of_mem (hnodup : (rows.map Prod.fst).Nodup) (h : row ∈ rows) :
    allocateJobs rows jobs row.1 = allocate row.2 (jobs row.1) := by
  induction rows generalizing jobs with
  | nil => cases h
  | cons row' rows ih =>
    rw [List.map_cons, List.nodup_cons] at hnodup
    rw [allocateJobs]
    rcases List.mem_cons.1 h with rfl | h
    · rw [allocateJobs_of_not_mem hnodup.1, Function.update_self]
    · have hne : row.1 ≠ row'.1 := fun he ↦ hnodup.1 (he ▸ List.mem_map_of_mem h)
      rw [ih hnodup.2 h, Function.update_of_ne hne]

end Requests

section Jobs

variable {job job' : Job} {allocation : ℤ} {change : Change}

def Job.Paired (job : Job) : Prop :=
  if job.status = .active then 0 < job.allocation else job.allocation = 0

def asked (allocation : ℤ) : Job := ⟨if 0 < allocation then .active else .inactive, allocation⟩

theorem Job.Paired.pos_iff (h : job.Paired) : 0 < job.allocation ↔ job.status = .active := by
  rw [Job.Paired] at h
  split at h
  · next hactive => exact ⟨fun _ ↦ hactive, fun _ ↦ h⟩
  · next hactive =>
    refine ⟨fun hpos ↦ ?_, fun h ↦ absurd h hactive⟩
    omega

theorem Job.Paired.allocated (h : job.Paired) : allocated job = job.allocation := by
  rw [Job.Paired] at h
  rw [Allocations.allocated]
  split at h
  · next hactive => rw [if_pos hactive]
  · next hactive => rw [if_neg hactive, h]

theorem Job.Paired.allocated_nonneg (h : job.Paired) : 0 ≤ Allocations.allocated job := by
  rw [h.allocated]
  rw [Job.Paired] at h
  split at h
  · exact h.le
  · exact h.ge

theorem Job.Paired.allocate (h : job.Paired) (hopen : job.status ≠ .completed)
    (hpos : 0 ≤ allocation) : allocate allocation job = asked allocation := by
  obtain ⟨status, current⟩ := job
  rw [Allocations.allocate, asked]
  split
  · next hsame =>
    dsimp only at hsame hopen
    subst hsame
    rw [Job.Paired] at h
    dsimp only at h
    cases status with
    | completed => exact absurd rfl hopen
    | active =>
      have hallocation : 0 < allocation := h
      simp [hallocation]
    | inactive =>
      have hallocation : allocation = 0 := h
      simp [hallocation]
  · split
    · rfl
    · have hzero : allocation = 0 := by omega
      rw [hzero]

theorem paired_asked (hpos : 0 ≤ allocation) : (asked allocation).Paired := by
  rw [asked, Job.Paired]
  by_cases h : 0 < allocation
  · simp [h]
  · have hzero : allocation = 0 := by omega
    simp [hzero]

theorem Change.write_spec (h : job.Paired) (hw : change.write job = some job') :
    job'.Paired ∧ Allocations.allocated job' ≤ Allocations.allocated job := by
  have hnonneg := h.allocated_nonneg
  cases change with
  | complete =>
    rw [Change.write] at hw
    split at hw <;> cases hw
    exact ⟨rfl, hnonneg⟩
  | finish =>
    cases hw
    split
    · exact ⟨rfl, hnonneg⟩
    · exact ⟨h, le_rfl⟩
  | setAside =>
    cases hw
    split
    · exact ⟨rfl, hnonneg⟩
    · exact ⟨h, le_rfl⟩
  | purge =>
    cases hw
    exact ⟨rfl, hnonneg⟩
  | consensus unsettled =>
    cases hw
    split
    · next hreopened =>
      -- A completed job holds no allocation, and so none is left with it.
      have hzero : job.allocation = 0 := by simpa [Job.Paired, hreopened.1] using h
      exact ⟨by simpa [Job.Paired] using hzero, hnonneg⟩
    · exact ⟨h, le_rfl⟩

theorem Change.reopens (h : job.Paired) (hw : change.write job = some job')
    (hcompleted : job.status = .completed) (hleft : job'.status ≠ .completed) :
    job' = ⟨.inactive, 0⟩ ∧
      (change = .purge ∨ ∃ unsettled, change = .consensus unsettled ∧ 0 < unsettled) := by
  cases change with
  | complete => simp [Change.write, hcompleted] at hw
  | finish =>
    simp only [Change.write, hcompleted, Option.some.injEq] at hw
    exact absurd (hw ▸ hcompleted) hleft
  | setAside =>
    simp only [Change.write, hcompleted, Option.some.injEq] at hw
    exact absurd (hw ▸ hcompleted) hleft
  | purge =>
    cases hw
    exact ⟨rfl, .inl rfl⟩
  | consensus unsettled =>
    cases hw
    by_cases hunsettled : 0 < unsettled
    · have hzero : job.allocation = 0 := by simpa [Job.Paired, hcompleted] using h
      refine ⟨?_, .inr ⟨unsettled, rfl, hunsettled⟩⟩
      rw [if_pos ⟨hcompleted, hunsettled⟩, hzero]
    · rw [if_neg fun hboth ↦ hunsettled hboth.2] at hleft
      exact absurd hcompleted hleft

end Jobs

section Totals

variable {ids : Finset ℕ} {jobs jobs' : ℕ → Job} {rows : List (ℕ × ℤ)} {j : ℕ}

theorem total_le_total (h : ∀ j ∈ ids, allocated (jobs' j) ≤ allocated (jobs j)) :
    total ids jobs' ≤ total ids jobs := Finset.sum_le_sum h

theorem others_le_others (h : ∀ j ∈ ids, allocated (jobs' j) ≤ allocated (jobs j)) :
    others ids jobs' rows ≤ others ids jobs rows :=
  Finset.sum_le_sum fun j hj ↦ h j (Finset.mem_filter.1 hj).1

theorem total_allocateJobs (hids : ∀ row ∈ rows, row.1 ∈ ids)
    (hnodup : (rows.map Prod.fst).Nodup)
    (hasked : ∀ row ∈ rows, allocate row.2 (jobs row.1) = asked row.2)
    (hpos : ∀ row ∈ rows, 0 ≤ row.2) :
    total ids (allocateJobs rows jobs) = others ids jobs rows + named rows := by
  have hfilter : ids.filter (fun j ↦ ¬ j ∉ rows.map Prod.fst) = (rows.map Prod.fst).toFinset := by
    ext j
    rw [Finset.mem_filter, not_not, List.mem_toFinset]
    refine ⟨And.right, fun hmem ↦ ⟨?_, hmem⟩⟩
    obtain ⟨row, hrow, rfl⟩ := List.mem_map.1 hmem
    exact hids row hrow
  have hothers : ∑ j ∈ ids with j ∉ rows.map Prod.fst, allocated (allocateJobs rows jobs j) =
      others ids jobs rows := by
    refine Finset.sum_congr rfl fun j hj ↦ ?_
    rw [allocateJobs_of_not_mem (Finset.mem_filter.1 hj).2]
  have hnamed : ((rows.map Prod.fst).map fun j ↦ allocated (allocateJobs rows jobs j)).sum =
      named rows := by
    rw [List.map_map, named]
    congr 1
    refine List.map_congr_left fun row hrow ↦ ?_
    have hpaired := paired_asked (hpos row hrow)
    rw [Function.comp_apply, allocateJobs_of_mem hnodup hrow, hasked row hrow, hpaired.allocated]
    rfl
  rw [total, ← Finset.sum_filter_add_sum_filter_not ids (fun j ↦ j ∉ rows.map Prod.fst), hothers,
    hfilter, List.sum_toFinset _ hnodup, hnamed]

end Totals

section Invariant

variable {s t : State} {i : ℕ} {tx : Transaction}

def Stage.holds (j : ℕ) : Stage → Prop
  | .locking rest => j ∉ rest
  | .activated | .summed => True

def Stage.active : Stage → Bool
  | .locking _ => false
  | .activated | .summed => true

/-- What a running transaction rests on: the rows it has locked, and, under the activation lock,
that its jobs are open and that what it has found room for still fits. -/
structure Running (s : State) (i : ℕ) (tx : Transaction) : Prop where
  passed : tx.request.errors = []
  held {j : ℕ} : j ∈ tx.request.jobs → tx.stage.holds j → s.lock j = some i ∧ j ∈ s.ids
  active : tx.stage.active = true → s.activation = some i
  opened {j : ℕ} : tx.stage.active = true → j ∈ tx.request.jobs → (s.jobs j).status ≠ .completed
  fits {rows : List (ℕ × ℤ)} : tx.request = .setAllocations rows → tx.stage = .summed →
    others s.ids s.jobs rows + named rows ≤ 100

structure Inv (s : State) : Prop where
  paired {j : ℕ} : j ∈ s.ids → (s.jobs j).Paired
  total : total s.ids s.jobs ≤ 100
  running {i : ℕ} {tx : Transaction} : s.running i = some tx → Running s i tx

theorem Running.of_le (h : Running s i tx) (hlock : ∀ j, s.lock j = some i → t.lock j = some i)
    (hactivation : s.activation = some i → t.activation = some i)
    (hids : ∀ j, s.lock j = some i → j ∈ s.ids → j ∈ t.ids)
    (hjobs : ∀ j, s.lock j = some i → j ∈ s.ids → t.jobs j = s.jobs j)
    (hothers : ∀ rows, tx.request = .setAllocations rows → tx.stage = .summed →
      others t.ids t.jobs rows ≤ others s.ids s.jobs rows) : Running t i tx := by
  refine ⟨h.passed, fun {j} hj hholds ↦ ?_, fun hactive ↦ hactivation (h.active hactive),
    fun {j} hactive hj ↦ ?_, fun {rows} hrequest hstage ↦ ?_⟩
  · obtain ⟨hheld, hmem⟩ := h.held hj hholds
    exact ⟨hlock j hheld, hids j hheld hmem⟩
  · have hholds : tx.stage.holds j := by
      cases hstage : tx.stage with
      | locking rest => simp [hstage, Stage.active] at hactive
      | activated => trivial
      | summed => trivial
    obtain ⟨hheld, hmem⟩ := h.held hj hholds
    rw [hjobs j hheld hmem]
    exact h.opened hactive hj
  · have hle := hothers rows hrequest hstage
    have hfits := h.fits hrequest hstage
    omega

theorem total_insert {ids : Finset ℕ} {jobs : ℕ → Job} {j : ℕ} (hj : j ∉ ids) :
    total (insert j ids) (Function.update jobs j ⟨.inactive, 0⟩) = total ids jobs := by
  rw [total, Finset.sum_insert hj, Function.update_self, allocated, if_neg (by nofun), zero_add]
  refine Finset.sum_congr rfl fun k hk ↦ ?_
  rw [Function.update_of_ne (ne_of_mem_of_not_mem hk hj)]

theorem others_insert {ids : Finset ℕ} {jobs : ℕ → Job} {j : ℕ} (hj : j ∉ ids)
    (rows : List (ℕ × ℤ)) :
    others (insert j ids) (Function.update jobs j ⟨.inactive, 0⟩) rows = others ids jobs rows := by
  have hrest : j ∉ ids.filter (· ∉ rows.map Prod.fst) := fun hmem ↦ hj (Finset.mem_filter.1 hmem).1
  by_cases hnamed : j ∈ rows.map Prod.fst
  · rw [others, Finset.filter_insert, if_neg (not_not.2 hnamed)]
    refine Finset.sum_congr rfl fun k hk ↦ ?_
    rw [Function.update_of_ne (ne_of_mem_of_not_mem hk hrest)]
  · rw [others, Finset.filter_insert, if_pos hnamed]
    exact total_insert hrest

theorem total_erase_le {ids ids' : Finset ℕ} {jobs : ℕ → Job} (hids : ids' ⊆ ids)
    (h : ∀ j ∈ ids, (jobs j).Paired) : total ids' jobs ≤ total ids jobs :=
  Finset.sum_le_sum_of_subset_of_nonneg hids fun j hj _ ↦ (h j hj).allocated_nonneg

theorem Inv.createJob (h : Inv s) {j : ℕ} (hj : j ∉ s.ids) : Inv { s with
    ids := insert j s.ids, jobs := Function.update s.jobs j ⟨.inactive, 0⟩ } := by
  refine ⟨fun {k} hk ↦ ?_, (total_insert hj).trans_le h.total, fun {i tx} hi ↦ ?_⟩
  · dsimp only at hk ⊢
    by_cases hkj : k = j
    · subst hkj
      rw [Function.update_self]
      rfl
    · rw [Function.update_of_ne hkj]
      exact h.paired (Finset.mem_of_mem_insert_of_ne hk hkj)
  · refine (h.running hi).of_le (fun _ hlock ↦ hlock) (fun hactivation ↦ hactivation)
      (fun _ _ hmem ↦ Finset.mem_insert_of_mem hmem) (fun k _ hmem ↦ ?_)
      fun rows _ _ ↦ (others_insert hj rows).le
    exact Function.update_of_ne (ne_of_mem_of_not_mem hmem hj) ..

theorem Inv.deleteJob (h : Inv s) {j : ℕ} (hfree : s.lock j = none) :
    Inv { s with ids := s.ids.erase j } := by
  refine ⟨fun {k} hk ↦ h.paired (Finset.mem_of_mem_erase hk), ?_, fun {i tx} hi ↦ ?_⟩
  · exact (total_erase_le (Finset.erase_subset ..) fun _ ↦ h.paired).trans h.total
  · refine (h.running hi).of_le (fun _ hlock ↦ hlock) (fun hactivation ↦ hactivation)
      (fun k hlock hmem ↦ ?_) (fun _ _ _ ↦ rfl) fun rows _ _ ↦ ?_
    · refine Finset.mem_erase.2 ⟨?_, hmem⟩
      rintro rfl
      cases hfree.symm.trans hlock
    · exact total_erase_le (Finset.filter_subset_filter _ (Finset.erase_subset ..)) fun k hk ↦
        h.paired (Finset.mem_filter.1 hk).1

theorem Inv.of_jobs_eq (h : Inv s) {v : Option Transaction} (hids : t.ids = s.ids)
    (hjobs : t.jobs = s.jobs) (hrunning : t.running = Function.update s.running i v)
    (hv : ∀ tx, v = some tx → Running t i tx)
    (hlock : ∀ k, k ≠ i → ∀ j, s.lock j = some k → t.lock j = some k)
    (hactivation : ∀ k, k ≠ i → s.activation = some k → t.activation = some k) : Inv t := by
  refine ⟨fun {j} hj ↦ ?_, ?_, fun {k tx} hk ↦ ?_⟩
  · rw [hjobs]
    exact h.paired (hids ▸ hj)
  · rw [hids, hjobs]
    exact h.total
  · rw [hrunning] at hk
    by_cases hki : k = i
    · subst hki
      rw [Function.update_self] at hk
      exact hv tx hk
    · rw [Function.update_of_ne hki] at hk
      refine (h.running hk).of_le (hlock k hki) (hactivation k hki) (fun _ _ hmem ↦ hids ▸ hmem)
        (fun j _ _ ↦ congrFun hjobs j) fun rows _ _ ↦ ?_
      rw [hids, hjobs]

theorem Inv.begin (h : Inv s) {request : Request} (herrors : request.errors = []) :
    Inv { s with
      running := Function.update s.running i (some ⟨request, .locking request.jobs⟩) } := by
  refine h.of_jobs_eq (i := i) rfl rfl rfl ?_ (fun _ _ _ hlock ↦ hlock)
    fun _ _ hactivation ↦ hactivation
  rintro _ ⟨⟩
  exact ⟨herrors, fun hj hnot ↦ absurd hj hnot, nofun, nofun, nofun⟩

theorem Inv.finish (h : Inv s) {jobs' : ℕ → Job} (hpaired : ∀ j ∈ s.ids, (jobs' j).Paired)
    (htotal : Allocations.total s.ids jobs' ≤ 100)
    (hjobs : ∀ k, k ≠ i → ∀ j, s.lock j = some k → jobs' j = s.jobs j)
    (hothers : ∀ k, k ≠ i → ∀ rows stage, s.running k = some ⟨.setAllocations rows, stage⟩ →
      stage = .summed → others s.ids jobs' rows ≤ others s.ids s.jobs rows) :
    Inv (finish s i jobs') := by
  refine ⟨fun {j} hj ↦ hpaired j hj, htotal, fun {k tx} hk ↦ ?_⟩
  simp only [Allocations.finish] at hk
  by_cases hki : k = i
  · subst hki
    rw [Function.update_self] at hk
    cases hk
  · rw [Function.update_of_ne hki] at hk
    refine (h.running hk).of_le (fun j hlock ↦ ?_) (fun hactivation ↦ ?_) (fun _ _ hmem ↦ hmem)
      (fun j hlock _ ↦ hjobs k hki j hlock) fun rows hrequest hstage ↦ ?_
    · simp [Allocations.finish, hlock, hki]
    · simp [Allocations.finish, hactivation, hki]
    · exact hothers k hki rows tx.stage (hrequest ▸ hk) hstage

theorem mem_jobs {rows : List (ℕ × ℤ)} {j : ℕ} :
    j ∈ (Request.setAllocations rows).jobs ↔ j ∈ rows.map Prod.fst :=
  List.mem_insertionSort _

theorem Inv.lockRow (h : Inv s) (hi : s.running i = some tx) {j : ℕ} {rest : List ℕ}
    (hstage : tx.stage = .locking (j :: rest)) (hmem : j ∈ s.ids)
    (hfree : s.lock j = none ∨ s.lock j = some i) : Inv { s with
      lock := Function.update s.lock j (some i)
      running := setStage s i tx (.locking rest) } := by
  have hrunning := h.running hi
  refine h.of_jobs_eq (i := i) rfl rfl rfl ?_ (fun k hk j' hlock ↦ ?_)
    fun _ _ hactivation ↦ hactivation
  · rintro _ ⟨⟩
    refine ⟨hrunning.passed, fun {j'} hj' hholds ↦ ?_, nofun, nofun, nofun⟩
    dsimp only
    by_cases hjj : j' = j
    · subst hjj
      exact ⟨Function.update_self .., hmem⟩
    · rw [Function.update_of_ne hjj]
      apply hrunning.held hj'
      rw [hstage]
      exact fun hcons ↦ (List.mem_cons.1 hcons).elim hjj hholds
  · have hjj : j' ≠ j := by
      rintro rfl
      rcases hfree with hfree | hfree
      · cases hfree.symm.trans hlock
      · exact hk (Option.some.inj (hlock.symm.trans hfree))
    exact (Function.update_of_ne hjj ..).trans hlock

theorem Inv.activate (h : Inv s) (hi : s.running i = some tx) {rows : List (ℕ × ℤ)}
    (hrequest : tx.request = .setAllocations rows) (hstage : tx.stage = .locking [])
    (herrors : lockedErrors (before s) 0 rows = []) (hfree : s.activation = none) : Inv { s with
      activation := some i
      running := setStage s i tx .activated } := by
  have hrunning := h.running hi
  refine h.of_jobs_eq (i := i) rfl rfl rfl ?_ (fun _ _ _ hlock ↦ hlock) fun k _ hactivation ↦ ?_
  · rintro _ ⟨⟩
    refine ⟨hrunning.passed, fun {j} hj _ ↦ hrunning.held hj ?_, fun _ ↦ rfl,
      fun {j} _ hj ↦ ?_, nofun⟩
    · rw [hstage]
      exact List.not_mem_nil
    · rw [hrequest, mem_jobs] at hj
      obtain ⟨row, hrow, rfl⟩ := List.mem_map.1 hj
      obtain ⟨job, hjob, hopen⟩ := lockedErrors_eq_nil herrors hrow
      obtain ⟨-, hjob⟩ := Option.ite_none_right_eq_some.1 hjob
      cases hjob
      exact hopen
  · cases hfree.symm.trans hactivation

theorem Inv.sum (h : Inv s) (hi : s.running i = some tx) {rows : List (ℕ × ℤ)}
    (hrequest : tx.request = .setAllocations rows) (hstage : tx.stage = .activated)
    (hfits : others s.ids s.jobs rows + named rows ≤ 100) :
    Inv { s with running := setStage s i tx .summed } := by
  have hrunning := h.running hi
  have hactive : tx.stage.active = true := by
    rw [hstage]
    rfl
  refine h.of_jobs_eq (i := i) rfl rfl rfl ?_ (fun _ _ _ hlock ↦ hlock)
    fun _ _ hactivation ↦ hactivation
  rintro _ ⟨⟩
  refine ⟨hrunning.passed, fun {j} hj _ ↦ hrunning.held hj ?_, fun _ ↦ hrunning.active hactive,
    fun {j} _ ↦ hrunning.opened hactive, fun {rows'} hrequest' _ ↦ ?_⟩
  · rw [hstage]
    trivial
  · cases hrequest.symm.trans hrequest'
    exact hfits

theorem Inv.allocateJobs_of_mem (h : Inv s) {rows : List (ℕ × ℤ)}
    (hi : s.running i = some ⟨.setAllocations rows, .summed⟩) {row : ℕ × ℤ} (hrow : row ∈ rows) :
    row.1 ∈ s.ids ∧ s.lock row.1 = some i ∧ 0 ≤ row.2 ∧
      allocate row.2 (s.jobs row.1) = asked row.2 := by
  have hrunning := h.running hi
  have hj : row.1 ∈ (Request.setAllocations rows).jobs := mem_jobs.2 (List.mem_map_of_mem hrow)
  obtain ⟨hlock, hmem⟩ := hrunning.held hj trivial
  have hpos := ((requestErrors_eq_nil hrunning.passed).1 row hrow).1
  exact ⟨hmem, hlock, hpos, (h.paired hmem).allocate (hrunning.opened rfl hj) hpos⟩

theorem Inv.commit_setAllocations (h : Inv s) {rows : List (ℕ × ℤ)}
    (hi : s.running i = some ⟨.setAllocations rows, .summed⟩) :
    Inv (Allocations.finish s i (allocateJobs rows s.jobs)) := by
  have hrunning := h.running hi
  obtain ⟨-, hnodup⟩ := requestErrors_eq_nil hrunning.passed
  have hrows {row : ℕ × ℤ} (hrow : row ∈ rows) := h.allocateJobs_of_mem hi hrow
  apply h.finish
  · intro j hj
    by_cases hnamed : j ∈ rows.map Prod.fst
    · obtain ⟨row, hrow, rfl⟩ := List.mem_map.1 hnamed
      obtain ⟨-, -, hpos, hasked⟩ := hrows hrow
      rw [Allocations.allocateJobs_of_mem hnodup hrow, hasked]
      exact paired_asked hpos
    · rw [allocateJobs_of_not_mem hnamed]
      exact h.paired hj
  · rw [total_allocateJobs (fun row hrow ↦ (hrows hrow).1) hnodup
      (fun row hrow ↦ (hrows hrow).2.2.2) fun row hrow ↦ (hrows hrow).2.2.1]
    exact hrunning.fits rfl rfl
  · intro k hk j hlock
    apply allocateJobs_of_not_mem
    intro hnamed
    obtain ⟨row, hrow, rfl⟩ := List.mem_map.1 hnamed
    exact hk (Option.some.inj (hlock.symm.trans (hrows hrow).2.1))
  · -- One transaction has the activation lock.
    intro k hk rows' stage hrun hstage
    subst hstage
    have hactivation := (h.running hrun).active rfl
    exact absurd (Option.some.inj (hactivation.symm.trans (hrunning.active rfl))) hk

theorem Inv.commit_change (h : Inv s) {j : ℕ} {change : Change} {job : Job}
    (hi : s.running i = some ⟨.change j change, .locking []⟩)
    (hw : change.write (s.jobs j) = some job) :
    Inv (Allocations.finish s i (Function.update s.jobs j job)) := by
  obtain ⟨hlock, hmem⟩ := (h.running hi).held (List.mem_singleton.2 rfl) List.not_mem_nil
  obtain ⟨hpaired, hle⟩ := Change.write_spec (h.paired hmem) hw
  have hles : ∀ k ∈ s.ids, allocated (Function.update s.jobs j job k) ≤ allocated (s.jobs k) := by
    intro k _
    by_cases hkj : k = j
    · rw [hkj, Function.update_self]
      exact hle
    · rw [Function.update_of_ne hkj]
  apply h.finish
  · intro k hk
    by_cases hkj : k = j
    · rw [hkj, Function.update_self]
      exact hpaired
    · rw [Function.update_of_ne hkj]
      exact h.paired hk
  · exact (total_le_total hles).trans h.total
  · intro k hk j' hlock'
    apply Function.update_of_ne
    rintro rfl
    exact hk (Option.some.inj (hlock'.symm.trans hlock))
  · intro k _ rows stage _ _
    exact others_le_others hles

theorem Inv.step (h : Inv s) (hi : s.running i = some tx) {statement : Statement}
    (ht : step s i tx statement = some t) : Inv t := by
  cases statement with
  | lockRow =>
    simp only [Allocations.step] at ht
    split at ht
    · next j rest hstage =>
      obtain ⟨⟨hmem, hfree⟩, ht⟩ := Option.ite_none_right_eq_some.1 ht
      cases ht
      exact h.lockRow hi hstage hmem hfree
    · cases ht
  | activate =>
    simp only [Allocations.step] at ht
    split at ht
    · next rows hrequest hstage =>
      obtain ⟨⟨herrors, hfree⟩, ht⟩ := Option.ite_none_right_eq_some.1 ht
      cases ht
      exact h.activate hi hrequest hstage herrors hfree
    · cases ht
  | sum =>
    simp only [Allocations.step] at ht
    split at ht
    · next rows hrequest hstage =>
      obtain ⟨hfits, ht⟩ := Option.ite_none_right_eq_some.1 ht
      cases ht
      exact h.sum hi hrequest hstage hfits
    · cases ht
  | commit =>
    obtain ⟨request, stage⟩ := tx
    simp only [Allocations.step] at ht
    split at ht
    · cases ht
      exact h.commit_setAllocations hi
    · obtain ⟨job, hw, rfl⟩ := Option.map_eq_some_iff.1 ht
      exact h.commit_change hi hw
    · cases ht
  | abort =>
    cases ht
    exact h.finish (fun _ ↦ h.paired) h.total (fun _ _ _ _ ↦ rfl) fun _ _ _ _ _ _ ↦ le_rfl

theorem Inv.next (h : Inv s) {a : Action} (ht : next s a = some t) : Inv t := by
  cases a with
  | createJob j =>
    obtain ⟨hj, ht⟩ := Option.ite_none_left_eq_some.1 ht
    cases ht
    exact h.createJob hj
  | deleteJob j =>
    obtain ⟨hfree, ht⟩ := Option.ite_none_right_eq_some.1 ht
    cases ht
    exact h.deleteJob hfree
  | begin i request =>
    obtain ⟨⟨-, herrors⟩, ht⟩ := Option.ite_none_right_eq_some.1 ht
    cases ht
    exact h.begin herrors
  | run i statement =>
    obtain ⟨tx, hi, ht⟩ := Option.bind_eq_some_iff.1 ht
    exact h.step hi ht

theorem inv_of_reachable (h : machine.Reachable s) : Inv s := by
  refine h.invariant (fun s hs ↦ ?_) fun _ _ _ hinv _ ht ↦ hinv.next ht
  obtain ⟨hids, -, -, hrunning⟩ := hs
  refine ⟨fun {j} hj ↦ ?_, ?_, fun {i tx} hi ↦ ?_⟩
  · rw [hids] at hj
    exact absurd hj (Finset.notMem_empty j)
  · rw [hids, Allocations.total, Finset.sum_empty]
    decide
  · exact nomatch (hrunning i).symm.trans hi

theorem jobs_of_step {statement : Statement} (ht : Allocations.step s i tx statement = some t) :
    t.jobs = s.jobs ∨ statement = .commit ∧ t.running i = none ∧
      ((∃ rows, tx = ⟨.setAllocations rows, .summed⟩ ∧ t.jobs = allocateJobs rows s.jobs) ∨
        ∃ j change job, tx = ⟨.change j change, .locking []⟩ ∧
          change.write (s.jobs j) = some job ∧ t.jobs = Function.update s.jobs j job) := by
  obtain ⟨request, stage⟩ := tx
  cases statement with
  | commit =>
    refine .inr ⟨rfl, ?_⟩
    simp only [Allocations.step] at ht
    split at ht
    · cases ht
      exact ⟨Function.update_self .., .inl ⟨_, rfl, rfl⟩⟩
    · obtain ⟨job, hw, rfl⟩ := Option.map_eq_some_iff.1 ht
      exact ⟨Function.update_self .., .inr ⟨_, _, job, rfl, hw, rfl⟩⟩
    · cases ht
  | lockRow =>
    simp only [Allocations.step] at ht
    split at ht
    · obtain ⟨-, ht⟩ := Option.ite_none_right_eq_some.1 ht
      cases ht
      exact .inl rfl
    · cases ht
  | activate =>
    simp only [Allocations.step] at ht
    split at ht
    · obtain ⟨-, ht⟩ := Option.ite_none_right_eq_some.1 ht
      cases ht
      exact .inl rfl
    · cases ht
  | sum =>
    simp only [Allocations.step] at ht
    split at ht
    · obtain ⟨-, ht⟩ := Option.ite_none_right_eq_some.1 ht
      cases ht
      exact .inl rfl
    · cases ht
  | abort =>
    cases ht
    exact .inl rfl

theorem Inv.reopens (h : Inv s) {a : Action} (ht : Allocations.next s a = some t) {j : ℕ}
    (hj : j ∈ s.ids) (hcompleted : (s.jobs j).status = .completed)
    (hleft : (t.jobs j).status ≠ .completed) :
    t.jobs j = ⟨.inactive, 0⟩ ∧ ∃ i change, a = .run i .commit ∧
      s.running i = some ⟨.change j change, .locking []⟩ ∧
      (change = .purge ∨ ∃ unsettled, change = .consensus unsettled ∧ 0 < unsettled) := by
  cases a with
  | createJob k =>
    obtain ⟨hk, ht⟩ := Option.ite_none_left_eq_some.1 ht
    cases ht
    dsimp only at hleft
    rw [Function.update_of_ne (ne_of_mem_of_not_mem hj hk)] at hleft
    exact absurd hcompleted hleft
  | deleteJob k =>
    obtain ⟨-, ht⟩ := Option.ite_none_right_eq_some.1 ht
    cases ht
    exact absurd hcompleted hleft
  | begin k request =>
    obtain ⟨-, ht⟩ := Option.ite_none_right_eq_some.1 ht
    cases ht
    exact absurd hcompleted hleft
  | run i statement =>
    obtain ⟨tx, hi, ht⟩ := Option.bind_eq_some_iff.1 ht
    rcases jobs_of_step ht with hsame | ⟨rfl, -,
      ⟨rows, rfl, hjobs⟩ | ⟨k, change, job, rfl, hw, hjobs⟩⟩
    · rw [hsame] at hleft
      exact absurd hcompleted hleft
    · -- A request names no job that is completed.
      rw [hjobs] at hleft
      by_cases hnamed : j ∈ rows.map Prod.fst
      · exact absurd hcompleted ((h.running hi).opened rfl (mem_jobs.2 hnamed))
      · rw [allocateJobs_of_not_mem hnamed] at hleft
        exact absurd hcompleted hleft
    · by_cases hjk : j = k
      · subst hjk
        rw [hjobs, Function.update_self] at hleft ⊢
        obtain ⟨hjob, hchange⟩ := Change.reopens (h.paired hj) hw hcompleted hleft
        exact ⟨hjob, i, change, rfl, hi, hchange⟩
      · rw [hjobs, Function.update_of_ne hjk] at hleft
        exact absurd hcompleted hleft

/-- A request's own step leaves every job as it was, or ends the request with each job that it
names as it asked. -/
theorem Inv.jobs_of_setAllocations (h : Inv s) {rows : List (ℕ × ℤ)} {stage : Stage}
    (hi : s.running i = some ⟨.setAllocations rows, stage⟩) {statement : Statement}
    (ht : Allocations.next s (.run i statement) = some t) :
    t.jobs = s.jobs ∨ t.running i = none ∧ (∀ row ∈ rows, t.jobs row.1 = asked row.2) ∧
      ∀ j ∉ rows.map Prod.fst, t.jobs j = s.jobs j := by
  obtain ⟨tx, hi', ht⟩ := Option.bind_eq_some_iff.1 ht
  cases hi.symm.trans hi'
  rcases jobs_of_step ht with hsame | ⟨rfl, hdone,
    ⟨rows', heq, hjobs⟩ | ⟨k, change, job, heq, -, -⟩⟩
  · exact .inl hsame
  · cases heq
    obtain ⟨-, hnodup⟩ := requestErrors_eq_nil (h.running hi).passed
    refine .inr ⟨hdone, fun row hrow ↦ ?_, fun j hj ↦ ?_⟩
    · rw [hjobs, Allocations.allocateJobs_of_mem hnodup hrow]
      exact (h.allocateJobs_of_mem hi hrow).2.2.2
    · rw [hjobs, allocateJobs_of_not_mem hj]
  · cases heq

theorem allocations_kept (h : machine.Reachable s) : total s.ids s.jobs ≤ 100 ∧
    (∀ j ∈ s.ids, 0 < (s.jobs j).allocation ↔ (s.jobs j).status = .active) ∧
    (∀ a t, Allocations.next s a = some t → ∀ j ∈ s.ids, (s.jobs j).status = .completed →
      (t.jobs j).status ≠ .completed → t.jobs j = ⟨.inactive, 0⟩ ∧ ∃ i change,
        a = .run i .commit ∧ s.running i = some ⟨.change j change, .locking []⟩ ∧
        (change = .purge ∨ ∃ unsettled, change = .consensus unsettled ∧ 0 < unsettled)) ∧
    ∀ i rows stage statement t, s.running i = some ⟨.setAllocations rows, stage⟩ →
      Allocations.next s (.run i statement) = some t →
      t.jobs = s.jobs ∨ t.running i = none ∧ (∀ row ∈ rows, t.jobs row.1 = asked row.2) ∧
        ∀ j ∉ rows.map Prod.fst, t.jobs j = s.jobs j := by
  have hinv := inv_of_reachable h
  refine ⟨hinv.total, fun j hj ↦ (hinv.paired hj).pos_iff, fun a t ht j hj ↦ hinv.reopens ht hj, ?_⟩
  exact fun i rows stage statement t hi ht ↦ hinv.jobs_of_setAllocations hi ht

def empty : State := ⟨∅, fun _ ↦ ⟨.inactive, 0⟩, fun _ ↦ none, none, fun _ ↦ none⟩

/-- Two requests of different jobs, the second waiting out the first. -/
theorem exists_allocations_kept : ∃ s, machine.Reachable s ∧
    s.jobs 0 = ⟨.active, 60⟩ ∧ s.jobs 1 = ⟨.active, 40⟩ ∧ total s.ids s.jobs ≤ 100 := by
  have h : machine.Reachable empty := .start ⟨rfl, fun _ ↦ rfl, rfl, fun _ ↦ rfl⟩
  obtain ⟨s, hs, hp⟩ := h.follow_any
    [.createJob 0, .createJob 1, .begin 0 (.setAllocations [(0, 60)]),
      .begin 1 (.setAllocations [(1, 40)]), .run 0 .lockRow, .run 1 .lockRow, .run 0 .activate,
      .run 0 .sum, .run 0 .commit, .run 1 .activate, .run 1 .sum, .run 1 .commit]
    (fun s ↦ s.jobs 0 = ⟨.active, 60⟩ ∧ s.jobs 1 = ⟨.active, 40⟩) (by decide +kernel)
  obtain ⟨hzero, hone⟩ := of_decide_eq_true hp
  exact ⟨s, hs, hzero, hone, (allocations_kept hs).1⟩

end Invariant

end Birdtest.Admin.Allocations
