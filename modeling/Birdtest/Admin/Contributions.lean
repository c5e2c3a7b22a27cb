import Birdtest.Base.Tables
import Birdtest.Scheduler.Claims
import Mathlib.Algebra.BigOperators.Group.Finset.Piecewise
import Mathlib.Algebra.Order.BigOperators.Group.Finset
import Mathlib.Algebra.Order.Pi
import Mathlib.Data.List.Sort
import Mathlib.Tactic.Abel

namespace Birdtest.Admin.Contributions

open Birdtest.Base.Runs Birdtest.Base.RowLocks Birdtest.Models.Job
open Birdtest.Base.Tables (of_update_eq_some isSome_update)
open Birdtest.Scheduler.Claims (Task claimTask releaseTask releaseTasks acceptResult pastDeadline
  lapsed)

inductive Counter
  | tasksCompleted | computeMs | movegens
  deriving DecidableEq

abbrev Totals : Type := Counter → ℤ

/-- Whose row the counters are on: `users`, `anonymous_workers` or `jobs`. -/
inductive Holder
  | user (id : ℕ)
  | anonymous (uuid : ℕ)
  | job (j : ℕ)
  deriving DecidableEq

structure TaskClaim extends Birdtest.Scheduler.Claims.TaskClaim where
  anonymous : Bool
  movegens : ℕ
  deriving DecidableEq

def owner (anonymous : Bool) (worker : ℕ) : Holder :=
  if anonymous then .anonymous worker else .user worker

def TaskClaim.owner (c : TaskClaim) : Holder := Contributions.owner c.anonymous c.worker

inductive Key
  | dispatch (j : ℕ)
  | totals (h : Holder)
  | task (t : ℕ)
  | claim (c : ℕ)
  deriving DecidableEq

/-- The claims and the tasks that a job has, as whoever has its dispatch lock finds them: both are
made under it. -/
structure Index where
  claims : List ℕ
  tasks : List ℕ
  deriving DecidableEq

abbrev Row : Key → Type
  | .dispatch _ => Index
  | .totals _ => Option Totals
  | .task _ => Option Task
  | .claim _ => Option TaskClaim

section Programs

/-- `CLAIM_COMPUTE_MS`: the milliseconds a claim was held, a half rounded up. -/
def claimComputeMs (c : TaskClaim) : ℤ :=
  max ((c.completedAt.getD c.claimedAt - c.claimedAt + 500) / 1000) 0

def earned (c : TaskClaim) : Totals
  | .tasksCompleted => 1
  | .computeMs => claimComputeMs c
  | .movegens => c.movegens

def progress (taskCompleted : Bool) (c : TaskClaim) : Totals
  | .tasksCompleted => taskCompleted.toNat
  | counter => earned c counter

/-- The first claim of an anonymous worker writes its row; any other identity has one. -/
def register (anonymous : Bool) (worker : ℕ) (k : Program Row) : Program Row :=
  .row (.totals (owner anonymous worker)) (fun row ↦ anonymous || row.isSome)
    (fun row ↦ if anonymous then some (row.getD 0) else row) fun _ ↦ k

def newClaim (now maxTaskSeconds : ℤ) (job task worker : ℕ) (anonymous : Bool) : TaskClaim :=
  { Birdtest.Scheduler.Claims.newClaim now maxTaskSeconds job task worker with
    anonymous, movegens := 0 }

def issueClaim (now maxTaskSeconds : ℤ) (job task claim worker : ℕ) (anonymous created : Bool) :
    Program Row :=
  .row (.dispatch job) (fun _ ↦ true)
    (fun index ↦
      ⟨index.claims.insert claim, if created then index.tasks.insert task else index.tasks⟩) fun _ ↦
  .row (.task task)
    (fun row ↦ if created then row.isNone
      else row.any fun t ↦ t.job = job ∧ t.state = .available)
    (fun row ↦ if created then some ⟨job, .available, 0, 0, none⟩ else row) fun _ ↦
  register anonymous worker <|
  .row (.claim claim) (·.isNone)
    (fun _ ↦ some (newClaim now maxTaskSeconds job task worker anonymous)) fun _ ↦
  .row (.task task) (fun _ ↦ true) (Option.map claimTask) fun _ ↦
  .row (.totals (.job job)) (·.isSome) id fun _ ↦
  .commit

def lockClaim (claim worker : ℕ) (anonymous : Bool) (k : TaskClaim → Program Row) : Program Row :=
  .row (.claim claim)
    (·.any fun c ↦ c.state = .claimed ∧ c.worker = worker ∧ c.anonymous = anonymous) id fun
  | some c => k c
  | none => .commit

theorem owner_newClaim {now maxTaskSeconds : ℤ} {job task worker : ℕ} {anonymous : Bool} :
    (newClaim now maxTaskSeconds job task worker anonymous).owner = owner anonymous worker := rfl

def releaseClaim (claim : ℕ) (terminal : ClaimState) (k : Program Row) : Program Row :=
  .row (.claim claim) (fun _ ↦ true)
    (Option.map fun c ↦ if c.state = .claimed then { c with state := terminal } else c) fun
  | some c =>
    if c.state = .claimed then
      .row (.task c.task) (fun _ ↦ true) (Option.map (releaseTask 1)) fun _ ↦ k
    else k
  | none => k

def declineTask (claim worker : ℕ) (anonymous : Bool) : Program Row :=
  lockClaim claim worker anonymous fun _ ↦ releaseClaim claim .declined .commit

def releaseTasks (expired : List ℕ) : List ℕ → Program Row
  | [] => .commit
  | t :: ts =>
    .row (.task t) (fun _ ↦ true) (Option.map (releaseTask (expired.count t))) fun _ ↦
    releaseTasks expired ts

def reclaimExpiredFor (now timeout : ℤ) (jobs : List ℕ) : List ℕ → List ℕ → Program Row
  | [], expired => releaseTasks expired expired.dedup
  | c :: cs, expired =>
    .row (.claim c) (·.any fun c ↦ c.job ∈ jobs ∧ lapsed now timeout c.toTaskClaim)
      (Option.map ({ · with state := .abandoned })) fun c ↦
    reclaimExpiredFor now timeout jobs cs (expired ++ (c.map (·.task)).toList)

def maxMovegensPerMs : ℤ := 1000000

def completeClaim (now : ℤ) (movegens : ℕ) (c : TaskClaim) : TaskClaim :=
  { c with state := .completed, completedAt := some now, movegens }

def movegensPlausible (c : TaskClaim) : Bool :=
  c.movegens ≤ min (max (claimComputeMs c) 1 * maxMovegensPerMs) (2 ^ 63 - 1)

def submitResult (now : ℤ) (claim worker : ℕ) (anonymous : Bool) (movegens : ℕ)
    (deadlinesEnforced : Bool) : Program Row :=
  lockClaim claim worker anonymous fun c ↦
    if pastDeadline now c.toTaskClaim ∧ deadlinesEnforced then
      releaseClaim claim .abandoned .commit
    else
      .row (.task c.task) (fun _ ↦ true) id fun _ ↦
      .row (.claim claim) (fun _ ↦ movegensPlausible (completeClaim now movegens c))
        (Option.map (completeClaim now movegens)) fun _ ↦
      .row (.task c.task) (·.isSome) (Option.map (acceptResult now)) fun t ↦
      .row (.totals c.owner) (fun _ ↦ true)
        (Option.map (· + earned (completeClaim now movegens c))) fun _ ↦
      .row (.totals (.job c.job)) (fun _ ↦ true)
        (Option.map (· + progress (t.any fun t ↦ t.acceptedCount + 1 = 1)
          (completeClaim now movegens c))) fun _ ↦
      .commit

def eachClaim (write : Option TaskClaim → Option TaskClaim) (k : List TaskClaim → Program Row) :
    List ℕ → List TaskClaim → Program Row
  | [], found => k found
  | c :: cs, found =>
    .row (.claim c) (fun _ ↦ true) write fun row ↦ eachClaim write k cs (found ++ row.toList)

def deleteTasks (k : Program Row) : List ℕ → Program Row
  | [] => k
  | t :: ts => .row (.task t) (fun _ ↦ true) (fun _ ↦ none) fun _ ↦ deleteTasks k ts

def owed (claims : List TaskClaim) (h : Holder) : Totals :=
  ((claims.filter fun c ↦ c.state = .completed ∧ c.owner = h).map earned).sum

def earnedBy (anonymous : Bool) (claims : List TaskClaim) : List (Holder × Totals) :=
  (((claims.filter fun c ↦ c.state = .completed ∧ c.anonymous = anonymous).map
    (·.worker)).dedup.insertionSort (· ≤ ·)).map fun id ↦
      (owner anonymous id, owed claims (owner anonymous id))

def lockTotals (k : Program Row) : List (Holder × Totals) → Program Row
  | [] => k
  | d :: ds => .row (.totals d.1) (fun _ ↦ true) id fun _ ↦ lockTotals k ds

def takeBack (clamp : ℤ → ℤ) (k : Program Row) : List (Holder × Totals) → Program Row
  | [] => k
  | d :: ds =>
    .row (.totals d.1) (fun _ ↦ true) (Option.map fun x counter ↦ clamp (x counter - d.2 counter))
      fun _ ↦ takeBack clamp k ds

def giveBack (clamp : ℤ → ℤ) (ds : List (Holder × Totals)) (k : Program Row) : Program Row :=
  lockTotals (takeBack clamp k ds) ds

/-- A purge, or a delete where the job's row goes too. The first statement of its claims locks the
open ones, and the second counts those completed: what else they read of them is nobody's to
change. -/
def purgeBody (clamp : ℤ → ℤ) (job : ℕ) (delete : Bool) : Program Row :=
  .row (.dispatch job) (fun _ ↦ true) id fun index ↦
  eachClaim id (fun _ ↦
    .row (.totals (.job job)) (·.isSome) id fun _ ↦
    eachClaim id (fun claims ↦
      eachClaim (fun _ ↦ none) (fun _ ↦
        .row (.totals (.job job)) (fun _ ↦ true) (fun _ ↦ if delete then none else some 0) fun _ ↦
        deleteTasks
          (.row (.dispatch job) (fun _ ↦ true) (fun _ ↦ ⟨[], []⟩) fun _ ↦
            giveBack clamp (earnedBy false claims) <| giveBack clamp (earnedBy true claims) .commit)
          index.tasks)
        index.claims [])
      index.claims [])
    index.claims []

def createRow (h : Holder) : Program Row :=
  .row (.totals h) (·.isNone) (fun _ ↦ some 0) fun _ ↦ .commit

end Programs

inductive Operation
  | claim (now maxTaskSeconds : ℤ) (job task claim worker : ℕ) (anonymous created : Bool)
  | decline (claim worker : ℕ) (anonymous : Bool)
  | reclaim (now timeout : ℤ) (jobs claims : List ℕ)
  | submit (now : ℤ) (claim worker : ℕ) (anonymous : Bool) (movegens : ℕ) (deadlinesEnforced : Bool)
  | purge (job : ℕ)
  | delete (job : ℕ)
  | createJob (job : ℕ)
  | createUser (user : ℕ)

def programWith (clamp : ℤ → ℤ) : Operation → Program Row
  | .claim now maxTaskSeconds job task claim worker anonymous created =>
    issueClaim now maxTaskSeconds job task claim worker anonymous created
  | .decline claim worker anonymous => declineTask claim worker anonymous
  | .reclaim now timeout jobs claims => reclaimExpiredFor now timeout jobs claims []
  | .submit now claim worker anonymous movegens deadlinesEnforced =>
    submitResult now claim worker anonymous movegens deadlinesEnforced
  | .purge job => purgeBody clamp job false
  | .delete job => purgeBody clamp job true
  | .createJob job => createRow (.job job)
  | .createUser user => createRow (.user user)

def greatest (x : ℤ) : ℤ := max x 0

def program : Operation → Program Row := programWith greatest

def start (st : Store Row) : Prop :=
  (∀ j, st (.dispatch j) = ⟨[], []⟩) ∧ (∀ h, st (.totals h) = none) ∧
    (∀ t, st (.task t) = none) ∧ ∀ c, st (.claim c) = none

/-- Any number of workers' and administrators' transactions, from an empty database. -/
def machine : Machine (Database Row Operation) (Action Operation) := interleaved program start

section Tables

def index (st : Store Row) (i : ℕ) : Index := st (.dispatch i)

def totals (st : Store Row) (i : Holder) : Option Totals := st (.totals i)

def tasks (st : Store Row) (i : ℕ) : Option Task := st (.task i)

def claims (st : Store Row) (i : ℕ) : Option TaskClaim := st (.claim i)

variable (st : Store Row)

@[simp]
theorem index_update_dispatch (i : ℕ) (v : Index) :
    index (Function.update st (.dispatch i) v) = Function.update (index st) i v :=
  Function.update_comp_eq_of_injective' st (fun _ _ h ↦ Key.dispatch.inj h) i v

@[simp]
theorem index_update_totals (i : Holder) (v : Option Totals) :
    index (Function.update st (.totals i) v) = index st := rfl

@[simp]
theorem index_update_task (i : ℕ) (v : Option Task) :
    index (Function.update st (.task i) v) = index st := rfl

@[simp]
theorem index_update_claim (i : ℕ) (v : Option TaskClaim) :
    index (Function.update st (.claim i) v) = index st := rfl

@[simp]
theorem totals_update_dispatch (i : ℕ) (v : Index) :
    totals (Function.update st (.dispatch i) v) = totals st := rfl

@[simp]
theorem totals_update_totals (i : Holder) (v : Option Totals) :
    totals (Function.update st (.totals i) v) = Function.update (totals st) i v :=
  Function.update_comp_eq_of_injective' st (fun _ _ h ↦ Key.totals.inj h) i v

@[simp]
theorem totals_update_task (i : ℕ) (v : Option Task) :
    totals (Function.update st (.task i) v) = totals st := rfl

@[simp]
theorem totals_update_claim (i : ℕ) (v : Option TaskClaim) :
    totals (Function.update st (.claim i) v) = totals st := rfl

@[simp]
theorem tasks_update_dispatch (i : ℕ) (v : Index) :
    tasks (Function.update st (.dispatch i) v) = tasks st := rfl

@[simp]
theorem tasks_update_totals (i : Holder) (v : Option Totals) :
    tasks (Function.update st (.totals i) v) = tasks st := rfl

@[simp]
theorem tasks_update_task (i : ℕ) (v : Option Task) :
    tasks (Function.update st (.task i) v) = Function.update (tasks st) i v :=
  Function.update_comp_eq_of_injective' st (fun _ _ h ↦ Key.task.inj h) i v

@[simp]
theorem tasks_update_claim (i : ℕ) (v : Option TaskClaim) :
    tasks (Function.update st (.claim i) v) = tasks st := rfl

@[simp]
theorem claims_update_dispatch (i : ℕ) (v : Index) :
    claims (Function.update st (.dispatch i) v) = claims st := rfl

@[simp]
theorem claims_update_totals (i : Holder) (v : Option Totals) :
    claims (Function.update st (.totals i) v) = claims st := rfl

@[simp]
theorem claims_update_task (i : ℕ) (v : Option Task) :
    claims (Function.update st (.task i) v) = claims st := rfl

@[simp]
theorem claims_update_claim (i : ℕ) (v : Option TaskClaim) :
    claims (Function.update st (.claim i) v) = Function.update (claims st) i v :=
  Function.update_comp_eq_of_injective' st (fun _ _ h ↦ Key.claim.inj h) i v

end Tables

section Accounts

variable {st : Store Row} {stored : Finset ℕ} {debt : Holder → Totals} {c : ℕ} {cl : TaskClaim}
  {h : Holder}

def credit (h : Holder) : Option TaskClaim → Totals
  | some c => if c.state = .completed ∧ (c.owner = h ∨ .job c.job = h) then earned c else 0
  | none => 0

def credits (stored : Finset ℕ) (claims : ℕ → Option TaskClaim) (h : Holder) : Totals :=
  ∑ c ∈ stored, credit h (claims c)

/-- The counters are those of the claims stored, but for what a transaction has still to take off
them. -/
structure Accounts (stored : Finset ℕ) (debt : Holder → Totals) (st : Store Row) : Prop where
  mem {c : ℕ} : claims st c ≠ none → c ∈ stored
  balanced {h : Holder} {x : Totals} : totals st h = some x →
    x = credits stored (claims st) h + debt h
  owner {c : ℕ} {cl : TaskClaim} : claims st c = some cl → (totals st cl.owner).isSome
  job {c : ℕ} {cl : TaskClaim} : claims st c = some cl → (totals st (.job cl.job)).isSome
  listed {c : ℕ} {cl : TaskClaim} : claims st c = some cl → c ∈ (index st cl.job).claims
  nodup (j : ℕ) : (index st j).claims.Nodup
  own {j c : ℕ} {cl : TaskClaim} : c ∈ (index st j).claims → claims st c = some cl → cl.job = j

theorem claimComputeMs_nonneg (c : TaskClaim) : 0 ≤ claimComputeMs c := le_max_right ..

theorem earned_nonneg (c : TaskClaim) : 0 ≤ earned c := by
  intro counter
  cases counter with
  | tasksCompleted => exact Int.one_nonneg
  | computeMs => exact claimComputeMs_nonneg c
  | movegens => exact Int.natCast_nonneg _

theorem credit_nonneg (row : Option TaskClaim) : 0 ≤ credit h row := by
  cases row with
  | none => exact le_rfl
  | some c =>
    rw [credit]
    split
    · exact earned_nonneg c
    · exact le_rfl

theorem credits_nonneg {claims : ℕ → Option TaskClaim} : 0 ≤ credits stored claims h :=
  Finset.sum_nonneg fun c _ ↦ credit_nonneg (claims c)

theorem credits_update {claims : ℕ → Option TaskClaim} (hc : c ∈ stored) (v : Option TaskClaim) :
    credits stored (Function.update claims c v) h =
      credits stored claims h - credit h (claims c) + credit h v := by
  have hrest : ∑ x ∈ stored.erase c, credit h (Function.update claims c v x) =
      ∑ x ∈ stored.erase c, credit h (claims x) :=
    Finset.sum_congr rfl fun x hx ↦ by rw [Function.update_of_ne (Finset.ne_of_mem_erase hx)]
  rw [credits, credits, ← Finset.add_sum_erase _ _ hc, ← Finset.add_sum_erase _ _ hc, hrest,
    Function.update_self]
  abel

theorem Accounts.setTask (ha : Accounts stored debt st) (t : ℕ) (v : Option Task) :
    Accounts stored debt (Function.update st (.task t) v) :=
  ⟨ha.mem, ha.balanced, ha.owner, ha.job, ha.listed, ha.nodup, ha.own⟩

theorem Accounts.setClaim (ha : Accounts stored debt st) (hc : c ∈ stored) (v : Option TaskClaim)
    (hv : ∀ cl, v = some cl → (totals st cl.owner).isSome ∧ (totals st (.job cl.job)).isSome ∧
      c ∈ (index st cl.job).claims ∧
      ∀ j, c ∈ (index st j).claims → cl.job = j) :
    Accounts stored (fun h ↦ debt h + credit h (claims st c) - credit h v)
      (Function.update st (.claim c) v) := by
  have hget {c' : ℕ} {cl : TaskClaim}
      (hcl : claims (Function.update st (.claim c) v) c' = some cl) :
      c' = c ∧ v = some cl ∨ claims st c' = some cl := by
    rw [claims_update_claim] at hcl
    by_cases hcc : c' = c
    · subst hcc
      rw [Function.update_self] at hcl
      exact .inl ⟨rfl, hcl⟩
    · rw [Function.update_of_ne hcc] at hcl
      exact .inr hcl
  refine ⟨fun {c'} hne ↦ ?_, fun {h x} hx ↦ ?_, fun {c' cl} hcl ↦ ?_, fun {c' cl} hcl ↦ ?_,
    fun {c' cl} hcl ↦ ?_, ha.nodup, fun {j c' cl} hj hcl ↦ ?_⟩
  · obtain ⟨cl, hcl⟩ := Option.ne_none_iff_exists'.1 hne
    rcases hget hcl with ⟨rfl, -⟩ | hcl
    · exact hc
    · exact ha.mem (by rw [hcl]; nofun)
  · rw [claims_update_claim, credits_update hc, ha.balanced hx]
    abel
  · rcases hget hcl with ⟨-, hv'⟩ | hcl
    · exact (hv cl hv').1
    · exact ha.owner hcl
  · rcases hget hcl with ⟨-, hv'⟩ | hcl
    · exact (hv cl hv').2.1
    · exact ha.job hcl
  · rcases hget hcl with ⟨rfl, hv'⟩ | hcl
    · exact (hv cl hv').2.2.1
    · exact ha.listed hcl
  · rcases hget hcl with ⟨rfl, hv'⟩ | hcl
    · exact (hv cl hv').2.2.2 j hj
    · exact ha.own hj hcl

theorem Accounts.writeClaim (ha : Accounts stored debt st) (hcl : claims st c = some cl)
    (cl' : TaskClaim) (howner : cl'.owner = cl.owner) (hjob : cl'.job = cl.job) :
    Accounts stored (fun h ↦ debt h + credit h (some cl) - credit h (some cl'))
      (Function.update st (.claim c) (some cl')) := by
  have hc : c ∈ stored := ha.mem (by rw [hcl]; nofun)
  rw [← hcl]
  refine ha.setClaim hc (some cl') ?_
  rintro _ ⟨⟩
  rw [howner, hjob]
  exact ⟨ha.owner hcl, ha.job hcl, ha.listed hcl, fun j hj ↦ ha.own hj hcl⟩

theorem credit_of_open (hopen : cl.state ≠ .completed) : credit h (some cl) = 0 :=
  if_neg fun hboth ↦ hopen hboth.1

theorem Accounts.endClaim (ha : Accounts stored debt st) (hcl : claims st c = some cl)
    (hopen : cl.state ≠ .completed) {terminal : ClaimState} (hterminal : terminal ≠ .completed) :
    Accounts stored debt
      (Function.update st (.claim c) (some { cl with state := terminal })) := by
  have hsame := ha.writeClaim hcl { cl with state := terminal } rfl rfl
  have hzero : (fun h ↦ debt h + credit h (some cl) -
      credit h (some { cl with state := terminal })) = debt := by
    funext h
    have hended : credit h (some { cl with state := terminal }) = 0 := credit_of_open hterminal
    rw [credit_of_open hopen, hended, add_zero, sub_zero]
  rwa [hzero] at hsame

theorem Accounts.addTotals (ha : Accounts stored debt st) {x a : Totals} {f : Totals → Totals}
    (hx : totals st h = some x) (hf : f x = x + a) :
    Accounts stored (Function.update debt h (debt h + a))
      (Function.update st (.totals h) (some (f x))) := by
  have hsome {h' : Holder} (h₁ : (totals st h').isSome) :
      (totals (Function.update st (.totals h) (some (f x))) h').isSome := by
    rw [totals_update_totals]
    exact isSome_update _ h₁
  refine ⟨ha.mem, fun {h' y} hy ↦ ?_, fun hcl ↦ hsome (ha.owner hcl),
    fun hcl ↦ hsome (ha.job hcl), ha.listed, ha.nodup, ha.own⟩
  rw [totals_update_totals] at hy
  obtain ⟨rfl, rfl⟩ | ⟨hh, hy⟩ := of_update_eq_some hy
  · rw [Function.update_self, hf, ha.balanced hx, add_assoc]
    rfl
  · rw [Function.update_of_ne hh]
    exact ha.balanced hy

theorem owner_ne_job (cl : TaskClaim) (j : ℕ) : cl.owner ≠ .job j := by
  rw [TaskClaim.owner, Contributions.owner]
  split <;> nofun

theorem credit_owner (hcompleted : cl.state = .completed) :
    credit cl.owner (some cl) = earned cl :=
  if_pos ⟨hcompleted, .inl rfl⟩

theorem credit_job (hcompleted : cl.state = .completed) :
    credit (.job cl.job) (some cl) = earned cl :=
  if_pos ⟨hcompleted, .inr rfl⟩

theorem credit_of_ne (howner : h ≠ cl.owner) (hjob : h ≠ .job cl.job) : credit h (some cl) = 0 :=
  if_neg fun hboth ↦ hboth.2.elim (howner ·.symm) (hjob ·.symm)

theorem credit_job_of_ne {j : ℕ} (hj : cl.job ≠ j) : credit (.job j) (some cl) = 0 :=
  credit_of_ne (owner_ne_job cl j).symm fun h ↦ hj (Holder.job.inj h).symm

theorem Accounts.accept (ha : Accounts stored 0 st) (hcl : claims st c = some cl)
    (hopen : cl.state = .claimed) (cl' : TaskClaim) (howner : cl'.owner = cl.owner)
    (hjob : cl'.job = cl.job) (hcompleted : cl'.state = .completed) (t : ℕ) (v : Option Task) :
    ∃ x y, totals st cl.owner = some x ∧ totals st (.job cl.job) = some y ∧
      Accounts stored 0
        (Function.update
          (Function.update
            (Function.update (Function.update st (.claim c) (some cl')) (.task t) v)
            (.totals cl.owner) (some (x + earned cl')))
          (.totals (.job cl.job)) (some (y + earned cl'))) := by
  obtain ⟨x, hx⟩ := Option.isSome_iff_exists.1 (ha.owner hcl)
  obtain ⟨y, hy⟩ := Option.isSome_iff_exists.1 (ha.job hcl)
  have hclaim := (ha.writeClaim hcl cl' howner hjob).setTask t v
  have hcontributor := hclaim.addTotals (f := (· + earned cl')) hx rfl
  have hy' : totals (Function.update
      (Function.update (Function.update st (.claim c) (some cl')) (.task t) v)
      (.totals cl.owner) (some (x + earned cl'))) (.job cl.job) = some y := by
    rw [totals_update_totals, Function.update_of_ne (owner_ne_job cl cl.job).symm]
    exact hy
  have hcredited := hcontributor.addTotals (f := (· + earned cl')) hy' rfl
  refine ⟨x, y, hx, hy, ?_⟩
  convert hcredited using 1
  funext h
  have hzero : credit h (some cl) = 0 := credit_of_open (by rw [hopen]; nofun)
  by_cases h₁ : h = .job cl.job
  · subst h₁
    rw [Function.update_self, Function.update_of_ne (owner_ne_job cl cl.job).symm, hzero, ← hjob,
      credit_job hcompleted, Pi.zero_apply, add_zero, zero_sub, neg_add_cancel]
  · rw [Function.update_of_ne h₁]
    by_cases h₂ : h = cl.owner
    · subst h₂
      rw [Function.update_self, hzero, ← howner, credit_owner hcompleted, Pi.zero_apply, add_zero,
        zero_sub, neg_add_cancel]
    · rw [Function.update_of_ne h₂, hzero, credit_of_ne (howner ▸ h₂) (hjob ▸ h₁), sub_zero,
        add_zero]

theorem Accounts.create (ha : Accounts stored debt st) (hnone : totals st h = none)
    (hdebt : debt h = 0) :
    Accounts stored debt (Function.update st (.totals h) (some 0)) := by
  have hzero : credits stored (claims st) h = 0 := by
    refine Finset.sum_eq_zero fun c _ ↦ ?_
    cases hcl : claims st c with
    | none => rfl
    | some cl =>
      refine if_neg fun hboth ↦ ?_
      rcases hboth.2 with rfl | rfl
      · have hsome := ha.owner hcl
        rw [hnone] at hsome
        cases hsome
      · have hsome := ha.job hcl
        rw [hnone] at hsome
        cases hsome
  have hsome {h' : Holder} (h₁ : (totals st h').isSome) :
      (totals (Function.update st (.totals h) (some 0)) h').isSome := by
    rw [totals_update_totals]
    exact isSome_update _ h₁
  refine ⟨ha.mem, fun {h' y} hy ↦ ?_, fun hcl ↦ hsome (ha.owner hcl),
    fun hcl ↦ hsome (ha.job hcl), ha.listed, ha.nodup, ha.own⟩
  rw [totals_update_totals] at hy
  obtain ⟨rfl, rfl⟩ | ⟨-, hy⟩ := of_update_eq_some hy
  · have hcredits : credits stored (claims (Function.update st (.totals h') (some 0))) h' = 0 :=
      hzero
    rw [hcredits, hdebt, add_zero]
  · exact ha.balanced hy

theorem Accounts.list (ha : Accounts stored debt st) (hnone : claims st c = none) (j : ℕ)
    (made : List ℕ) : Accounts stored debt
      (Function.update st (.dispatch j) ⟨(index st j).claims.insert c, made⟩) := by
  refine ⟨ha.mem, ha.balanced, ha.owner, ha.job, fun {c' cl} hcl ↦ ?_, fun j' ↦ ?_,
    fun {j' c' cl} hmem hcl ↦ ?_⟩
  · rw [index_update_dispatch]
    by_cases hj : cl.job = j
    · rw [hj, Function.update_self]
      exact List.mem_insert_of_mem (hj ▸ ha.listed hcl)
    · rw [Function.update_of_ne hj]
      exact ha.listed hcl
  · rw [index_update_dispatch]
    by_cases hj : j' = j
    · rw [hj, Function.update_self]
      exact (ha.nodup j).insert
    · rw [Function.update_of_ne hj]
      exact ha.nodup j'
  · rw [claims_update_dispatch] at hcl
    rw [index_update_dispatch] at hmem
    by_cases hj : j' = j
    · rw [hj, Function.update_self] at hmem
      rcases List.mem_insert_iff.1 hmem with rfl | hmem
      · cases hnone.symm.trans hcl
      · exact (ha.own hmem hcl).trans hj.symm
    · rw [Function.update_of_ne hj] at hmem
      exact ha.own hmem hcl

theorem Accounts.register (ha : Accounts stored debt st) {anonymous : Bool} {worker : ℕ}
    (hdebt : debt (Contributions.owner anonymous worker) = 0) :
    Accounts stored debt (Function.update st (.totals (Contributions.owner anonymous worker))
      (if anonymous then some ((st (.totals (Contributions.owner anonymous worker))).getD 0)
        else st (.totals (Contributions.owner anonymous worker)))) := by
  cases anonymous with
  | false =>
    rw [if_neg Bool.false_ne_true, Function.update_eq_self]
    exact ha
  | true =>
    rw [if_pos rfl]
    cases hrow : st (.totals (Contributions.owner true worker)) with
    | none => exact ha.create hrow hdebt
    | some x =>
      rw [Option.getD_some, ← hrow, Function.update_eq_self]
      exact ha

theorem Accounts.grow (ha : Accounts stored debt st) (hnone : claims st c = none) :
    Accounts (insert c stored) debt st := by
  refine ⟨fun hne ↦ Finset.mem_insert_of_mem (ha.mem hne), fun {h x} hx ↦ ?_, ha.owner, ha.job,
    ha.listed, ha.nodup, ha.own⟩
  rw [ha.balanced hx]
  by_cases hc : c ∈ stored
  · rw [Finset.insert_eq_of_mem hc]
  · rw [credits, credits, Finset.sum_insert hc, hnone, credit, zero_add]

theorem Accounts.open (ha : Accounts stored debt st) (hnone : claims st c = none)
    {now maxTaskSeconds : ℤ} {job task worker : ℕ} {anonymous : Bool}
    (howner : (totals st (newClaim now maxTaskSeconds job task worker anonymous).owner).isSome)
    (hjob : (totals st (.job job)).isSome) (hlisted : c ∈ (index st job).claims)
    (hown : ∀ j, c ∈ (index st j).claims → job = j) :
    Accounts (insert c stored) debt (Function.update st (.claim c)
      (some (newClaim now maxTaskSeconds job task worker anonymous))) := by
  have hopened := (ha.grow hnone).setClaim (Finset.mem_insert_self c stored)
    (some (newClaim now maxTaskSeconds job task worker anonymous)) fun cl hcl ↦ by
      cases hcl
      exact ⟨howner, hjob, hlisted, hown⟩
  have hzero : (fun h ↦ debt h + credit h (claims st c) -
      credit h (some (newClaim now maxTaskSeconds job task worker anonymous))) = debt := by
    funext h
    have hopened : credit h (some (newClaim now maxTaskSeconds job task worker anonymous)) = 0 :=
      credit_of_open nofun
    rw [hnone, hopened, credit, add_zero, sub_zero]
  rwa [hzero] at hopened

end Accounts

section Slots

variable {claims : ℕ → Option TaskClaim} {tasks : ℕ → Option Task} {index : ℕ → Index}
  {c t : ℕ} {cl : TaskClaim} {task : Task}

/-- An open claim holds its task alone, and a task that can be claimed has no accepted result. -/
structure Slots (claims : ℕ → Option TaskClaim) (tasks : ℕ → Option Task) (index : ℕ → Index) :
    Prop where
  slot {c : ℕ} {cl : TaskClaim} : claims c = some cl → cl.state = .claimed →
    ∃ t, tasks cl.task = some t ∧ t.job = cl.job ∧ t.state = .claimed ∧ t.acceptedCount = 0
  unique {c c' : ℕ} {cl cl' : TaskClaim} : claims c = some cl → claims c' = some cl' →
    cl.state = .claimed → cl'.state = .claimed → cl.task = cl'.task → c = c'
  available {t : ℕ} {task : Task} : tasks t = some task → task.state = .available →
    task.acceptedCount = 0
  made {j t : ℕ} : t ∈ (index j).tasks → ∃ task, tasks t = some task ∧ task.job = j
  kept {j c : ℕ} : c ∈ (index j).claims → (claims c).isSome

theorem open_of_update {v : Option TaskClaim} (hv : ∀ cl, v = some cl → cl.state ≠ .claimed)
    {c' : ℕ} (hcl : Function.update claims c v c' = some cl) (hopen : cl.state = .claimed) :
    claims c' = some cl := by
  by_cases hcc : c' = c
  · rw [hcc, Function.update_self] at hcl
    exact absurd hopen (hv cl hcl)
  · rwa [Function.update_of_ne hcc] at hcl

theorem Slots.closeClaim (hs : Slots claims tasks index) {cl' : TaskClaim}
    (hv : ∀ cl, some cl' = some cl → cl.state ≠ .claimed) :
    Slots (Function.update claims c (some cl')) tasks index := by
  refine ⟨fun {c' cl} hcl hopen ↦ hs.slot (open_of_update hv hcl hopen) hopen,
    fun {c₁ c₂ cl₁ cl₂} hcl₁ hcl₂ hopen₁ hopen₂ htask ↦ ?_, hs.available, hs.made,
    fun {j c'} hmem ↦ ?_⟩
  · exact hs.unique (open_of_update hv hcl₁ hopen₁) (open_of_update hv hcl₂ hopen₂) hopen₁ hopen₂
      htask
  · by_cases hcc : c' = c
    · rw [hcc, Function.update_self]
      rfl
    · rw [Function.update_of_ne hcc]
      exact hs.kept hmem

theorem Slots.setTask (hs : Slots claims tasks index) (ht : tasks t = some task) {task' : Task}
    (hjob : task'.job = task.job)
    (hfree : ∀ c cl, claims c = some cl → cl.state = .claimed → cl.task ≠ t)
    (havailable : task'.state = .available → task'.acceptedCount = 0) :
    Slots claims (Function.update tasks t (some task')) index := by
  refine ⟨fun {c cl} hcl hopen ↦ ?_, hs.unique, fun {t' task₁} ht' hstate ↦ ?_,
    fun {j t'} hmem ↦ ?_, hs.kept⟩
  · rw [Function.update_of_ne (hfree c cl hcl hopen)]
    exact hs.slot hcl hopen
  · by_cases htt : t' = t
    · rw [htt, Function.update_self, Option.some.injEq] at ht'
      exact ht' ▸ havailable (ht' ▸ hstate)
    · rw [Function.update_of_ne htt] at ht'
      exact hs.available ht' hstate
  · obtain ⟨task₁, htask₁, hj⟩ := hs.made hmem
    by_cases htt : t' = t
    · subst htt
      cases ht.symm.trans htask₁
      exact ⟨task', Function.update_self .., hjob.trans hj⟩
    · exact ⟨task₁, (Function.update_of_ne htt ..).trans htask₁, hj⟩

theorem releaseTask_available {n : ℕ} (h : (releaseTask n task).state = .available) :
    (releaseTask n task).acceptedCount = 0 := by
  by_contra hne
  have hpos : 0 < task.acceptedCount := Nat.pos_of_ne_zero hne
  simp [releaseTask, hpos] at h

theorem Slots.release (hs : Slots claims tasks index) {n : ℕ}
    (hfree : ∀ c cl, claims c = some cl → cl.state = .claimed → cl.task ≠ t) :
    Slots claims (Function.update tasks t ((tasks t).map (releaseTask n))) index := by
  cases ht : tasks t with
  | none =>
    rw [Option.map_none, ← ht, Function.update_eq_self]
    exact hs
  | some task => exact hs.setTask ht rfl hfree releaseTask_available

theorem Slots.free_of_open (hs : Slots claims tasks index) (hcl : claims c = some cl)
    (hopen : cl.state = .claimed) {v : Option TaskClaim}
    (hv : ∀ cl, v = some cl → cl.state ≠ .claimed) (c' : ℕ) (cl' : TaskClaim)
    (hcl' : Function.update claims c v c' = some cl') (hopen' : cl'.state = .claimed) :
    cl'.task ≠ cl.task := by
  intro htask
  have hcc := hs.unique (open_of_update hv hcl' hopen') hcl hopen' hopen htask
  rw [hcc, Function.update_self] at hcl'
  exact hv cl' hcl' hopen'

theorem Slots.issue (hs : Slots claims tasks index) {j : ℕ} (hmade : List ℕ)
    (htask : tasks t = some task ∧ task.job = j ∧ task.state = .available ∧
      hmade = (index j).tasks ∨ tasks t = none ∧ task = ⟨j, .available, 0, 0, none⟩ ∧ hmade =
      (index j).tasks.insert t)
    (hclaimed : cl.task = t ∧ cl.job = j) :
    Slots (Function.update claims c (some cl)) (Function.update tasks t (some (claimTask task)))
      (Function.update index j ⟨(index j).claims.insert c, hmade⟩) := by
  have hfree {c' : ℕ} {cl' : TaskClaim} (hcl' : claims c' = some cl')
      (hopen : cl'.state = .claimed) :
      cl'.task ≠ t := by
    rintro rfl
    obtain ⟨t₁, ht₁, -, hstate, -⟩ := hs.slot hcl' hopen
    rcases htask with ⟨ht, -, havailable, -⟩ | ⟨ht, -⟩
    · cases ht.symm.trans ht₁
      cases hstate.symm.trans havailable
    · cases ht.symm.trans ht₁
  have hjob : task.job = j := by
    rcases htask with ⟨-, hjob, -⟩ | ⟨-, rfl, -⟩
    · exact hjob
    · rfl
  have haccepted : task.acceptedCount = 0 := by
    rcases htask with ⟨ht, -, havailable, -⟩ | ⟨-, rfl, -⟩
    · exact hs.available ht havailable
    · rfl
  refine ⟨fun {c' cl'} hcl' hopen ↦ ?_, fun {c₁ c₂ cl₁ cl₂} hcl₁ hcl₂ hopen₁ hopen₂ hsame ↦ ?_,
    fun {t' task'} ht' hstate ↦ ?_, fun {j' t'} hmem ↦ ?_, fun {j' c'} hmem ↦ ?_⟩
  · by_cases hcc : c' = c
    · rw [hcc, Function.update_self, Option.some.injEq] at hcl'
      subst hcl'
      rw [hclaimed.1, Function.update_self, hclaimed.2]
      exact ⟨claimTask task, rfl, hjob, rfl, haccepted⟩
    · rw [Function.update_of_ne hcc] at hcl'
      rw [Function.update_of_ne (hfree hcl' hopen)]
      exact hs.slot hcl' hopen
  · by_cases h₁ : c₁ = c
    · by_cases h₂ : c₂ = c
      · rw [h₁, h₂]
      · rw [h₁, Function.update_self, Option.some.injEq] at hcl₁
        rw [Function.update_of_ne h₂] at hcl₂
        exact absurd (hsame.symm.trans (hcl₁ ▸ hclaimed.1)) (hfree hcl₂ hopen₂)
    · rw [Function.update_of_ne h₁] at hcl₁
      by_cases h₂ : c₂ = c
      · rw [h₂, Function.update_self, Option.some.injEq] at hcl₂
        exact absurd (hsame.trans (hcl₂ ▸ hclaimed.1)) (hfree hcl₁ hopen₁)
      · rw [Function.update_of_ne h₂] at hcl₂
        exact hs.unique hcl₁ hcl₂ hopen₁ hopen₂ hsame
  · by_cases htt : t' = t
    · rw [htt, Function.update_self, Option.some.injEq] at ht'
      exact ht' ▸ haccepted
    · rw [Function.update_of_ne htt] at ht'
      exact hs.available ht' hstate
  · by_cases htt : t' = t
    · subst htt
      refine ⟨claimTask task, Function.update_self .., ?_⟩
      by_cases hj : j' = j
      · exact hjob.trans hj.symm
      · -- Another job's task is not one that stands available for this job, nor one to be made.
        rw [Function.update_of_ne hj] at hmem
        obtain ⟨task₁, ht₁, hj₁⟩ := hs.made hmem
        rcases htask with ⟨ht, -, -⟩ | ⟨ht, -⟩
        · cases ht.symm.trans ht₁
          exact hj₁
        · cases ht.symm.trans ht₁
    · rw [Function.update_of_ne htt]
      by_cases hj : j' = j
      · subst hj
        rw [Function.update_self] at hmem
        rcases htask with ⟨-, -, -, rfl⟩ | ⟨-, -, rfl⟩
        · exact hs.made hmem
        · exact hs.made ((List.mem_insert_iff.1 hmem).resolve_left htt)
      · rw [Function.update_of_ne hj] at hmem
        exact hs.made hmem
  · by_cases hcc : c' = c
    · rw [hcc, Function.update_self]
      rfl
    · rw [Function.update_of_ne hcc]
      by_cases hj : j' = j
      · rw [hj, Function.update_self] at hmem
        exact hs.kept ((List.mem_insert_iff.1 hmem).resolve_left hcc)
      · rw [Function.update_of_ne hj] at hmem
        exact hs.kept hmem

end Slots

section Operations

variable {st : Store Row} {c worker : ℕ} {cl : TaskClaim} {anonymous : Bool} {now : ℤ}

def Inv (st : Store Row) : Prop :=
  (∃ stored, Accounts stored 0 st) ∧ Slots (claims st) (tasks st) (index st)

theorem ensures_lockClaim {k : TaskClaim → Program Row} {Q : Store Row → Prop}
    (h : ∀ cl, claims st c = some cl → cl.state = .claimed → cl.worker = worker →
      cl.anonymous = anonymous → (k cl).Ensures Q st) :
    (lockClaim c worker anonymous k).Ensures Q st := by
  apply Program.ensures_row
  intro hguard
  obtain ⟨cl, hcl, hpass⟩ := (Option.any_eq_true ..).1 hguard
  obtain ⟨hopen, hworker, hanonymous⟩ := of_decide_eq_true hpass
  rw [id_eq, Function.update_eq_self, hcl]
  exact h cl hcl hopen hworker hanonymous

theorem Inv.releaseClaim (h : Inv st) (hcl : claims st c = some cl) (hopen : cl.state = .claimed)
    {terminal : ClaimState} (hterminal : terminal ≠ .claimed ∧ terminal ≠ .completed) :
    (releaseClaim c terminal .commit).Ensures Inv st := by
  obtain ⟨⟨stored, ha⟩, hs⟩ := h
  have hst : st (.claim c) = some cl := hcl
  apply Program.ensures_row
  intro _
  rw [hst, Option.map_some, if_pos hopen]
  dsimp only
  rw [if_pos hopen]
  apply Program.ensures_row
  intro _
  apply Program.ensures_commit
  have hclose : ∀ cl', some { cl with state := terminal } = some cl' → cl'.state ≠ .claimed := by
    rintro _ ⟨⟩
    exact hterminal.1
  constructor
  · refine ⟨stored, Accounts.setTask ?_ ..⟩
    exact ha.endClaim hcl (by rw [hopen]; nofun) hterminal.2
  · simp only [claims_update_task, claims_update_claim, tasks_update_task, tasks_update_claim,
      index_update_task, index_update_claim]
    exact (hs.closeClaim hclose).release (hs.free_of_open hcl hopen hclose)

theorem Inv.declineTask (h : Inv st) : (declineTask c worker anonymous).Ensures Inv st :=
  ensures_lockClaim fun _ hcl hopen _ _ ↦ h.releaseClaim hcl hopen ⟨nofun, nofun⟩

theorem ensures_releaseTasks {stored : Finset ℕ} {expired ts : List ℕ}
    (ha : Accounts stored 0 st) (hs : Slots (claims st) (tasks st) (index st))
    (hfree : ∀ t ∈ ts, ∀ c cl, claims st c = some cl → cl.state = .claimed → cl.task ≠ t) :
    (releaseTasks expired ts).Ensures Inv st := by
  induction ts generalizing st with
  | nil => exact Program.ensures_commit ⟨⟨stored, ha⟩, hs⟩
  | cons t ts ih =>
    apply Program.ensures_row
    intro _
    apply ih
    · exact ha.setTask ..
    · simp only [claims_update_task, tasks_update_task, index_update_task]
      exact hs.release (hfree t List.mem_cons_self)
    · intro t' ht'
      exact hfree t' (List.mem_cons_of_mem _ ht')

theorem ensures_reclaimExpiredFor {stored : Finset ℕ} {timeout : ℤ} {jobs cs expired : List ℕ}
    (ha : Accounts stored 0 st) (hs : Slots (claims st) (tasks st) (index st))
    (hfree : ∀ t ∈ expired, ∀ c cl, claims st c = some cl → cl.state = .claimed → cl.task ≠ t) :
    (reclaimExpiredFor now timeout jobs cs expired).Ensures Inv st := by
  induction cs generalizing st expired with
  | nil => exact ensures_releaseTasks ha hs fun t ht ↦ hfree t (List.mem_dedup.1 ht)
  | cons c cs ih =>
    apply Program.ensures_row
    intro hguard
    obtain ⟨cl, hst, hpass⟩ := (Option.any_eq_true ..).1 hguard
    have hcl : claims st c = some cl := hst
    have hopen : cl.state = .claimed := (of_decide_eq_true (of_decide_eq_true hpass).2).1
    have hclose : ∀ cl', some { cl with state := .abandoned } = some cl' →
        cl'.state ≠ .claimed := by
      rintro _ ⟨⟩
      nofun
    rw [hst, Option.map_some]
    apply ih
    · exact ha.endClaim hcl (by rw [hopen]; nofun) nofun
    · simp only [claims_update_claim, tasks_update_claim, index_update_claim]
      exact hs.closeClaim hclose
    · intro t ht c' cl' hcl' hopen'
      rw [claims_update_claim] at hcl'
      rcases List.mem_append.1 ht with ht | ht
      · exact hfree t ht c' cl' (open_of_update hclose hcl' hopen') hopen'
      · rw [List.mem_singleton.1 ht]
        exact hs.free_of_open hcl hopen hclose c' cl' hcl' hopen'

theorem Inv.createRow (h : Inv st) {holder : Holder} : (createRow holder).Ensures Inv st := by
  obtain ⟨⟨stored, ha⟩, hs⟩ := h
  apply Program.ensures_row
  intro hnone
  apply Program.ensures_commit
  exact ⟨⟨stored, ha.create (Option.isNone_iff_eq_none.1 hnone) rfl⟩, hs⟩

theorem made_or_available {created : Bool} {job task : ℕ}
    (h : (if created then (tasks st task).isNone
      else (tasks st task).any fun t ↦ t.job = job ∧ t.state = .available) = true) :
    ∃ t : Task, (if created then some ⟨job, .available, 0, 0, none⟩ else tasks st task) = some t ∧
      (tasks st task = some t ∧ t.job = job ∧ t.state = .available ∧ created = false ∨
        tasks st task = none ∧ t = ⟨job, .available, 0, 0, none⟩ ∧ created = true) := by
  cases created with
  | true => exact ⟨_, rfl, .inr ⟨Option.isNone_iff_eq_none.1 h, rfl, rfl⟩⟩
  | false =>
    obtain ⟨t, ht, hpass⟩ := (Option.any_eq_true ..).1 h
    obtain ⟨hjob, havailable⟩ := of_decide_eq_true hpass
    exact ⟨t, ht, .inl ⟨ht, hjob, havailable, rfl⟩⟩

theorem Inv.issueClaim (h : Inv st) {maxTaskSeconds : ℤ} {job task : ℕ} {created : Bool} :
    (issueClaim now maxTaskSeconds job task c worker anonymous created).Ensures Inv st := by
  obtain ⟨⟨stored, ha⟩, hs⟩ := h
  apply Program.ensures_row
  intro _
  apply Program.ensures_row
  intro htask
  apply Program.ensures_row
  intro howner
  apply Program.ensures_row
  intro hclaim
  apply Program.ensures_row
  intro _
  apply Program.ensures_row
  intro hjob
  apply Program.ensures_commit
  rw [id_eq, Function.update_eq_self]
  have hnone : claims st c = none := Option.isNone_iff_eq_none.1 hclaim
  obtain ⟨t, hwrite, ht⟩ := made_or_available htask
  constructor
  · refine ⟨insert c stored, Accounts.setTask (Accounts.open (Accounts.register (Accounts.setTask
      (Accounts.list ha hnone job _) task _) rfl) hnone ?_ hjob ?_ ?_) ..⟩
    · rw [owner_newClaim, totals_update_totals, Function.update_self]
      cases anonymous with
      | true => rfl
      | false => exact howner
    · rw [index_update_totals, index_update_task, index_update_dispatch, Function.update_self]
      exact List.mem_insert_self
    · intro j hj
      simp only [index_update_totals, index_update_task, index_update_dispatch] at hj
      by_contra hne
      rw [Function.update_of_ne (Ne.symm hne)] at hj
      have hsome := hs.kept hj
      rw [hnone] at hsome
      cases hsome
  · simp only [claims_update_task, claims_update_claim, claims_update_totals,
      claims_update_dispatch, tasks_update_task, tasks_update_claim, tasks_update_totals,
      tasks_update_dispatch,
      index_update_task, index_update_claim, index_update_totals, index_update_dispatch,
      Function.update_idem]
    have hread : (if created then some ⟨job, .available, 0, 0, none⟩ else st (.task task)) =
        some t := hwrite
    simp only [ne_eq, reduceCtorEq, not_false_eq_true, Function.update_of_ne,
      Function.update_self, hread, Option.map_some]
    apply hs.issue _ ?_ ⟨rfl, rfl⟩
    rcases ht with ⟨ht, hj, havailable, rfl⟩ | ⟨ht, rfl, rfl⟩
    · exact .inl ⟨ht, hj, havailable, rfl⟩
    · exact .inr ⟨ht, rfl, rfl⟩

theorem progress_true (cl : TaskClaim) : progress true cl = earned cl := by
  funext counter
  cases counter <;> rfl

theorem Inv.submitResult (h : Inv st) {movegens : ℕ} {deadlinesEnforced : Bool} :
    (submitResult now c worker anonymous movegens deadlinesEnforced).Ensures Inv st := by
  apply ensures_lockClaim
  intro cl hcl hopen _ _
  split
  · exact h.releaseClaim hcl hopen ⟨nofun, nofun⟩
  obtain ⟨⟨stored, ha⟩, hs⟩ := h
  obtain ⟨t, ht, -, -, haccepted⟩ := hs.slot hcl hopen
  have hst : st (.claim c) = some cl := hcl
  have htask : st (.task cl.task) = some t := ht
  obtain ⟨x, y, hx, hy, hcredited⟩ := ha.accept hcl hopen
    (completeClaim now movegens cl) rfl rfl rfl cl.task (some (acceptResult now t))
  have hclose : ∀ cl', some (completeClaim now movegens cl) = some cl' → cl'.state ≠ .claimed := by
    rintro _ ⟨⟩
    nofun
  apply Program.ensures_row
  intro _
  rw [id_eq, Function.update_eq_self]
  apply Program.ensures_row
  intro _
  rw [hst, Option.map_some]
  apply Program.ensures_row
  intro _
  have hread : Function.update st (.claim c) (some (completeClaim now movegens cl))
      (.task cl.task) = some t := htask
  rw [hread, Option.map_some, Option.any_some, haccepted, decide_eq_true rfl, progress_true]
  apply Program.ensures_row
  intro _
  have howner : Function.update (Function.update st (.claim c)
      (some (completeClaim now movegens cl))) (.task cl.task) (some (acceptResult now t))
      (.totals cl.owner) = some x := hx
  rw [howner, Option.map_some]
  apply Program.ensures_row
  intro _
  have hjob : Function.update (Function.update (Function.update st (.claim c)
      (some (completeClaim now movegens cl))) (.task cl.task) (some (acceptResult now t)))
      (.totals cl.owner) (some (x + earned (completeClaim now movegens cl)))
      (.totals (.job cl.job)) = some y := by
    rw [Function.update_of_ne fun h ↦ owner_ne_job cl cl.job (Key.totals.inj h).symm]
    exact hy
  rw [hjob, Option.map_some]
  apply Program.ensures_commit
  refine ⟨⟨stored, hcredited⟩, ?_⟩
  simp only [claims_update_totals, claims_update_task, claims_update_claim, tasks_update_totals,
    tasks_update_task, tasks_update_claim, index_update_totals, index_update_task,
    index_update_claim]
  exact (hs.closeClaim hclose).setTask ht rfl (hs.free_of_open hcl hopen hclose) nofun

end Operations

section Purges

variable {st : Store Row} {stored : Finset ℕ} {debt : Holder → Totals} {h : Holder}
  {k k' : Program Row} {Q : Store Row → Prop}

def withoutClaims (cs : List ℕ) (st : Store Row) : Store Row
  | .claim c => if c ∈ cs then none else claims st c
  | .dispatch j => index st j
  | .totals h => totals st h
  | .task t => tasks st t

def withoutTasks (ts : List ℕ) (st : Store Row) : Store Row
  | .task t => if t ∈ ts then none else tasks st t
  | .dispatch j => index st j
  | .totals h => totals st h
  | .claim c => claims st c

theorem withoutClaims_cons (c : ℕ) (cs : List ℕ) (st : Store Row) :
    withoutClaims cs (Function.update st (.claim c) none) = withoutClaims (c :: cs) st := by
  funext key
  cases key with
  | claim c' =>
    simp only [withoutClaims, claims_update_claim]
    by_cases hc : c' = c
    · rw [hc, Function.update_self, ite_self, if_pos List.mem_cons_self]
    · simp only [Function.update_of_ne hc, List.mem_cons, hc, false_or]
  | _ => rfl

theorem withoutTasks_cons (t : ℕ) (ts : List ℕ) (st : Store Row) :
    withoutTasks ts (Function.update st (.task t) none) = withoutTasks (t :: ts) st := by
  funext key
  cases key with
  | task t' =>
    simp only [withoutTasks, tasks_update_task]
    by_cases ht : t' = t
    · rw [ht, Function.update_self, ite_self, if_pos List.mem_cons_self]
    · simp only [Function.update_of_ne ht, List.mem_cons, ht, false_or]
  | _ => rfl

theorem withoutClaims_nil (st : Store Row) : withoutClaims [] st = st := by
  funext key
  cases key with
  | claim c =>
    show (if c ∈ [] then none else claims st c) = claims st c
    exact if_neg List.not_mem_nil
  | _ => rfl

theorem withoutTasks_nil (st : Store Row) : withoutTasks [] st = st := by
  funext key
  cases key with
  | task t =>
    show (if t ∈ [] then none else tasks st t) = tasks st t
    exact if_neg List.not_mem_nil
  | _ => rfl

theorem agrees_readClaims {k k' : List TaskClaim → Program Row} {cs : List ℕ}
    {found : List TaskClaim}
    (h : (k (found ++ cs.filterMap (claims st))).Agrees (k' (found ++ cs.filterMap (claims st)))
      Q st) :
    (eachClaim id k cs found).Agrees (eachClaim id k' cs found) Q st := by
  induction cs generalizing found with
  | nil =>
    rw [List.filterMap_nil, List.append_nil] at h
    exact h
  | cons c cs ih =>
    apply Program.agrees_read
    apply ih
    have hfound : found ++ (c :: cs).filterMap (claims st) =
        found ++ (st (.claim c)).toList ++ cs.filterMap (claims st) := by
      rw [List.append_assoc]
      congr 1
      cases hc : st (.claim c) with
      | none => exact List.filterMap_cons_none hc
      | some cl => exact List.filterMap_cons_some hc
    rwa [hfound] at h

theorem agrees_deleteClaims {cs : List ℕ} {found : List TaskClaim}
    (h : k.Agrees k' Q (withoutClaims cs st)) :
    (eachClaim (fun _ ↦ none) (fun _ ↦ k) cs found).Agrees
      (eachClaim (fun _ ↦ none) (fun _ ↦ k') cs found) Q st := by
  induction cs generalizing st found with
  | nil => rwa [withoutClaims_nil] at h
  | cons c cs ih =>
    apply Program.agrees_row
    intro _
    refine ⟨rfl, ?_⟩
    apply ih
    rwa [withoutClaims_cons]

theorem agrees_deleteTasks {ts : List ℕ} (h : k.Agrees k' Q (withoutTasks ts st)) :
    (deleteTasks k ts).Agrees (deleteTasks k' ts) Q st := by
  induction ts generalizing st with
  | nil => rwa [withoutTasks_nil] at h
  | cons t ts ih =>
    apply Program.agrees_row
    intro _
    refine ⟨rfl, ?_⟩
    apply ih
    rwa [withoutTasks_cons]

theorem agrees_lockTotals {ds : List (Holder × Totals)} (h : k.Agrees k' Q st) :
    (lockTotals k ds).Agrees (lockTotals k' ds) Q st := by
  induction ds with
  | nil => exact h
  | cons d ds ih =>
    apply Program.agrees_read
    exact ih

/-- What is taken back of a contributor was credited, so that nothing is clamped. -/
theorem Accounts.takeBack (ha : Accounts stored debt st) (h : Holder) :
    (totals st h).map (fun x counter ↦ id (x counter - debt h counter)) =
        (totals st h).map (fun x counter ↦ greatest (x counter - debt h counter)) ∧
      Accounts stored (Function.update debt h 0) (Function.update st (.totals h)
        ((totals st h).map fun x counter ↦ greatest (x counter - debt h counter))) := by
  cases hrow : totals st h with
  | none =>
    refine ⟨rfl, ?_⟩
    have hst : st (.totals h) = none := hrow
    rw [Option.map_none, ← hst, Function.update_eq_self]
    refine ⟨ha.mem, fun {h' x} hx ↦ ?_, ha.owner, ha.job, ha.listed, ha.nodup, ha.own⟩
    by_cases hh : h' = h
    · cases hrow.symm.trans (hh ▸ hx)
    · rw [Function.update_of_ne hh]
      exact ha.balanced hx
  | some x =>
    have hdiff : x - debt h = credits stored (claims st) h := by
      rw [ha.balanced hrow, add_sub_cancel_right]
    have hkept (counter : Counter) :
        greatest (x counter - debt h counter) = x counter - debt h counter :=
      max_eq_left ((credits_nonneg counter).trans_eq (congrFun hdiff counter).symm)
    have hpaid := ha.addTotals (a := -debt h)
      (f := fun x counter ↦ greatest (x counter - debt h counter)) hrow
      (funext fun counter ↦ (hkept counter).trans (sub_eq_add_neg _ _))
    rw [add_neg_cancel] at hpaid
    exact ⟨congrArg some (funext fun counter ↦ (hkept counter).symm), hpaid⟩

theorem agrees_takeBack {ds : List (Holder × Totals)} (ha : Accounts stored debt st)
    (hs : Slots (claims st) (tasks st) (index st)) (hnodup : (ds.map Prod.fst).Nodup)
    (hdebt : ∀ d ∈ ds, debt d.1 = d.2)
    (hnext : ∀ st', Accounts stored (fun h ↦ if h ∈ ds.map Prod.fst then 0 else debt h) st' →
      Slots (claims st') (tasks st') (index st') → k.Agrees k' Q st') :
    (takeBack greatest k ds).Agrees (takeBack id k' ds) Q st := by
  induction ds generalizing st debt with
  | nil => exact hnext st ha hs
  | cons d ds ih =>
    obtain ⟨hd, hnodup⟩ := List.nodup_cons.1 hnodup
    have hfirst : d.2 = debt d.1 := (hdebt d List.mem_cons_self).symm
    obtain ⟨hclamp, htaken⟩ := ha.takeBack d.1
    apply Program.agrees_row
    intro _
    rw [hfirst]
    refine ⟨hclamp, ?_⟩
    refine ih htaken hs hnodup (fun d' hd' ↦ ?_) fun st' ha' hs' ↦ hnext st' ?_ hs'
    · rw [Function.update_of_ne (ne_of_mem_of_not_mem (List.mem_map_of_mem hd') hd)]
      exact hdebt d' (List.mem_cons_of_mem _ hd')
    · convert ha' using 2 with h
      by_cases hh : h = d.1
      · rw [if_pos (hh ▸ List.mem_cons_self), hh, if_neg hd, Function.update_self]
      · rw [Function.update_of_ne hh]
        simp only [List.map_cons, List.mem_cons, hh, false_or]

theorem owed_filterMap {claims : ℕ → Option TaskClaim} (hh : ∀ j, h ≠ .job j) (cs : List ℕ) :
    owed (cs.filterMap claims) h = (cs.map fun c ↦ credit h (claims c)).sum := by
  induction cs with
  | nil => rfl
  | cons c cs ih =>
    rw [List.map_cons, List.sum_cons, ← ih]
    cases hc : claims c with
    | none => rw [List.filterMap_cons_none hc, credit, zero_add]
    | some cl =>
      have hiff : cl.state = .completed ∧ (cl.owner = h ∨ .job cl.job = h) ↔
          cl.state = .completed ∧ cl.owner = h := by
        rw [or_iff_left fun hjob ↦ hh cl.job hjob.symm]
      rw [List.filterMap_cons_some hc, credit, owed, List.filter_cons]
      simp only [hiff, decide_eq_true_eq]
      split
      · rw [List.map_cons, List.sum_cons]
        rfl
      · rw [zero_add]
        rfl

theorem credits_withoutClaims {cs : List ℕ} (hnodup : cs.Nodup) (hcs : ∀ c ∈ cs, c ∈ stored) :
    credits stored (claims st) h = credits stored (claims (withoutClaims cs st)) h +
      (cs.map fun c ↦ credit h (claims st c)).sum := by
  have hsum : (cs.map fun c ↦ credit h (claims st c)).sum =
      ∑ c ∈ stored, if c ∈ cs.toFinset then credit h (claims st c) else 0 := by
    have hsub : cs.toFinset ⊆ stored := fun c hc ↦ hcs c (List.mem_toFinset.1 hc)
    rw [Finset.sum_ite_mem, Finset.inter_eq_right.2 hsub, List.sum_toFinset _ hnodup]
  rw [hsum, credits, credits, ← Finset.sum_add_distrib]
  refine Finset.sum_congr rfl fun c _ ↦ ?_
  have hclaim : claims (withoutClaims cs st) c = if c ∈ cs then none else claims st c := rfl
  rw [hclaim]
  simp only [List.mem_toFinset]
  split
  · rw [credit, zero_add]
  · rw [add_zero]

def purged (job : ℕ) (row : Option Totals) (st : Store Row) : Store Row :=
  Function.update
    (withoutTasks (index st job).tasks
      (Function.update (withoutClaims (index st job).claims st) (.totals (.job job)) row))
    (.dispatch job) ⟨[], []⟩

variable {job : ℕ} {row : Option Totals}

theorem index_purged :
    index (purged job row st) = Function.update (index st) job ⟨[], []⟩ := by
  rw [purged, index_update_dispatch]
  rfl

theorem totals_purged :
    totals (purged job row st) = Function.update (totals st) (.job job) row := by
  rw [purged, totals_update_dispatch]
  exact totals_update_totals ..

theorem tasks_purged (t : ℕ) :
    tasks (purged job row st) t = if t ∈ (index st job).tasks then none else tasks st t := by
  rw [purged, tasks_update_dispatch]
  rfl

theorem claims_purged (c : ℕ) :
    claims (purged job row st) c = if c ∈ (index st job).claims then none else claims st c := by
  rw [purged, claims_update_dispatch]
  rfl

theorem Accounts.claims_purged (ha : Accounts stored debt st) {c : ℕ} {cl : TaskClaim}
    (hcl : claims (purged job row st) c = some cl) : claims st c = some cl ∧ cl.job ≠ job := by
  rw [Contributions.claims_purged, Option.ite_none_left_eq_some] at hcl
  exact ⟨hcl.2, fun hj ↦ hcl.1 (hj ▸ ha.listed hcl.2)⟩

def purgeDebt (claims : List TaskClaim) : Holder → Totals
  | .job _ => 0
  | h => owed claims h

theorem Accounts.purge (ha : Accounts stored 0 st) (hkept : ∀ c ∈ (index st job).claims,
    (claims st c).isSome) (hrow : ∀ x, row = some x → x = 0) :
    Accounts stored (purgeDebt ((index st job).claims.filterMap (claims st)))
      (purged job row st) := by
  have hother {c : ℕ} {cl : TaskClaim} (hcl : claims (purged job row st) c = some cl) :=
    ha.claims_purged hcl
  have hmem (c : ℕ) (hc : c ∈ (index st job).claims) : c ∈ stored :=
    ha.mem (Option.isSome_iff_ne_none.1 (hkept c hc))
  have hcredits (h : Holder) : credits stored (claims st) h =
      credits stored (claims (purged job row st)) h +
        ((index st job).claims.map fun c ↦ credit h (claims st c)).sum :=
    credits_withoutClaims (ha.nodup job) hmem
  refine ⟨fun hne ↦ ?_, fun {h x} hx ↦ ?_, fun {c cl} hcl ↦ ?_, fun {c cl} hcl ↦ ?_,
    fun {c cl} hcl ↦ ?_, fun j ↦ ?_, fun {j c cl} hc hcl ↦ ?_⟩
  · obtain ⟨cl, hcl⟩ := Option.ne_none_iff_exists'.1 hne
    exact ha.mem (Option.ne_none_iff_exists'.2 ⟨cl, (hother hcl).1⟩)
  · rw [totals_purged] at hx
    have hcontributor (hh : ∀ j, h ≠ .job j) : x = credits stored (claims (purged job row st)) h +
        owed ((index st job).claims.filterMap (claims st)) h := by
      rw [Function.update_of_ne (hh job)] at hx
      rw [ha.balanced hx, owed_filterMap hh, Pi.zero_apply, add_zero]
      exact hcredits h
    cases h with
    | user id => exact hcontributor nofun
    | anonymous uuid => exact hcontributor nofun
    | job j =>
      rw [purgeDebt, add_zero]
      by_cases hj : j = job
      · rw [hj, Function.update_self] at hx
        rw [hrow x hx, hj]
        refine (Finset.sum_eq_zero fun c _ ↦ ?_).symm
        cases hcl : claims (purged job row st) c with
        | none => rfl
        | some cl => exact credit_job_of_ne (hother hcl).2
      · rw [Function.update_of_ne fun h ↦ hj (Holder.job.inj h)] at hx
        rw [ha.balanced hx, Pi.zero_apply, add_zero, hcredits, add_eq_left]
        refine List.sum_eq_zero fun x hx ↦ ?_
        obtain ⟨c, hc, rfl⟩ := List.mem_map.1 hx
        obtain ⟨cl, hcl⟩ := Option.isSome_iff_exists.1 (hkept c hc)
        rw [hcl]
        exact credit_job_of_ne fun h ↦ hj (h.symm.trans (ha.own hc hcl))
  · rw [totals_purged, Function.update_of_ne (owner_ne_job cl job)]
    exact ha.owner (hother hcl).1
  · rw [totals_purged, Function.update_of_ne fun hj ↦ (hother hcl).2 (Holder.job.inj hj)]
    exact ha.job (hother hcl).1
  · rw [index_purged, Function.update_of_ne (hother hcl).2]
    exact ha.listed (hother hcl).1
  · rw [index_purged]
    by_cases hj : j = job
    · rw [hj, Function.update_self]
      exact List.nodup_nil
    · rw [Function.update_of_ne hj]
      exact ha.nodup j
  · rw [index_purged] at hc
    by_cases hj : j = job
    · rw [hj, Function.update_self] at hc
      cases hc
    · rw [Function.update_of_ne hj] at hc
      exact ha.own hc (hother hcl).1

theorem Slots.purge (ha : Accounts stored 0 st) (hs : Slots (claims st) (tasks st) (index st)) :
    Slots (claims (purged job row st)) (tasks (purged job row st)) (index (purged job row st)) := by
  have hother {c : ℕ} {cl : TaskClaim} (hcl : claims (purged job row st) c = some cl) :=
    ha.claims_purged hcl
  have htask {t : ℕ} {task : Task} (ht : tasks st t = some task) (hj : task.job ≠ job) :
      tasks (purged job row st) t = some task := by
    rw [tasks_purged, if_neg, ht]
    intro hmem
    obtain ⟨task', ht', hj'⟩ := hs.made hmem
    cases ht.symm.trans ht'
    exact hj hj'
  have hindex {j : ℕ} {c : ℕ} (hc : c ∈ (index (purged job row st) j).claims) :
      j ≠ job ∧ c ∈ (index st j).claims := by
    rw [index_purged] at hc
    by_cases hj : j = job
    · rw [hj, Function.update_self] at hc
      cases hc
    · rw [Function.update_of_ne hj] at hc
      exact ⟨hj, hc⟩
  refine ⟨fun hcl hopen ↦ ?_, fun hcl hcl' hopen hopen' hsame ↦ ?_, fun {t task} ht havailable ↦ ?_,
    fun {j t} ht ↦ ?_, fun {j c} hc ↦ ?_⟩
  · obtain ⟨hcl, hne⟩ := hother hcl
    obtain ⟨task, ht, hj, hstate⟩ := hs.slot hcl hopen
    exact ⟨task, htask ht (hj ▸ hne), hj, hstate⟩
  · exact hs.unique (hother hcl).1 (hother hcl').1 hopen hopen' hsame
  · rw [tasks_purged, Option.ite_none_left_eq_some] at ht
    exact hs.available ht.2 havailable
  · rw [index_purged] at ht
    by_cases hj : j = job
    · rw [hj, Function.update_self] at ht
      cases ht
    · rw [Function.update_of_ne hj] at ht
      obtain ⟨task, ht, hj'⟩ := hs.made ht
      exact ⟨task, htask ht (hj' ▸ hj), hj'⟩
  · obtain ⟨hj, hc⟩ := hindex hc
    obtain ⟨cl, hcl⟩ := Option.isSome_iff_exists.1 (hs.kept hc)
    rw [claims_purged, if_neg fun hc' ↦ hj ((ha.own hc hcl).symm.trans (ha.own hc' hcl))]
    exact hs.kept hc

theorem nodup_earnedBy (anonymous : Bool) (found : List TaskClaim) :
    ((earnedBy anonymous found).map Prod.fst).Nodup := by
  rw [earnedBy, List.map_map]
  refine List.Nodup.map (fun id id' hid ↦ ?_) ?_
  · cases anonymous with
    | true => exact Holder.anonymous.inj hid
    | false => exact Holder.user.inj hid
  · exact (List.perm_insertionSort ..).nodup_iff.2 (List.nodup_dedup _)

theorem mem_earnedBy (anonymous : Bool) {found : List TaskClaim} {worker : ℕ}
    (h : owed found (owner anonymous worker) ≠ 0) :
    owner anonymous worker ∈ (earnedBy anonymous found).map Prod.fst := by
  rw [earnedBy, List.map_map]
  have hsome :
      found.filter (fun c ↦ c.state = .completed ∧ c.owner = owner anonymous worker) ≠ [] := by
    intro hnil
    rw [owed, hnil] at h
    exact h rfl
  obtain ⟨cl, hcl⟩ := List.exists_mem_of_ne_nil _ hsome
  obtain ⟨hmem, hpass⟩ := List.mem_filter.1 hcl
  obtain ⟨hcompleted, howner⟩ := of_decide_eq_true hpass
  have hsame : cl.anonymous = anonymous ∧ cl.worker = worker := by
    rw [TaskClaim.owner, owner, owner] at howner
    cases hc : cl.anonymous <;> cases anonymous <;> simp [hc] at howner <;> exact ⟨rfl, howner⟩
  refine List.mem_map.2 ⟨worker, ?_, rfl⟩
  rw [List.mem_insertionSort, List.mem_dedup, List.mem_map]
  exact ⟨cl, List.mem_filter.2 ⟨hmem, decide_eq_true ⟨hcompleted, hsame.1⟩⟩, hsame.2⟩

theorem agrees_giveBack {found : List TaskClaim} {anonymous : Bool} (ha : Accounts stored debt st)
    (hs : Slots (claims st) (tasks st) (index st))
    (hdebt : ∀ id, debt (owner anonymous id) = owed found (owner anonymous id))
    (hnext : ∀ st', Accounts stored
        (fun h ↦ if h ∈ (earnedBy anonymous found).map Prod.fst then 0 else debt h) st' →
      Slots (claims st') (tasks st') (index st') → k.Agrees k' Q st') :
    (giveBack greatest (earnedBy anonymous found) k).Agrees
      (giveBack id (earnedBy anonymous found) k') Q st := by
  apply agrees_lockTotals
  refine agrees_takeBack ha hs (nodup_earnedBy anonymous found) (fun d hd ↦ ?_) hnext
  obtain ⟨id, -, rfl⟩ := List.mem_map.1 hd
  exact hdebt id

theorem agrees_purgeBody (hinv : Inv st) (delete : Bool) :
    (purgeBody greatest job delete).Agrees (purgeBody id job delete) Inv st := by
  obtain ⟨⟨stored, ha⟩, hs⟩ := hinv
  apply Program.agrees_read
  apply agrees_readClaims
  apply Program.agrees_read
  apply agrees_readClaims
  rw [List.nil_append]
  apply agrees_deleteClaims
  apply Program.agrees_row
  intro _
  refine ⟨rfl, ?_⟩
  apply agrees_deleteTasks
  apply Program.agrees_row
  intro _
  refine ⟨rfl, ?_⟩
  have hrow (x : Totals) (hx : (if delete then none else some 0) = some x) : x = 0 := by
    cases delete with
    | true => cases hx
    | false => exact (Option.some.inj hx).symm
  have hkept (c : ℕ) (hc : c ∈ (index st job).claims) : (claims st c).isSome := hs.kept hc
  apply agrees_giveBack (ha.purge hkept hrow) (hs.purge ha) (fun _ ↦ rfl)
  intro st₁ ha₁ hs₁
  apply agrees_giveBack ha₁ hs₁
  · intro id
    refine if_neg fun hmem ↦ ?_
    obtain ⟨d, hd, howner⟩ := List.mem_map.1 hmem
    obtain ⟨id', -, rfl⟩ := List.mem_map.1 hd
    cases howner
  intro st₂ ha₂ hs₂
  apply Program.Ensures.agrees
  apply Program.ensures_commit
  refine ⟨⟨stored, ?_⟩, hs₂⟩
  convert ha₂ using 1
  funext h
  symm
  -- A contributor in neither list was owed nothing.
  split
  · rfl
  · next hanonymous =>
    split
    · rfl
    · next huser =>
      cases h with
      | user id => exact not_not.1 fun hne ↦ huser (mem_earnedBy false hne)
      | anonymous uuid => exact not_not.1 fun hne ↦ hanonymous (mem_earnedBy true hne)
      | job j => rfl

theorem Inv.agrees (hinv : Inv st) (op : Operation) :
    (programWith greatest op).Agrees (programWith id op) Inv st := by
  cases op with
  | claim now maxTaskSeconds job task claim worker anonymous created =>
    exact hinv.issueClaim.agrees
  | decline claim worker anonymous => exact hinv.declineTask.agrees
  | reclaim now timeout jobs claims =>
    obtain ⟨⟨stored, ha⟩, hs⟩ := hinv
    exact (ensures_reclaimExpiredFor ha hs fun t ht ↦ absurd ht List.not_mem_nil).agrees
  | submit now claim worker anonymous movegens deadlinesEnforced =>
    exact hinv.submitResult.agrees
  | purge job => exact agrees_purgeBody hinv false
  | delete job => exact agrees_purgeBody hinv true
  | createJob job => exact hinv.createRow.agrees
  | createUser user => exact hinv.createRow.agrees

theorem inv_of_start (h : start st) : Inv st := by
  obtain ⟨hindex, htotals, htasks, hclaims⟩ := h
  have hclaims (c : ℕ) : claims st c = none := hclaims c
  have htasks (t : ℕ) : tasks st t = none := htasks t
  have htotals (h : Holder) : totals st h = none := htotals h
  have hindex (j : ℕ) : index st j = ⟨[], []⟩ := hindex j
  constructor
  · refine ⟨∅, ⟨fun hne ↦ absurd (hclaims _) hne, fun hx ↦ ?_, fun hcl ↦ ?_, fun hcl ↦ ?_,
      fun hcl ↦ ?_, fun j ↦ ?_, fun hmem ↦ ?_⟩⟩
    · cases (htotals _).symm.trans hx
    · cases (hclaims _).symm.trans hcl
    · cases (hclaims _).symm.trans hcl
    · cases (hclaims _).symm.trans hcl
    · rw [hindex]
      exact List.nodup_nil
    · rw [hindex] at hmem
      cases hmem
  · refine ⟨fun hcl ↦ ?_, fun hcl ↦ ?_, fun ht ↦ ?_, fun hmem ↦ ?_, fun hmem ↦ ?_⟩
    · cases (hclaims _).symm.trans hcl
    · cases (hclaims _).symm.trans hcl
    · cases (htasks _).symm.trans ht
    · rw [hindex] at hmem
      cases hmem
    · rw [hindex] at hmem
      cases hmem

theorem inv_of_serial (h : (serial program start).Reachable st) : Inv st := by
  induction h with
  | start h => exact inv_of_start h
  | step _ _ hs ih => exact (ih.agrees _).2 _ hs

/-- However the transactions interleave, the counters of every user, anonymous worker and job are
those of the completed claims stored, and no purge would do otherwise without its clamps. -/
theorem contributions_exact {d : Database Row Operation} (h : machine.Reachable d) :
    ∃ stored : Finset ℕ, (∀ c, c ∈ stored ↔ (claims d.rows c).isSome) ∧
      (∀ h x, totals d.rows h = some x → x = ∑ c ∈ stored, credit h (claims d.rows c)) ∧
      (∀ c cl, claims d.rows c = some cl →
        (totals d.rows cl.owner).isSome ∧ (totals d.rows (.job cl.job)).isSome) ∧
      ∀ op, (programWith greatest op).exec d.rows = (programWith id op).exec d.rows := by
  have hinv : Inv d.rows := inv_of_serial (serial_of_reachable h).2
  obtain ⟨⟨stored, ha⟩, -⟩ := id hinv
  refine ⟨stored.filter fun c ↦ (claims d.rows c).isSome, fun c ↦ ?_, fun h x hx ↦ ?_,
    fun c cl hcl ↦ ⟨ha.owner hcl, ha.job hcl⟩, fun op ↦ (hinv.agrees op).1⟩
  · rw [Finset.mem_filter, and_iff_right_iff_imp]
    intro hsome
    exact ha.mem (Option.isSome_iff_ne_none.1 hsome)
  · rw [ha.balanced hx, Pi.zero_apply, add_zero, credits]
    refine (Finset.sum_filter_of_ne fun c _ hne ↦ ?_).symm
    by_contra hnone
    rw [Option.not_isSome_iff_eq_none.1 hnone] at hne
    exact hne rfl

def alone (n : ℕ) (op : Operation) : List (Action Operation) :=
  .begin 0 op :: List.replicate n (.access 0) ++ [.commit 0]

def twoResults : List (Action Operation) :=
  alone 1 (.createJob 0) ++ alone 1 (.createJob 1) ++ alone 1 (.createUser 0) ++
    alone 6 (.claim 0 3600 0 0 0 0 false true) ++ alone 6 (.submit 2000000 0 0 false 40 true) ++
    alone 6 (.claim 0 3600 0 1 1 7 true true) ++ alone 6 (.submit 3000000 1 7 true 5 true) ++
    alone 6 (.claim 0 3600 1 2 2 0 false true)

def noRows : Store Row
  | .dispatch _ => ⟨[], []⟩
  | .totals _ => none
  | .task _ => none
  | .claim _ => none

def empty : Database Row Operation := ⟨noRows, fun _ ↦ none, fun _ ↦ none⟩

/-- The other job's result is credited to the user between a purge's count of what the user earned
and its taking that back. -/
theorem exists_contributions_exact : ∃ d, machine.Reachable d ∧
    (∃ x, totals d.rows (.user 0) = some x ∧
      x .tasksCompleted = 1 ∧ x .computeMs = 1000 ∧ x .movegens = 3) ∧
    ∃ stored : Finset ℕ, ∀ h x, totals d.rows h = some x →
      x = ∑ c ∈ stored, credit h (claims d.rows c) := by
  have h : machine.Reachable empty :=
    .start ⟨⟨fun _ ↦ rfl, fun _ ↦ rfl, fun _ ↦ rfl, fun _ ↦ rfl⟩, fun _ ↦ rfl, fun _ ↦ rfl⟩
  obtain ⟨d, hd, hp⟩ := h.follow_any
    (twoResults ++ [.begin 1 (.purge 0), .begin 2 (.submit 1000000 2 0 false 3 true)] ++
      List.replicate 4 (.access 2) ++ List.replicate 12 (.access 1) ++
      [.access 2, .access 2, .commit 2] ++ List.replicate 4 (.access 1) ++ [.commit 1])
    (fun d ↦ (totals d.rows (.user 0)).any fun x ↦
      x .tasksCompleted = 1 ∧ x .computeMs = 1000 ∧ x .movegens = 3)
    (by decide +kernel)
  obtain ⟨x, hx, hcounters⟩ := (Option.any_eq_true ..).1 hp
  obtain ⟨stored, -, hbalanced, -⟩ := contributions_exact hd
  exact ⟨d, hd, ⟨x, hx, of_decide_eq_true hcounters⟩, stored, hbalanced⟩

end Purges

end Birdtest.Admin.Contributions
