import Birdtest.Base.Tables
import Birdtest.Scheduler.Claims
import Mathlib.Data.Set.Card

namespace Birdtest.Scheduler.Claims

open Birdtest.Base.Runs Birdtest.Base.RowLocks Birdtest.Base.Tables Birdtest.Models.Job

section Tables

def jobs (st : Store Row) (j : ℕ) : Option Job := st (.job j)

def tasks (st : Store Row) (t : ℕ) : Option Task := st (.task t)

def claims (st : Store Row) (c : ℕ) : Option TaskClaim := st (.claim c)

variable (st : Store Row)

@[simp]
theorem jobs_update_job (j : ℕ) (v : Option Job) :
    jobs (Function.update st (.job j) v) = Function.update (jobs st) j v :=
  Function.update_comp_eq_of_injective' st (fun _ _ h ↦ Key.job.inj h) j v

@[simp]
theorem jobs_update_task (t : ℕ) (v : Option Task) :
    jobs (Function.update st (.task t) v) = jobs st := rfl

@[simp]
theorem jobs_update_claim (c : ℕ) (v : Option TaskClaim) :
    jobs (Function.update st (.claim c) v) = jobs st := rfl

@[simp]
theorem tasks_update_job (j : ℕ) (v : Option Job) :
    tasks (Function.update st (.job j) v) = tasks st := rfl

@[simp]
theorem tasks_update_task (t : ℕ) (v : Option Task) :
    tasks (Function.update st (.task t) v) = Function.update (tasks st) t v :=
  Function.update_comp_eq_of_injective' st (fun _ _ h ↦ Key.task.inj h) t v

@[simp]
theorem tasks_update_claim (c : ℕ) (v : Option TaskClaim) :
    tasks (Function.update st (.claim c) v) = tasks st := rfl

@[simp]
theorem claims_update_job (j : ℕ) (v : Option Job) :
    claims (Function.update st (.job j) v) = claims st := rfl

@[simp]
theorem claims_update_task (t : ℕ) (v : Option Task) :
    claims (Function.update st (.task t) v) = claims st := rfl

@[simp]
theorem claims_update_claim (c : ℕ) (v : Option TaskClaim) :
    claims (Function.update st (.claim c) v) = Function.update (claims st) c v :=
  Function.update_comp_eq_of_injective' st (fun _ _ h ↦ Key.claim.inj h) c v

end Tables

section Sets

theorem map_update_some {α β : Type} {rows : ℕ → Option α} {f : α → β} {k : ℕ} {old : α}
    (new : α) (h : rows k = some old) (hf : f new = f old) (u : ℕ) :
    (Function.update rows k (some new) u).map f = (rows u).map f := by
  rcases eq_or_ne u k with rfl | hu
  · simp [h, hf]
  · rw [Function.update_of_ne hu]

variable {tasks tasks' : ℕ → Option Task} {claims claims' : ℕ → Option TaskClaim} {t j c : ℕ}
  {state : ClaimState}

def claimsOf (claims : ℕ → Option TaskClaim) (t : ℕ) (state : ClaimState) : Set ℕ :=
  {c | ∃ row, claims c = some row ∧ row.task = t ∧ row.state = state}

def claimsIssued (claims : ℕ → Option TaskClaim) (j : ℕ) : Set ℕ :=
  {c | (claims c).map TaskClaim.job = some j}

def tasksOf (tasks : ℕ → Option Task) (j : ℕ) : Set ℕ :=
  {t | (tasks t).map Task.job = some j}

def tasksCompleted (tasks : ℕ → Option Task) (j : ℕ) : Set ℕ :=
  {t | ∃ row, tasks t = some row ∧ row.job = j ∧ row.state = .completed}

theorem claimsOf_update_none {row : TaskClaim} (h : claims c = none) :
    claimsOf (Function.update claims c (some row)) t state =
      if row.task = t ∧ row.state = state then insert c (claimsOf claims t state)
      else claimsOf claims t state := by
  ext x
  rcases eq_or_ne x c with rfl | hx
  · split <;> simp_all [claimsOf]
  · split <;> simp [claimsOf, hx]

theorem claimsIssued_update_none {row : TaskClaim} (h : claims c = none) :
    claimsIssued (Function.update claims c (some row)) j =
      if row.job = j then insert c (claimsIssued claims j) else claimsIssued claims j := by
  ext x
  rcases eq_or_ne x c with rfl | hx
  · split <;> simp_all [claimsIssued]
  · split <;> simp [claimsIssued, hx]

theorem tasksOf_update_none {row : Task} (h : tasks t = none) :
    tasksOf (Function.update tasks t (some row)) j =
      if row.job = j then insert t (tasksOf tasks j) else tasksOf tasks j := by
  ext x
  rcases eq_or_ne x t with rfl | hx
  · split <;> simp_all [tasksOf]
  · split <;> simp [tasksOf, hx]

theorem tasksOf_update_some {row : Task} (row' : Task) (h : tasks t = some row)
    (hj : row'.job = row.job) :
    tasksOf (Function.update tasks t (some row')) j = tasksOf tasks j := by
  simp only [tasksOf, map_update_some row' h hj]

theorem tasksCompleted_update (row : Task) (h : t ∉ tasksCompleted tasks j) :
    tasksCompleted (Function.update tasks t (some row)) j =
      if row.job = j ∧ row.state = .completed then insert t (tasksCompleted tasks j)
      else tasksCompleted tasks j := by
  ext x
  rcases eq_or_ne x t with rfl | hx
  · split
    · next hr => simp [tasksCompleted, hr]
    · next hr => exact iff_of_false (by simpa [tasksCompleted] using hr) h
  · split <;> simp [tasksCompleted, hx]

theorem not_mem_tasksCompleted {row : Task} (h : tasks t = some row) (hs : row.state ≠ .completed) :
    t ∉ tasksCompleted tasks j := by
  simp [tasksCompleted, h, hs]

end Sets

section Consistency

variable {jobs : ℕ → Option Job} {tasks : ℕ → Option Task} {claims : ℕ → Option TaskClaim}
  {t j c : ℕ}

/-- A task's one slot: free, held by one open claim, or filled by one accepted claim. -/
inductive Slot (claims : ℕ → Option TaskClaim) (t : ℕ) (row : Task) : Prop
  | available (hs : row.state = .available) (ho : claimsOf claims t .claimed = ∅)
      (ha : claimsOf claims t .completed = ∅) (hactive : row.activeClaimCount = 0)
      (haccepted : row.acceptedCount = 0)
  | claimed (c : ℕ) (hs : row.state = .claimed) (ho : claimsOf claims t .claimed = {c})
      (ha : claimsOf claims t .completed = ∅) (hactive : row.activeClaimCount = 1)
      (haccepted : row.acceptedCount = 0)
  | completed (c : ℕ) (hs : row.state = .completed) (ho : claimsOf claims t .claimed = ∅)
      (ha : claimsOf claims t .completed = {c}) (hactive : row.activeClaimCount = 0)
      (haccepted : row.acceptedCount = 1)

structure Counts (tasks : ℕ → Option Task) (claims : ℕ → Option TaskClaim) (j : ℕ) (row : Job) :
    Prop where
  tasksTotal : (row.tasksTotal : ℕ∞) = (tasksOf tasks j).encard
  tasksCompleted : (row.tasksCompleted : ℕ∞) = (tasksCompleted tasks j).encard
  claimsIssued : (row.claimsIssued : ℕ∞) = (claimsIssued claims j).encard

structure Consistent (jobs : ℕ → Option Job) (tasks : ℕ → Option Task)
    (claims : ℕ → Option TaskClaim) : Prop where
  slot {t : ℕ} {row : Task} : tasks t = some row → Slot claims t row
  taskOf {c : ℕ} {row : TaskClaim} : claims c = some row →
    (tasks row.task).map Task.job = some row.job
  jobOf {t : ℕ} {row : Task} : tasks t = some row → (jobs row.job).isSome
  counts {j : ℕ} {row : Job} : jobs j = some row → Counts tasks claims j row

theorem Slot.congr {claims' : ℕ → Option TaskClaim} {row row' : Task} (h : Slot claims t row)
    (hclaims : ∀ state, state = .claimed ∨ state = .completed →
      claimsOf claims' t state = claimsOf claims t state)
    (hs : row'.state = row.state) (hactive : row'.activeClaimCount = row.activeClaimCount)
    (haccepted : row'.acceptedCount = row.acceptedCount) : Slot claims' t row' := by
  have ho := hclaims .claimed (.inl rfl)
  have ha := hclaims .completed (.inr rfl)
  cases h with
  | available h₁ h₂ h₃ h₄ h₅ =>
    exact .available (hs.trans h₁) (ho.trans h₂) (ha.trans h₃) (hactive.trans h₄)
      (haccepted.trans h₅)
  | claimed c h₁ h₂ h₃ h₄ h₅ =>
    exact .claimed c (hs.trans h₁) (ho.trans h₂) (ha.trans h₃) (hactive.trans h₄)
      (haccepted.trans h₅)
  | completed c h₁ h₂ h₃ h₄ h₅ =>
    exact .completed c (hs.trans h₁) (ho.trans h₂) (ha.trans h₃) (hactive.trans h₄)
      (haccepted.trans h₅)

theorem Slot.available_of_state {row : Task} (h : Slot claims t row) (hs : row.state = .available) :
    claimsOf claims t .claimed = ∅ ∧ claimsOf claims t .completed = ∅ ∧
      row.activeClaimCount = 0 ∧ row.acceptedCount = 0 := by
  cases h with
  | available _ ho ha hactive haccepted => exact ⟨ho, ha, hactive, haccepted⟩
  | claimed _ h | completed _ h => cases hs.symm.trans h

theorem Slot.claimed_of_open {row : Task} {cl : TaskClaim} (h : Slot claims cl.task row)
    (hc : claims c = some cl) (hs : cl.state = .claimed) :
    row.state = .claimed ∧ claimsOf claims cl.task .claimed = {c} ∧
      claimsOf claims cl.task .completed = ∅ ∧ row.activeClaimCount = 1 ∧
      row.acceptedCount = 0 := by
  have hmem : c ∈ claimsOf claims cl.task .claimed := ⟨cl, hc, rfl, hs⟩
  cases h with
  | available _ ho | completed _ _ ho => simp [ho] at hmem
  | claimed c' hs ho ha hactive haccepted =>
    rw [ho, Set.mem_singleton_iff] at hmem
    exact ⟨hs, hmem ▸ ho, ha, hactive, haccepted⟩

theorem Consistent.claims_eq_none_of_task (h : Consistent jobs tasks claims) (ht : tasks t = none)
    (state : ClaimState) : claimsOf claims t state = ∅ := by
  refine Set.eq_empty_of_forall_notMem ?_
  rintro c ⟨row, hrow, rfl, -⟩
  have := h.taskOf hrow
  simp [ht] at this

theorem Consistent.insertTask (h : Consistent jobs tasks claims) {job : Job} (ht : tasks t = none)
    (hj : jobs j = some job) :
    Consistent (Function.update jobs j (some { job with tasksTotal := job.tasksTotal + 1 }))
      (Function.update tasks t (some ⟨j, .available, 0, 0, none⟩)) claims := by
  refine ⟨fun {u row} hu ↦ ?_, fun {c row} hc ↦ ?_, fun {u row} hu ↦ ?_, fun {j' row} hj' ↦ ?_⟩
  · obtain ⟨rfl, rfl⟩ | ⟨hut, hu⟩ := of_update_eq_some hu
    · exact .available rfl (h.claims_eq_none_of_task ht _) (h.claims_eq_none_of_task ht _) rfl rfl
    · exact h.slot hu
  · have htask := h.taskOf hc
    rwa [Function.update_of_ne]
    rintro rfl
    simp [ht] at htask
  · refine isSome_update _ ?_
    obtain ⟨rfl, rfl⟩ | ⟨hut, hu⟩ := of_update_eq_some hu
    · simp [hj]
    · exact h.jobOf hu
  · have hnot : t ∉ tasksCompleted tasks j' := by simp [tasksCompleted, ht]
    have hnot' : t ∉ tasksOf tasks j' := by simp [tasksOf, ht]
    have hcompleted := tasksCompleted_update ⟨j, .available, 0, 0, none⟩ hnot
    rw [if_neg (by simp)] at hcompleted
    obtain ⟨rfl, rfl⟩ | ⟨hjj, hj'⟩ := of_update_eq_some hj'
    · have hcounts := h.counts hj
      refine ⟨?_, hcompleted ▸ hcounts.tasksCompleted, hcounts.claimsIssued⟩
      rw [tasksOf_update_none ht, if_pos rfl, Set.encard_insert_of_notMem hnot',
        ← hcounts.tasksTotal]
      simp
    · have hcounts := h.counts hj'
      refine ⟨?_, hcompleted ▸ hcounts.tasksCompleted, hcounts.claimsIssued⟩
      rw [tasksOf_update_none ht, if_neg hjj.symm]
      exact hcounts.tasksTotal

theorem Consistent.issueClaim (h : Consistent jobs tasks claims) {job : Job} {task : Task}
    {cl : TaskClaim} (hc : claims c = none) (ht : tasks cl.task = some task)
    (hj : jobs cl.job = some job) (htj : task.job = cl.job) (hs : task.state = .available)
    (hcs : cl.state = .claimed) :
    Consistent
      (Function.update jobs cl.job (some (countClaim false job)))
      (Function.update tasks cl.task (some (claimTask task)))
      (Function.update claims c (some cl)) := by
  obtain ⟨ho, ha, hactive, haccepted⟩ := (h.slot ht).available_of_state hs
  refine ⟨fun {u row} hu ↦ ?_, fun {c' row} hc' ↦ ?_, fun {u row} hu ↦ ?_, fun {j row} hj' ↦ ?_⟩
  · obtain ⟨rfl, rfl⟩ | ⟨hut, hu⟩ := of_update_eq_some hu
    · refine .claimed c rfl ?_ ?_ (by simp [claimTask, hactive]) haccepted
      · rw [claimsOf_update_none hc, if_pos ⟨rfl, hcs⟩, ho]
        exact insert_empty_eq c
      · rw [claimsOf_update_none hc, if_neg (by simp [hcs]), ha]
    · refine (h.slot hu).congr (fun state _ ↦ ?_) rfl rfl rfl
      rw [claimsOf_update_none hc, if_neg fun h ↦ hut h.1.symm]
  · rw [map_update_some (claimTask task) ht rfl]
    obtain ⟨rfl, rfl⟩ | ⟨hcc, hc'⟩ := of_update_eq_some hc'
    · simp [ht, htj]
    · exact h.taskOf hc'
  · refine isSome_update _ ?_
    obtain ⟨rfl, rfl⟩ | ⟨hut, hu⟩ := of_update_eq_some hu
    · exact (h.jobOf ht :)
    · exact h.jobOf hu
  · have hnot : c ∉ claimsIssued claims j := by simp [claimsIssued, hc]
    have hcompleted : tasksCompleted (Function.update tasks cl.task (some (claimTask task))) j =
        tasksCompleted tasks j := by
      rw [tasksCompleted_update _ (not_mem_tasksCompleted ht (by simp [hs])),
        if_neg (by simp [claimTask])]
    obtain ⟨rfl, rfl⟩ | ⟨hjj, hj'⟩ := of_update_eq_some hj'
    · have hcounts := h.counts hj
      refine ⟨?_, hcompleted ▸ hcounts.tasksCompleted, ?_⟩
      · rw [tasksOf_update_some (claimTask task) ht rfl]
        exact hcounts.tasksTotal
      · rw [claimsIssued_update_none hc, if_pos rfl, Set.encard_insert_of_notMem hnot,
          ← hcounts.claimsIssued]
        simp [countClaim]
    · have hcounts := h.counts hj'
      refine ⟨?_, hcompleted ▸ hcounts.tasksCompleted, ?_⟩
      · rw [tasksOf_update_some (claimTask task) ht rfl]
        exact hcounts.tasksTotal
      · rw [claimsIssued_update_none hc, if_neg hjj.symm]
        exact hcounts.claimsIssued

section Release

variable {tasks' : ℕ → Option Task} {claims' : ℕ → Option TaskClaim} {cs : List ℕ}
  {f : TaskClaim → TaskClaim}

def tasksOfClaims (claims : ℕ → Option TaskClaim) (cs : List ℕ) : List ℕ :=
  cs.filterMap fun c ↦ (claims c).map TaskClaim.task

structure Released (tasks tasks' : ℕ → Option Task) (claims claims' : ℕ → Option TaskClaim)
    (cs : List ℕ) (f : TaskClaim → TaskClaim) : Prop where
  wasOpen : ∀ c ∈ cs, ∃ cl, claims c = some cl ∧ cl.state = .claimed
  claims_eq : ∀ c, claims' c = if c ∈ cs then (claims c).map f else claims c
  tasks_eq : ∀ t, tasks' t =
    if t ∈ tasksOfClaims claims cs then (tasks t).map (releaseTask 1) else tasks t
  task : ∀ cl, (f cl).task = cl.task
  job : ∀ cl, (f cl).job = cl.job
  state : ∀ cl, cl.state = .claimed → (f cl).state ≠ .claimed ∧ (f cl).state ≠ .completed

theorem Released.mem_tasks (h : Released tasks tasks' claims claims' cs f)
    (ht : t ∈ tasksOfClaims claims cs) :
    ∃ c ∈ cs, ∃ cl, claims c = some cl ∧ cl.task = t ∧ cl.state = .claimed := by
  obtain ⟨c, hc, hct⟩ := List.mem_filterMap.1 ht
  obtain ⟨cl, hcl, hs⟩ := h.wasOpen c hc
  refine ⟨c, hc, cl, hcl, ?_, hs⟩
  simpa [hcl] using hct

theorem Released.claimsOf_of_not_mem (h : Released tasks tasks' claims claims' cs f)
    (ht : t ∉ tasksOfClaims claims cs) (state : ClaimState) :
    claimsOf claims' t state = claimsOf claims t state := by
  ext c
  simp only [claimsOf, Set.mem_ofPred_eq, h.claims_eq c]
  split
  · next hc =>
    obtain ⟨cl, hcl, -⟩ := h.wasOpen c hc
    have hne : cl.task ≠ t := by
      rintro rfl
      exact ht (List.mem_filterMap.2 ⟨c, hc, by simp [hcl]⟩)
    simp [hcl, h.task, hne]
  · rfl

theorem Released.claimsOf_subset (h : Released tasks tasks' claims claims' cs f)
    {state : ClaimState} (hs : state = .claimed ∨ state = .completed) {c : ℕ}
    (hc : c ∈ claimsOf claims' t state) : c ∉ cs ∧ c ∈ claimsOf claims t state := by
  obtain ⟨row, hrow, htask, hstate⟩ := hc
  rw [h.claims_eq] at hrow
  split at hrow
  · next hmem =>
    obtain ⟨cl, hcl, hopen⟩ := h.wasOpen c hmem
    rw [hcl, Option.map_some, Option.some.injEq] at hrow
    subst hrow
    obtain ⟨h₁, h₂⟩ := h.state cl hopen
    rcases hs with rfl | rfl
    · exact absurd hstate h₁
    · exact absurd hstate h₂
  · next hmem => exact ⟨hmem, row, hrow, htask, hstate⟩

theorem Released.map_job (h : Released tasks tasks' claims claims' cs f) (t : ℕ) :
    (tasks' t).map Task.job = (tasks t).map Task.job := by
  rw [h.tasks_eq]
  split
  · simp [Function.comp_def, releaseTask]
  · rfl

theorem Consistent.released_slot (h : Consistent jobs tasks claims)
    (hr : Released tasks tasks' claims claims' cs f) {row' : Task}
    (ht : tasks' t = some row') :
    Slot claims' t row' ∧ (t ∈ tasksOfClaims claims cs → row'.state = .available) := by
  rw [hr.tasks_eq] at ht
  split at ht
  · next hmem =>
    obtain ⟨row, hrow, rfl⟩ := Option.map_eq_some_iff.1 ht
    obtain ⟨c, hc, cl, hcl, rfl, hs⟩ := hr.mem_tasks hmem
    obtain ⟨-, ho, ha, hactive, haccepted⟩ := (h.slot hrow).claimed_of_open hcl hs
    have hstate : (releaseTask 1 row).state = .available := by
      simp [releaseTask, hactive, haccepted]
    refine ⟨.available hstate ?_ ?_ (by simp [releaseTask, hactive]) haccepted, fun _ ↦ hstate⟩
    · refine Set.eq_empty_of_forall_notMem fun x hx ↦ ?_
      obtain ⟨hnot, hx⟩ := hr.claimsOf_subset (.inl rfl) hx
      rw [ho, Set.mem_singleton_iff] at hx
      exact hnot (hx ▸ hc)
    · refine Set.eq_empty_of_forall_notMem fun x hx ↦ ?_
      have := (hr.claimsOf_subset (.inr rfl) hx).2
      simp [ha] at this
  · next hmem =>
    exact ⟨(h.slot ht).congr (fun state _ ↦ hr.claimsOf_of_not_mem hmem state) rfl rfl rfl,
      fun hm ↦ absurd hm hmem⟩

theorem Consistent.released (h : Consistent jobs tasks claims)
    (hr : Released tasks tasks' claims claims' cs f) : Consistent jobs tasks' claims' := by
  have hclaim {c : ℕ} : (claims' c).map TaskClaim.job = (claims c).map TaskClaim.job := by
    rw [hr.claims_eq]
    split
    · simp [Function.comp_def, hr.job]
    · rfl
  refine ⟨fun hu ↦ (h.released_slot hr hu).1, fun {c row} hc ↦ ?_, fun {u row} hu ↦ ?_,
    fun {j row} hj ↦ ?_⟩
  · rw [hr.map_job]
    rw [hr.claims_eq] at hc
    split at hc
    · obtain ⟨cl, hcl, rfl⟩ := Option.map_eq_some_iff.1 hc
      rw [hr.task, hr.job]
      exact h.taskOf hcl
    · exact h.taskOf hc
  · have hjob := hr.map_job u
    rw [hu] at hjob
    obtain ⟨old, hold, heq⟩ := Option.map_eq_some_iff.1 hjob.symm
    exact heq ▸ h.jobOf hold
  · have hcounts := h.counts hj
    have htotal : tasksOf tasks' j = tasksOf tasks j := by simp only [tasksOf, hr.map_job]
    have hissued : claimsIssued claims' j = claimsIssued claims j := by
      simp only [claimsIssued, hclaim]
    have hcompleted : tasksCompleted tasks' j = tasksCompleted tasks j := by
      ext u
      by_cases hmem : u ∈ tasksOfClaims claims cs
      · refine iff_of_false ?_ ?_
        · rintro ⟨row, hrow, -, hs⟩
          have := (h.released_slot hr hrow).2 hmem
          cases this.symm.trans hs
        · rintro ⟨row, hrow, -, hs⟩
          obtain ⟨c, -, cl, hcl, rfl, hopen⟩ := hr.mem_tasks hmem
          have := ((h.slot hrow).claimed_of_open hcl hopen).1
          cases this.symm.trans hs
      · simp only [tasksCompleted, Set.mem_ofPred_eq, hr.tasks_eq, if_neg hmem]
    exact ⟨htotal ▸ hcounts.tasksTotal, hcompleted ▸ hcounts.tasksCompleted,
      hissued ▸ hcounts.claimsIssued⟩

end Release

theorem claimsOf_update_some {claims : ℕ → Option TaskClaim} {cl cl' : TaskClaim}
    {state : ClaimState} (hc : claims c = some cl) (ht : cl'.task = cl.task)
    (hs : cl.state ≠ state) :
    claimsOf (Function.update claims c (some cl')) t state =
      if cl.task = t ∧ cl'.state = state then insert c (claimsOf claims t state)
      else claimsOf claims t state := by
  ext x
  rcases eq_or_ne x c with rfl | hx
  · split <;> simp_all [claimsOf]
  · split <;> simp [claimsOf, hx]

theorem Consistent.accept (h : Consistent jobs tasks claims) {job : Job} {task : Task}
    {cl : TaskClaim} {now : ℤ} (cl' : TaskClaim) (hc : claims c = some cl)
    (hopen : cl.state = .claimed) (ht : tasks cl.task = some task) (hj : jobs cl.job = some job)
    (ht' : cl'.task = cl.task) (hj' : cl'.job = cl.job) (hs' : cl'.state = .completed) :
    Consistent
      (Function.update jobs cl.job (some { job with tasksCompleted := job.tasksCompleted + 1 }))
      (Function.update tasks cl.task (some (acceptResult now task)))
      (Function.update claims c (some cl')) := by
  obtain ⟨hs, ho, ha, hactive, haccepted⟩ := (h.slot ht).claimed_of_open hc hopen
  have htj : task.job = cl.job := by simpa [ht] using h.taskOf hc
  have hclosed (u : ℕ) : claimsOf (Function.update claims c (some cl')) u .claimed =
      claimsOf claims u .claimed \ {c} := by
    ext x
    rcases eq_or_ne x c with rfl | hx
    · simp [claimsOf, hs']
    · simp [claimsOf, hx]
  have haccept (u : ℕ) : claimsOf (Function.update claims c (some cl')) u .completed =
      if cl.task = u then insert c (claimsOf claims u .completed)
      else claimsOf claims u .completed := by
    rw [claimsOf_update_some hc ht' (by simp [hopen])]
    simp [hs']
  refine ⟨fun {u row} hu ↦ ?_, fun {c' row} hc' ↦ ?_, fun {u row} hu ↦ ?_, fun {j row} hj₂ ↦ ?_⟩
  · obtain ⟨rfl, rfl⟩ | ⟨hut, hu⟩ := of_update_eq_some hu
    · refine .completed c rfl ?_ ?_ (by simp [acceptResult, hactive])
        (by simp [acceptResult, haccepted])
      · rw [hclosed, ho, Set.sdiff_self]
      · rw [haccept, if_pos rfl, ha]
        exact insert_empty_eq c
    · refine (h.slot hu).congr (fun state hstate ↦ ?_) rfl rfl rfl
      rcases hstate with rfl | rfl
      · have hnot : c ∉ claimsOf claims u .claimed := by
          rintro ⟨row, hrow, hru, -⟩
          rw [hc, Option.some.injEq] at hrow
          exact hut (hru ▸ hrow ▸ rfl)
        rw [hclosed, Set.sdiff_singleton_eq_self hnot]
      · rw [haccept, if_neg hut.symm]
  · rw [map_update_some (acceptResult now task) ht rfl]
    obtain ⟨rfl, rfl⟩ | ⟨hcc, hc'⟩ := of_update_eq_some hc'
    · rw [ht', hj']
      exact h.taskOf hc
    · exact h.taskOf hc'
  · refine isSome_update _ ?_
    obtain ⟨rfl, rfl⟩ | ⟨hut, hu⟩ := of_update_eq_some hu
    · exact (h.jobOf ht :)
    · exact h.jobOf hu
  · have hnot : cl.task ∉ tasksCompleted tasks j := not_mem_tasksCompleted ht (by simp [hs])
    have htotal := tasksOf_update_some (j := j) (acceptResult now task) ht rfl
    have hissued : claimsIssued (Function.update claims c (some cl')) j =
        claimsIssued claims j := by
      simp only [claimsIssued, map_update_some cl' hc hj']
    obtain ⟨rfl, rfl⟩ | ⟨hjj, hj₂⟩ := of_update_eq_some hj₂
    · have hcounts := h.counts hj
      refine ⟨htotal ▸ hcounts.tasksTotal, ?_, hissued ▸ hcounts.claimsIssued⟩
      rw [tasksCompleted_update _ hnot, if_pos ⟨htj, rfl⟩, Set.encard_insert_of_notMem hnot,
        ← hcounts.tasksCompleted]
      simp
    · have hcounts := h.counts hj₂
      refine ⟨htotal ▸ hcounts.tasksTotal, ?_, hissued ▸ hcounts.claimsIssued⟩
      rw [tasksCompleted_update _ hnot, if_neg fun h ↦ hjj (h.1.symm.trans htj)]
      exact hcounts.tasksCompleted

theorem Consistent.update_claim (h : Consistent jobs tasks claims) {cl : TaskClaim}
    (cl' : TaskClaim) (hc : claims c = some cl) (ht : cl'.task = cl.task) (hj : cl'.job = cl.job)
    (hs : cl'.state = cl.state) :
    Consistent jobs tasks (Function.update claims c (some cl')) := by
  have hclaims (u : ℕ) (state : ClaimState) :
      claimsOf (Function.update claims c (some cl')) u state = claimsOf claims u state := by
    ext x
    rcases eq_or_ne x c with rfl | hx
    · simp [claimsOf, hc, ht, hs]
    · simp [claimsOf, hx]
  have hissued (j : ℕ) : claimsIssued (Function.update claims c (some cl')) j =
      claimsIssued claims j := by
    simp only [claimsIssued, map_update_some cl' hc hj]
  refine ⟨fun hu ↦ (h.slot hu).congr (fun state _ ↦ hclaims _ state) rfl rfl rfl,
    fun {c' row} hc' ↦ ?_, h.jobOf, fun {j row} hj' ↦ ?_⟩
  · obtain ⟨rfl, rfl⟩ | ⟨hcc, hc'⟩ := of_update_eq_some hc'
    · rw [ht, hj]
      exact h.taskOf hc
    · exact h.taskOf hc'
  · have hcounts := h.counts hj'
    exact ⟨hcounts.tasksTotal, hcounts.tasksCompleted, (hissued j) ▸ hcounts.claimsIssued⟩

theorem Consistent.setStatus (h : Consistent jobs tasks claims) {job : Job} {status : JobStatus}
    (hj : jobs j = some job) :
    Consistent (Function.update jobs j (some { job with status })) tasks claims := by
  refine ⟨h.slot, h.taskOf, fun hu ↦ isSome_update _ (h.jobOf hu), fun {j' row} hj' ↦ ?_⟩
  obtain ⟨rfl, rfl⟩ | ⟨hjj, hj'⟩ := of_update_eq_some hj'
  · have hcounts := h.counts hj
    exact ⟨hcounts.tasksTotal, hcounts.tasksCompleted, hcounts.claimsIssued⟩
  · exact h.counts hj'

theorem Consistent.createJob (h : Consistent jobs tasks claims) (hj : jobs j = none) :
    Consistent (Function.update jobs j (some ⟨.inactive, 0, 0, 0⟩)) tasks claims := by
  refine ⟨h.slot, h.taskOf, fun hu ↦ isSome_update _ (h.jobOf hu), fun {j' row} hj' ↦ ?_⟩
  obtain ⟨rfl, rfl⟩ | ⟨hjj, hj'⟩ := of_update_eq_some hj'
  · have htask {t : ℕ} {row : Task} (ht : tasks t = some row) : row.job ≠ j' := by
      rintro rfl
      simpa [hj] using h.jobOf ht
    have htasks : tasksOf tasks j' = ∅ := by
      refine Set.eq_empty_of_forall_notMem fun t ht ↦ ?_
      obtain ⟨row, hrow, hrj⟩ := Option.map_eq_some_iff.1 ht
      exact htask hrow hrj
    have hcompleted : tasksCompleted tasks j' = ∅ := by
      refine Set.eq_empty_of_forall_notMem ?_
      rintro t ⟨row, hrow, hrj, -⟩
      exact htask hrow hrj
    have hissued : claimsIssued claims j' = ∅ := by
      refine Set.eq_empty_of_forall_notMem fun c hc ↦ ?_
      obtain ⟨row, hrow, hrj⟩ := Option.map_eq_some_iff.1 hc
      obtain ⟨task, htask', htj⟩ := Option.map_eq_some_iff.1 (h.taskOf hrow)
      exact htask htask' (htj.trans hrj)
    exact ⟨by simp [htasks], by simp [hcompleted], by simp [hissued]⟩
  · exact h.counts hj'

end Consistency

section Operations

variable {st st' : Store Row} {now maxTaskSeconds timeout : ℤ} {job task claim worker : ℕ}

/-- All that one transaction does to the tables. -/
inductive Effect (st st' : Store Row) : Prop
  | inserted {c : ℕ} {job : Job} (cl : TaskClaim) (hc : claims st c = none)
      (ht : tasks st cl.task = none) (hj : jobs st cl.job = some job) (hs : cl.state = .claimed)
      (hjobs : jobs st' = Function.update (jobs st) cl.job (some (countClaim true job)))
      (htasks : tasks st' = Function.update (tasks st) cl.task
        (some (claimTask ⟨cl.job, .available, 0, 0, none⟩)))
      (hclaims : claims st' = Function.update (claims st) c (some cl))
  | issued {c : ℕ} {job : Job} {task : Task} (cl : TaskClaim) (hc : claims st c = none)
      (ht : tasks st cl.task = some task) (hj : jobs st cl.job = some job)
      (htj : task.job = cl.job) (hav : task.state = .available) (hs : cl.state = .claimed)
      (hjobs : jobs st' = Function.update (jobs st) cl.job (some (countClaim false job)))
      (htasks : tasks st' = Function.update (tasks st) cl.task (some (claimTask task)))
      (hclaims : claims st' = Function.update (claims st) c (some cl))
  | released (cs : List ℕ) (f : TaskClaim → TaskClaim)
      (h : Released (tasks st) (tasks st') (claims st) (claims st') cs f)
      (hjobs : jobs st' = jobs st)
  | accepted {c : ℕ} {job : Job} {task : Task} {cl : TaskClaim} (now : ℤ)
      (hc : claims st c = some cl) (hs : cl.state = .claimed) (ht : tasks st cl.task = some task)
      (hj : jobs st cl.job = some job)
      (hjobs : jobs st' = Function.update (jobs st) cl.job
        (some { job with tasksCompleted := job.tasksCompleted + 1 }))
      (htasks : tasks st' = Function.update (tasks st) cl.task (some (acceptResult now task)))
      (hclaims : claims st' = Function.update (claims st) c
        (some { cl with state := .completed, completedAt := some now }))
  | heartbeat {c : ℕ} {cl : TaskClaim} {now : ℤ} (hc : claims st c = some cl)
      (hs : cl.state = .claimed) (hjobs : jobs st' = jobs st) (htasks : tasks st' = tasks st)
      (hclaims : claims st' = Function.update (claims st) c
        (some { cl with lastHeartbeatAt := some now }))
  | jobCreated {j : ℕ} (hj : jobs st j = none)
      (hjobs : jobs st' = Function.update (jobs st) j (some ⟨.inactive, 0, 0, 0⟩))
      (htasks : tasks st' = tasks st) (hclaims : claims st' = claims st)
  | statusSet {j : ℕ} {job : Job} {status : JobStatus} (hj : jobs st j = some job)
      (hjobs : jobs st' = Function.update (jobs st) j (some { job with status }))
      (htasks : tasks st' = tasks st) (hclaims : claims st' = claims st)
  | none (h : st' = st)

theorem exec_issueClaim {created : Bool}
    (h : (issueClaim now maxTaskSeconds job task claim worker created).exec st = some st') :
    claims st claim = .none ∧ ∃ j, jobs st job = some j ∧
      jobs st' = Function.update (jobs st) job (some (countClaim created j)) ∧
      tasks st' = Function.update (tasks st) task ((tasks st task).map claimTask) ∧
      claims st' = Function.update (claims st) claim
        (some (newClaim now maxTaskSeconds job task worker)) := by
  obtain ⟨hclaim, h⟩ := Program.exec_row_eq_some.1 h
  obtain ⟨-, h⟩ := Program.exec_row_eq_some.1 h
  obtain ⟨hjob, h⟩ := Program.exec_row_eq_some.1 h
  cases h
  simp only [ne_eq, reduceCtorEq, not_false_eq_true, Function.update_of_ne] at hjob ⊢
  obtain ⟨j, hj, -⟩ := (Option.any_eq_true ..).1 hjob
  refine ⟨Option.isNone_iff_eq_none.1 hclaim, j, hj, ?_, ?_, ?_⟩
  · simp [hj]
  · simp [tasks]
  · simp

theorem effect_claimNew
    (h : (program (.claimNew now maxTaskSeconds job task claim worker)).exec st = some st') :
    Effect st st' := by
  obtain ⟨htask, h⟩ := Program.exec_row_eq_some.1 h
  obtain ⟨hclaim, j, hj, hjobs, htasks, hclaims⟩ := exec_issueClaim h
  simp only [jobs_update_task, tasks_update_task, claims_update_task, Function.update_self,
    Option.map_some, Function.update_idem] at hclaim hj hjobs htasks hclaims
  exact .inserted (newClaim now maxTaskSeconds job task worker) hclaim
    (Option.isNone_iff_eq_none.1 htask) hj rfl hjobs htasks hclaims

theorem effect_claimAvailable
    (h : (program (.claimAvailable now maxTaskSeconds job task claim worker)).exec st = some st') :
    Effect st st' := by
  obtain ⟨htask, h⟩ := Program.exec_row_eq_some.1 h
  simp only [id_eq, Function.update_eq_self] at h
  obtain ⟨hclaim, j, hj, hjobs, htasks, hclaims⟩ := exec_issueClaim h
  obtain ⟨row, hrow, hguard⟩ := (Option.any_eq_true ..).1 htask
  obtain ⟨htj, hav⟩ := of_decide_eq_true hguard
  rw [show tasks st task = some row from hrow, Option.map_some] at htasks
  exact .issued (newClaim now maxTaskSeconds job task worker) hclaim hrow hj htj hav rfl hjobs
    htasks hclaims

theorem exec_lockClaim {k : TaskClaim → Program Row}
    (h : (lockClaim claim worker k).exec st = some st') :
    ∃ cl, claims st claim = some cl ∧ cl.state = .claimed ∧ (k cl).exec st = some st' := by
  obtain ⟨hclaim, h⟩ := Program.exec_row_eq_some.1 h
  obtain ⟨cl, hcl, hguard⟩ := (Option.any_eq_true ..).1 hclaim
  simp only [hcl, id_eq] at h
  rw [← hcl, Function.update_eq_self] at h
  exact ⟨cl, hcl, (of_decide_eq_true hguard).1, h⟩

theorem exec_releaseClaim {terminal : ClaimState} {k : Program Row} {cl : TaskClaim}
    (hcl : claims st claim = some cl) (hs : cl.state = .claimed)
    (h : (releaseClaim claim terminal k).exec st = some st') :
    ∃ st₁, k.exec st₁ = some st' ∧ jobs st₁ = jobs st ∧
      tasks st₁ = Function.update (tasks st) cl.task ((tasks st cl.task).map (releaseTask 1)) ∧
      claims st₁ = Function.update (claims st) claim (some { cl with state := terminal }) := by
  obtain ⟨-, h⟩ := Program.exec_row_eq_some.1 h
  have hrow : st (.claim claim) = some cl := hcl
  simp only [hrow, hs, if_true, Option.map_some] at h
  obtain ⟨-, h⟩ := Program.exec_row_eq_some.1 h
  refine ⟨_, h, ?_, ?_, ?_⟩ <;> simp [tasks]

theorem released_singleton {cl : TaskClaim} (f : TaskClaim → TaskClaim)
    (hcl : claims st claim = some cl) (hs : cl.state = .claimed)
    (htasks : tasks st' =
      Function.update (tasks st) cl.task ((tasks st cl.task).map (releaseTask 1)))
    (hclaims : claims st' = Function.update (claims st) claim (some (f cl)))
    (htask : ∀ cl, (f cl).task = cl.task) (hjob : ∀ cl, (f cl).job = cl.job)
    (hstate : ∀ cl, (f cl).state ≠ .claimed ∧ (f cl).state ≠ .completed) :
    Released (tasks st) (tasks st') (claims st) (claims st') [claim] f where
  wasOpen c hc := by
    obtain rfl := List.mem_singleton.1 hc
    exact ⟨cl, hcl, hs⟩
  claims_eq c := by
    rw [hclaims, Function.update_apply]
    by_cases hc : c = claim
    · simp [hc, hcl]
    · simp [hc]
  tasks_eq t := by
    have hmem : t ∈ tasksOfClaims (claims st) [claim] ↔ t = cl.task := by
      simp [tasksOfClaims, hcl]
    rw [htasks, Function.update_apply]
    by_cases ht : t = cl.task
    · rw [if_pos ht, if_pos (hmem.2 ht), ht]
    · rw [if_neg ht, if_neg fun h ↦ ht (hmem.1 h)]
  task := htask
  job := hjob
  state cl _ := hstate cl

theorem effect_decline (h : (program (.decline claim worker)).exec st = some st') :
    Effect st st' := by
  obtain ⟨cl, hcl, hs, h⟩ := exec_lockClaim h
  obtain ⟨st₁, h, hjobs, htasks, hclaims⟩ := exec_releaseClaim hcl hs h
  cases h
  exact .released [claim] _ (released_singleton ({ · with state := .declined }) hcl hs htasks
    hclaims (fun _ ↦ rfl) (fun _ ↦ rfl) fun _ ↦ by simp) hjobs

theorem effect_heartbeat (h : (program (.heartbeat now claim worker)).exec st = some st') :
    Effect st st' := by
  obtain ⟨hclaim, h⟩ := Program.exec_row_eq_some.1 h
  cases h
  obtain ⟨cl, hcl, hguard⟩ := (Option.any_eq_true ..).1 hclaim
  exact .heartbeat hcl (of_decide_eq_true hguard).1 rfl rfl (by simp [hcl]; rfl)

theorem effect_createJob (h : (program (.createJob job)).exec st = some st') : Effect st st' := by
  obtain ⟨hjob, h⟩ := Program.exec_row_eq_some.1 h
  cases h
  exact .jobCreated (Option.isNone_iff_eq_none.1 hjob) (by simp) rfl rfl

theorem effect_setStatus {status : JobStatus}
    (h : (program (.setStatus job status)).exec st = some st') : Effect st st' := by
  obtain ⟨-, h⟩ := Program.exec_row_eq_some.1 h
  cases h
  cases hj : st (.job job) with
  | none => exact .none (by rw [Option.map_none, ← hj, Function.update_eq_self])
  | some j => exact .statusSet hj (by rw [jobs_update_job]; rfl) rfl rfl

theorem exec_releaseTasks {expired ts : List ℕ} (hts : ts.Nodup)
    (h : (releaseTasks expired ts).exec st = some st') :
    jobs st' = jobs st ∧ claims st' = claims st ∧ ∀ t, tasks st' t =
      if t ∈ ts then (tasks st t).map (releaseTask (expired.count t)) else tasks st t := by
  induction ts generalizing st with
  | nil =>
    cases h
    simp
  | cons u ts ih =>
    obtain ⟨hu, hts⟩ := List.nodup_cons.1 hts
    obtain ⟨-, h⟩ := Program.exec_row_eq_some.1 h
    obtain ⟨hjobs, hclaims, htasks⟩ := ih hts h
    refine ⟨by simpa using hjobs, by simpa using hclaims, fun t ↦ ?_⟩
    rw [htasks, tasks_update_task]
    rcases eq_or_ne t u with rfl | htu
    · simp [hu, tasks]
    · simp [htu]

theorem exec_reclaimExpiredFor {jobIds cs expired : List ℕ}
    (h : (reclaimExpiredFor now timeout jobIds cs expired).exec st = some st') :
    ∃ st₁, jobs st₁ = jobs st ∧ tasks st₁ = tasks st ∧ cs.Nodup ∧
      (∀ c ∈ cs, ∃ cl, claims st c = some cl ∧ cl.state = .claimed) ∧
      (∀ c, claims st₁ c =
        if c ∈ cs then (claims st c).map (abandon now timeout) else claims st c) ∧
      (releaseTasks (expired ++ tasksOfClaims (claims st) cs)
        (expired ++ tasksOfClaims (claims st) cs).dedup).exec st₁ = some st' := by
  induction cs generalizing st expired with
  | nil =>
    exact ⟨st, rfl, rfl, .nil, nofun, fun _ ↦ rfl,
      by simpa [tasksOfClaims, reclaimExpiredFor] using h⟩
  | cons c cs ih =>
    obtain ⟨hguard, h⟩ := Program.exec_row_eq_some.1 h
    obtain ⟨cl, hcl, hguard⟩ := (Option.any_eq_true ..).1 hguard
    have hs : cl.state = .claimed := by
      simp only [lapsed, Bool.decide_and, Bool.and_eq_true, decide_eq_true_eq] at hguard
      exact hguard.2.1
    obtain ⟨st₁, hjobs, htasks, hnodup, hopen, hclaims, h⟩ := ih h
    simp only [claims_update_claim] at hopen hclaims h
    have hc : c ∉ cs := by
      intro hmem
      obtain ⟨cl', hcl', hs'⟩ := hopen c hmem
      rw [Function.update_self, hcl, Option.map_some, Option.some.injEq] at hcl'
      simp [← hcl', abandon] at hs'
    have hof : ∀ c' ∈ cs, Function.update (claims st) c (Option.map (abandon now timeout)
        (st (.claim c))) c' = claims st c' := by
      intro c' hc'
      rw [Function.update_of_ne]
      rintro rfl
      exact hc hc'
    refine ⟨st₁, hjobs, htasks, List.nodup_cons.2 ⟨hc, hnodup⟩, ?_, ?_, ?_⟩
    · intro c' hc'
      rcases List.mem_cons.1 hc' with rfl | hc'
      · exact ⟨cl, hcl, hs⟩
      · exact hof c' hc' ▸ hopen c' hc'
    · intro c'
      rw [hclaims]
      rcases eq_or_ne c' c with rfl | hcc
      · simp [hc, claims]
      · simp [hcc]
    · have htail : tasksOfClaims (Function.update (claims st) c (Option.map (abandon now timeout)
          (st (.claim c)))) cs = tasksOfClaims (claims st) cs :=
        List.filterMap_congr fun c' hc' ↦ by rw [hof c' hc']
      have hcons : tasksOfClaims (claims st) (c :: cs) =
          cl.task :: tasksOfClaims (claims st) cs := by
        simp [tasksOfClaims, show claims st c = some cl from hcl]
      rw [htail, hcl] at h
      simpa [hcons] using h

abbrev StoreConsistent (st : Store Row) : Prop := Consistent (jobs st) (tasks st) (claims st)

theorem Consistent.nodup_tasksOfClaims (h : StoreConsistent st) {cs : List ℕ} (hcs : cs.Nodup)
    (hopen : ∀ c ∈ cs, ∃ cl, claims st c = some cl ∧ cl.state = .claimed) :
    (tasksOfClaims (claims st) cs).Nodup := by
  refine List.pairwise_filterMap.2 (hcs.imp_of_mem fun {c c'} hc hc' hne t ht t' ht' htt ↦ ?_)
  obtain ⟨cl, hcl, hs⟩ := hopen c hc
  obtain ⟨cl', hcl', hs'⟩ := hopen c' hc'
  simp only [hcl, hcl', Option.map_some, Option.some.injEq] at ht ht'
  have hsame : cl'.task = cl.task := by rw [ht, ht', htt]
  obtain ⟨task, htask, -⟩ := Option.map_eq_some_iff.1 (h.taskOf hcl)
  have ho := ((h.slot htask).claimed_of_open hcl hs).2.1
  have hmem : c' ∈ claimsOf (claims st) cl.task .claimed := ⟨cl', hcl', hsame, hs'⟩
  rw [ho, Set.mem_singleton_iff] at hmem
  exact hne hmem.symm

theorem effect_reclaim (hst : StoreConsistent st) {jobIds cs : List ℕ}
    (h : (program (.reclaim now timeout jobIds cs)).exec st = some st') : Effect st st' := by
  obtain ⟨st₁, hjobs, htasks, hnodup, hopen, hclaims, h⟩ := exec_reclaimExpiredFor h
  rw [List.nil_append] at h
  have hnodup' := hst.nodup_tasksOfClaims hnodup hopen
  obtain ⟨hjobs', hclaims', htasks'⟩ := exec_releaseTasks (List.nodup_dedup _) h
  refine .released cs (abandon now timeout)
    ⟨hopen, fun c ↦ by rw [hclaims', hclaims], fun t ↦ ?_, fun _ ↦ rfl, fun _ ↦ rfl,
      fun _ _ ↦ by simp [abandon]⟩ (hjobs'.trans hjobs)
  simp only [htasks', htasks, List.mem_dedup]
  split
  · next hmem => rw [List.count_eq_one_of_mem hnodup' hmem]
  · rfl

theorem effect_submit (hst : StoreConsistent st) {enforced : Bool}
    (h : (program (.submit now claim worker enforced)).exec st = some st') : Effect st st' := by
  obtain ⟨cl, hcl, hs, h⟩ := exec_lockClaim h
  split at h
  · obtain ⟨st₁, h, hjobs, htasks, hclaims⟩ := exec_releaseClaim hcl hs h
    obtain ⟨-, h⟩ := Program.exec_row_eq_some.1 h
    cases h
    have hrow : st₁ (.claim claim) = some { cl with state := .abandoned } := by
      rw [show st₁ (.claim claim) = claims st₁ claim from rfl, hclaims, Function.update_self]
    refine .released [claim] _ (released_singleton
      ({ · with state := .abandoned, overrun := some .pending }) hcl hs (by simpa using htasks) ?_
      (fun _ ↦ rfl) (fun _ ↦ rfl) fun _ ↦ by simp) (by simpa using hjobs)
    rw [claims_update_claim, hrow, hclaims, Function.update_idem]
    rfl
  · obtain ⟨-, h⟩ := Program.exec_row_eq_some.1 h
    obtain ⟨-, h⟩ := Program.exec_row_eq_some.1 h
    obtain ⟨htask, h⟩ := Program.exec_row_eq_some.1 h
    obtain ⟨-, h⟩ := Program.exec_row_eq_some.1 h
    cases h
    obtain ⟨task, htask, htj⟩ := Option.map_eq_some_iff.1 (hst.taskOf hcl)
    obtain ⟨job, hjob⟩ := Option.isSome_iff_exists.1 (htj ▸ hst.jobOf htask)
    have haccepted := ((hst.slot htask).claimed_of_open hcl hs).2.2.2.2
    have hcl' : st (.claim claim) = some cl := hcl
    have htask' : st (.task cl.task) = some task := htask
    have hjob' : st (.job cl.job) = some job := hjob
    refine .accepted now hcl hs htask hjob ?_ ?_ ?_ <;>
      simp [hcl', htask', hjob', haccepted]

theorem effect_exec (hst : StoreConsistent st) {op : Operation}
    (h : (program op).exec st = some st') : Effect st st' := by
  cases op with
  | claimNew => exact effect_claimNew h
  | claimAvailable => exact effect_claimAvailable h
  | decline => exact effect_decline h
  | reclaim => exact effect_reclaim hst h
  | submit => exact effect_submit hst h
  | heartbeat => exact effect_heartbeat h
  | createJob => exact effect_createJob h
  | setStatus => exact effect_setStatus h

end Operations

section Runs

variable {st st' : Store Row} {d d' : Database Row Operation}

theorem Consistent.effect (h : StoreConsistent st) (he : Effect st st') : StoreConsistent st' := by
  cases he with
  | inserted cl hc ht hj hs hjobs htasks hclaims =>
    have hinserted := (h.insertTask ht hj).issueClaim hc (Function.update_self ..)
      (Function.update_self ..) rfl rfl hs
    simp only [Function.update_idem, countClaim, Bool.toNat_false, add_zero] at hinserted
    simpa only [StoreConsistent, hjobs, htasks, hclaims, countClaim,
      Bool.toNat_true] using hinserted
  | issued cl hc ht hj htj hav hs hjobs htasks hclaims =>
    simpa only [StoreConsistent, hjobs, htasks, hclaims] using h.issueClaim hc ht hj htj hav hs
  | released cs f hr hjobs =>
    simpa only [StoreConsistent, hjobs] using Consistent.released h hr
  | @accepted c job task cl now hc hs ht hj hjobs htasks hclaims =>
    simpa only [StoreConsistent, hjobs, htasks, hclaims] using
      h.accept { cl with state := .completed, completedAt := some now } hc hs ht hj rfl rfl rfl
  | @heartbeat c cl now hc hs hjobs htasks hclaims =>
    simpa only [StoreConsistent, hjobs, htasks, hclaims] using
      h.update_claim { cl with lastHeartbeatAt := some now } hc rfl rfl rfl
  | jobCreated hj hjobs htasks hclaims =>
    simpa only [StoreConsistent, hjobs, htasks, hclaims] using h.createJob hj
  | statusSet hj hjobs htasks hclaims =>
    simpa only [StoreConsistent, hjobs, htasks, hclaims] using h.setStatus hj
  | none hst => exact hst ▸ h

def Ended (st st' : Store Row) : Prop :=
  ∀ c row, claims st c = some row → row.state ≠ .claimed →
    ∃ row', claims st' c = some row' ∧ row'.state = row.state

theorem ended_of_update {c : ℕ} {v : Option TaskClaim}
    (hc : ∀ row, claims st c = some row → row.state = .claimed)
    (hclaims : claims st' = Function.update (claims st) c v) : Ended st st' := by
  intro c' row hrow hs
  refine ⟨row, ?_, rfl⟩
  rw [hclaims, Function.update_of_ne, hrow]
  rintro rfl
  exact hs (hc row hrow)

theorem Effect.ended (h : Effect st st') : Ended st st' := by
  cases h with
  | inserted cl hc ht hj hs hjobs htasks hclaims
  | issued cl hc ht hj htj hav hs hjobs htasks hclaims =>
    exact ended_of_update (fun row hrow ↦ by simp [hc] at hrow) hclaims
  | accepted now hc hs ht hj hjobs htasks hclaims | heartbeat hc hs hjobs htasks hclaims =>
    refine ended_of_update (fun row hrow ↦ ?_) hclaims
    rw [hc, Option.some.injEq] at hrow
    exact hrow ▸ hs
  | released cs f hr hjobs =>
    intro c row hrow hs
    refine ⟨row, ?_, rfl⟩
    rw [hr.claims_eq, if_neg, hrow]
    intro hmem
    obtain ⟨cl, hcl, hopen⟩ := hr.wasOpen c hmem
    rw [hrow, Option.some.injEq] at hcl
    exact hs (hcl ▸ hopen)
  | jobCreated hj hjobs htasks hclaims | statusSet hj hjobs htasks hclaims =>
    exact fun c row hrow _ ↦ ⟨row, hclaims ▸ hrow, rfl⟩
  | none hst => exact fun c row hrow _ ↦ ⟨row, hst ▸ hrow, rfl⟩

theorem consistent_of_start (h : start st) : StoreConsistent st := by
  obtain ⟨hjobs, htasks, hclaims⟩ := h
  constructor <;> simp [jobs, tasks, claims, hjobs, htasks, hclaims]

theorem consistent_of_serial (h : (serial program start).Reachable st) : StoreConsistent st :=
  h.invariant (fun _ ↦ consistent_of_start) fun _ _ _ hi _ hs ↦ hi.effect (effect_exec hi hs)

theorem ended_of_serial (hst : StoreConsistent st)
    (h : ((serial program start).startingAt st).Reachable st') : Ended st st' := by
  have := h.invariant (I := fun st₁ ↦ StoreConsistent st₁ ∧ Ended st st₁) ?_ ?_
  · exact this.2
  · rintro _ rfl
    exact ⟨hst, fun c row hrow _ ↦ ⟨row, hrow, rfl⟩⟩
  · rintro st₁ op st₂ ⟨hcons, hended⟩ - hs
    have he := effect_exec hcons hs
    refine ⟨hcons.effect he, fun c row hrow hne ↦ ?_⟩
    obtain ⟨row₁, hrow₁, hstate₁⟩ := hended c row hrow hne
    obtain ⟨row₂, hrow₂, hstate₂⟩ := he.ended c row₁ hrow₁ (hstate₁ ▸ hne)
    exact ⟨row₂, hrow₂, hstate₂.trans hstate₁⟩

end Runs

section Slot

variable {claims : ℕ → Option TaskClaim} {t : ℕ} {row : Task}

theorem Slot.activeClaimCount (h : Slot claims t row) :
    (row.activeClaimCount : ℕ∞) = (claimsOf claims t .claimed).encard ∧
      row.activeClaimCount ≤ 1 := by
  cases h with
  | available _ ho _ hactive | completed _ _ ho _ hactive => simp [ho, hactive]
  | claimed _ _ ho _ hactive => simp [ho, hactive]

theorem Slot.acceptedCount (h : Slot claims t row) :
    (row.acceptedCount : ℕ∞) = (claimsOf claims t .completed).encard ∧ row.acceptedCount ≤ 1 := by
  cases h with
  | available _ _ ha _ haccepted | claimed _ _ _ ha _ haccepted => simp [ha, haccepted]
  | completed _ _ _ ha _ haccepted => simp [ha, haccepted]

theorem Slot.state (h : Slot claims t row) :
    (row.state = .available ↔
      claimsOf claims t .claimed = ∅ ∧ claimsOf claims t .completed = ∅) ∧
    (row.state = .claimed ↔ (claimsOf claims t .claimed).encard = 1) ∧
    (row.state = .completed ↔ (claimsOf claims t .completed).encard = 1) := by
  cases h with
  | available hs ho ha => simp [hs, ho, ha]
  | claimed c hs ho ha | completed c hs ho ha => simp [hs, ho, ha]

end Slot

/-- Tasks and claims agree in every state of every interleaving, and a claim that has left
the claimed state stays as it ended. -/
theorem claims_agree {d : Database Row Operation} (h : machine.Reachable d) :
    (∀ t row, tasks d.rows t = some row →
      ((row.activeClaimCount : ℕ∞) = (claimsOf (claims d.rows) t .claimed).encard ∧
        row.activeClaimCount ≤ 1) ∧
      ((row.acceptedCount : ℕ∞) = (claimsOf (claims d.rows) t .completed).encard ∧
        row.acceptedCount ≤ 1) ∧
      (row.state = .available ↔
        claimsOf (claims d.rows) t .claimed = ∅ ∧ claimsOf (claims d.rows) t .completed = ∅) ∧
      (row.state = .claimed ↔ (claimsOf (claims d.rows) t .claimed).encard = 1) ∧
      (row.state = .completed ↔ (claimsOf (claims d.rows) t .completed).encard = 1)) ∧
    (∀ j row, jobs d.rows j = some row →
      (row.tasksTotal : ℕ∞) = (tasksOf (tasks d.rows) j).encard ∧
      (row.tasksCompleted : ℕ∞) = (tasksCompleted (tasks d.rows) j).encard ∧
      (row.claimsIssued : ℕ∞) = (claimsIssued (claims d.rows) j).encard) ∧
    ∀ d', (machine.startingAt d).Reachable d' → ∀ c row, claims d.rows c = some row →
      row.state ≠ .claimed → ∃ row', claims d'.rows c = some row' ∧ row'.state = row.state := by
  obtain ⟨hsound, hserial⟩ := serial_of_reachable h
  have hst := consistent_of_serial hserial
  refine ⟨fun t row ht ↦ ?_, fun j row hj ↦ ?_, fun d' hd' ↦ ?_⟩
  · have hslot := hst.slot ht
    exact ⟨hslot.activeClaimCount, hslot.acceptedCount, hslot.state⟩
  · have hcounts := hst.counts hj
    exact ⟨hcounts.tasksTotal, hcounts.tasksCompleted, hcounts.claimsIssued⟩
  · exact ended_of_serial hst (serial_of_startingAt hsound hd').2

def empty : Database Row Operation where
  rows
    | .job _ => none
    | .task _ => none
    | .claim _ => none
  holder _ := none
  running _ := none

def submitAndClaim : List (Action Operation) :=
  [.begin 0 (.createJob 0), .access 0, .commit 0, .begin 0 (.setStatus 0 .active), .access 0,
    .commit 0, .begin 0 (.claimNew 0 3600 0 1 1 1), .access 0, .access 0, .access 0, .access 0,
    .commit 0, .begin 1 (.submit 7 1 1 true), .begin 2 (.claimNew 5 3600 0 2 2 2), .access 1,
    .access 2, .access 1, .access 2, .access 1, .access 2, .access 2, .commit 2, .access 1,
    .access 1, .commit 1]

theorem exists_claims_agree : ∃ d, machine.Reachable d ∧
    (tasks d.rows 1).map Task.state = some .completed ∧
    (tasks d.rows 2).map Task.state = some .claimed ∧
    (claimsOf (claims d.rows) 1 .completed).encard = 1 ∧
    (claimsOf (claims d.rows) 2 .claimed).encard = 1 := by
  have hstart : machine.Reachable empty :=
    .start ⟨⟨fun _ ↦ rfl, fun _ ↦ rfl, fun _ ↦ rfl⟩, fun _ ↦ rfl, fun _ ↦ rfl⟩
  obtain ⟨d, hd, hp⟩ := hstart.follow_any submitAndClaim
    (fun d ↦ (tasks d.rows 1).map Task.state = some .completed ∧
      (tasks d.rows 2).map Task.state = some .claimed) (by decide)
  obtain ⟨h₁, h₂⟩ := of_decide_eq_true hp
  obtain ⟨row₁, hrow₁, hs₁⟩ := Option.map_eq_some_iff.1 h₁
  obtain ⟨row₂, hrow₂, hs₂⟩ := Option.map_eq_some_iff.1 h₂
  exact ⟨d, hd, h₁, h₂, ((claims_agree hd).1 1 row₁ hrow₁).2.2.2.2.1 hs₁,
    ((claims_agree hd).1 2 row₂ hrow₂).2.2.2.1.1 hs₂⟩

end Birdtest.Scheduler.Claims
