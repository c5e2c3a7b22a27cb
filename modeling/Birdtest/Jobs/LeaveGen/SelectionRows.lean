import Birdtest.Jobs.LeaveGen.Selection

namespace Birdtest.Jobs.LeaveGen.Selection

open Birdtest.Base.Runs Birdtest.Models.Job

variable {R : Type}

theorem map_state_modify (tasks : List (Task R)) (t u : ℕ) (st : TaskState) :
    ((tasks.modify t ({ · with state := st }))[u]?).map Task.state =
      if t = u then (tasks[u]?).map fun _ ↦ st else (tasks[u]?).map Task.state := by
  rw [List.getElem?_modify]
  split <;> simp [Function.comp_def]

theorem map_forcedRacks_modify (tasks : List (Task R)) (t u : ℕ) (st : TaskState) :
    ((tasks.modify t ({ · with state := st }))[u]?).map Task.forcedRacks =
      (tasks[u]?).map Task.forcedRacks := by
  rw [List.getElem?_modify]
  split <;> simp [Function.comp_def]

variable {s s' : State R}

def openClaim (t : ℕ) : TaskClaim := ⟨t, .claimed⟩

@[simp]
theorem openClaim_inj {t u : ℕ} : openClaim t = openClaim u ↔ t = u := by
  simp [openClaim]

/-- One slot a task: a task is claimed exactly while it has its one open claim, and the
task a claim is about to reissue is still available. -/
structure Slots (s : State R) : Prop where
  taskState_of_open {i t : ℕ} : s.claims[i]? = some (openClaim t) →
    taskState s t = some .claimed
  open_of_claimed {t : ℕ} : taskState s t = some .claimed →
    ∃ i : ℕ, s.claims[i]? = some (openClaim t)
  single {i j t : ℕ} : s.claims[i]? = some (openClaim t) → s.claims[j]? = some (openClaim t) →
    i = j
  reissue {t : ℕ} : s.stage = .reissue t → taskState s t = some .available

theorem Slots.not_open_of_available {t : ℕ} (h : Slots s) (ht : taskState s t = some .available)
    (i : ℕ) : s.claims[i]? ≠ some (openClaim t) := by
  intro hi
  have := h.taskState_of_open hi
  simp [ht] at this

theorem Slots.congr (h : Slots s) (ht : s'.tasks = s.tasks) (hc : s'.claims = s.claims)
    (hs : ∀ t, s'.stage = .reissue t → taskState s t = some .available) : Slots s' := by
  constructor <;> simp only [taskState, ht, hc]
  · exact h.taskState_of_open
  · exact h.open_of_claimed
  · exact h.single
  · exact hs _

theorem Slots.issueClaim {tasks : List (Task R)} {t : ℕ} (h : Slots s)
    (ht : (tasks[t]?).map Task.state = some .available)
    (hu : ∀ u, u ≠ t → tasks[u]? = s.tasks[u]?) (hn : ∀ i : ℕ, s.claims[i]? ≠ some (openClaim t)) :
    Slots (issueClaim s tasks t) := by
  have hstate u : taskState (Selection.issueClaim s tasks t) u =
      if t = u then some .claimed else taskState s u := by
    simp only [taskState, Selection.issueClaim, map_state_modify]
    split
    · next hu => subst hu; cases htt : tasks[t]? <;> simp_all
    · next hut => rw [hu u (Ne.symm hut)]
  have hclaim (i u : ℕ) : (Selection.issueClaim s tasks t).claims[i]? = some (openClaim u) ↔
      s.claims[i]? = some (openClaim u) ∨ i = s.claims.length ∧ u = t := by
    simp only [Selection.issueClaim, List.getElem?_append]
    grind [openClaim]
  refine ⟨?_, ?_, ?_, ?_⟩
  · intro i u hi
    rw [hstate]
    rcases (hclaim i u).1 hi with hi | ⟨-, rfl⟩
    · split
      · rfl
      · exact h.taskState_of_open hi
    · simp
  · intro u hcu
    rw [hstate] at hcu
    split at hcu
    · next htu => exact ⟨s.claims.length, (hclaim _ _).2 (.inr ⟨rfl, htu.symm⟩)⟩
    · obtain ⟨i, hi⟩ := h.open_of_claimed hcu
      exact ⟨i, (hclaim _ _).2 (.inl hi)⟩
  · intro i j u hi hj
    rcases (hclaim i u).1 hi with hi | ⟨rfl, rfl⟩ <;> rcases (hclaim j u).1 hj with hj | ⟨rfl, hju⟩
    · exact h.single hi hj
    · exact absurd (hju ▸ hi) (hn i)
    · exact absurd hj (hn j)
    · rfl
  · intro u hu
    simp [Selection.issueClaim] at hu

theorem Slots.endClaim {c t : ℕ} {terminal : ClaimState} {st : TaskState} (h : Slots s)
    (hc : s.claims[c]? = some (openClaim t)) (ht : terminal ≠ .claimed) (hst : st ≠ .claimed)
    (hclaims : s'.claims = s.claims.set c ⟨t, terminal⟩)
    (htasks : s'.tasks = s.tasks.modify t ({ · with state := st }))
    (hstage : s'.stage = s.stage) : Slots s' := by
  have hstate u : taskState s' u =
      if t = u then (taskState s u).map fun _ ↦ st else taskState s u := by
    simp only [taskState, htasks, map_state_modify, Option.map_map, Function.comp_def]
  have hclaim (i u : ℕ) : s'.claims[i]? = some (openClaim u) ↔
      s.claims[i]? = some (openClaim u) ∧ i ≠ c := by
    rw [hclaims, List.getElem?_set]
    grind [openClaim]
  refine ⟨?_, ?_, ?_, ?_⟩
  · intro i u hi
    obtain ⟨hi, hic⟩ := (hclaim i u).1 hi
    rw [hstate, if_neg]
    · exact h.taskState_of_open hi
    · rintro rfl
      exact hic (h.single hi hc)
  · intro u hcu
    rw [hstate] at hcu
    split at hcu
    · obtain ⟨_, -, hcu⟩ := Option.map_eq_some_iff.1 hcu
      exact absurd hcu hst
    · next htu =>
      obtain ⟨i, hi⟩ := h.open_of_claimed hcu
      refine ⟨i, (hclaim i u).2 ⟨hi, ?_⟩⟩
      rintro rfl
      simp [hc] at hi
      exact htu hi
  · intro i j u hi hj
    exact h.single ((hclaim i u).1 hi).1 ((hclaim j u).1 hj).1
  · intro u hu
    have hav := h.reissue (hstage ▸ hu)
    rw [hstate, if_neg]
    · exact hav
    · rintro rfl
      exact h.not_open_of_available hav c hc

theorem getElem?_append_available (s : State R) (racks : List R) :
    ((s.tasks ++ [⟨racks, .available⟩])[s.tasks.length]?).map Task.state = some .available ∧
      ∀ u, u ≠ s.tasks.length → (s.tasks ++ [⟨racks, .available⟩])[u]? = s.tasks[u]? := by
  refine ⟨by simp, fun u hu ↦ ?_⟩
  grind

variable [LinearOrder R] {g : Generation R} {a : Action R}

inductive Step (g : Generation R) (s : State R) : Action R → State R → Prop
  | opened (h : s.opening = .unopened) : Step g s .openGeneration { s with opening := .opened }
  | seeded (h : s.stage = .idle) (ho : s.opening = .opened) :
      Step g s .seedUniverse { s with opening := .seeded, belowTarget := g.racks.length }
  | closed (ho : s.opening = .seeded) (h : s.stage ≠ .answer .transition) :
      Step g s .closeGeneration { s with transition := some .completed, cursor := none }
  | lock (h : s.stage = .idle) : Step g s .lock { s with
      stage := if s.opening = .unopened then .earlierGeneration else .transitionInProgress
      view := s.cursor }
  | statement {stage : Stage R} {view : Option (Option R)}
      (h : statement g s = some (stage, view)) : Step g s .statement { s with stage, view }
  | available {t : ℕ} (h : s.stage = .nextAvailable) (ht : taskState s t = some .available) :
      Step g s (.nextAvailable (some t)) { s with stage := .reissue t }
  | noneAvailable (h : s.stage = .nextAvailable) (hn : ∀ task ∈ s.tasks, task.state ≠ .available) :
      Step g s (.nextAvailable none) { s with stage := .nextStep }
  | furthest {racks : List R} (h : s.stage = .furthestBelowTarget) (hr : IsFurthest g s racks) :
      Step g s (.furthestBelowTarget racks)
        { s with stage := if racks.isEmpty then .tailClaimsInFlight else .dispatch racks }
  | reissued {t : ℕ} (h : s.stage = .reissue t) : Step g s .commit (issueClaim s s.tasks t)
  | dispatched {racks : List R} (h : s.stage = .dispatch racks) :
      Step g s .commit (issueClaim s (s.tasks ++ [⟨racks, .available⟩]) s.tasks.length)
  | transition (h : s.stage = .answer .transition) :
      Step g s .commit { s with transition := some .started, cursor := s.view, stage := .idle }
  | answered : Step g s .commit { s with cursor := s.view, stage := .idle }
  | rollback : Step g s .rollback { s with stage := .idle }
  | submitted {c : ℕ} {racks : List (R × ℕ)} {s' : State R} (h : submit s c racks = some s') :
      Step g s (.submit c racks) s'
  | released {a : Action R} {c : ℕ} {terminal : ClaimState} {s' : State R}
      (ha : a = .decline c ∨ a = .lapse c) (ht : terminal ≠ .claimed)
      (h : releaseClaim s c terminal = some s') : Step g s a s'
  | merged {ids : List ℕ} : Step g s .mergeCommit (mergeCommit g s ids)
  | merging {a : Action R} {ids : Option (List ℕ)} : Step g s a { s with merging := ids }
  | transitionLapsed : Step g s .transitionLapses { s with transition := some .lapsed }

theorem step_of_commit (h : commit s = some s') : Step g s .commit s' := by
  unfold commit at h
  split at h <;> cases h
  · next hs => exact .reissued hs
  · next hs => exact .dispatched hs
  · next hs => exact .transition hs
  all_goals exact .answered

theorem step_of_next (h : next g s a = some s') : Step g s a s' := by
  cases a with
  | openGeneration =>
    obtain ⟨hs, h⟩ := Option.ite_none_right_eq_some.1 h
    exact Option.some.inj h ▸ .opened hs
  | seedUniverse =>
    obtain ⟨⟨hs, ho⟩, h⟩ := Option.ite_none_right_eq_some.1 h
    exact Option.some.inj h ▸ .seeded hs ho
  | closeGeneration =>
    obtain ⟨⟨ho, -, hs⟩, h⟩ := Option.ite_none_right_eq_some.1 h
    exact Option.some.inj h ▸ .closed ho hs
  | lock =>
    obtain ⟨⟨hs, -⟩, h⟩ := Option.ite_none_right_eq_some.1 h
    exact Option.some.inj h ▸ .lock hs
  | statement =>
    obtain ⟨⟨stage, view⟩, hs, rfl⟩ := Option.map_eq_some_iff.1 h
    exact .statement hs
  | nextAvailable t =>
    cases t with
    | none =>
      obtain ⟨⟨hs, hn⟩, h⟩ := Option.ite_none_right_eq_some.1 h
      exact Option.some.inj h ▸ .noneAvailable hs (by simpa using hn)
    | some t =>
      obtain ⟨⟨hs, ht⟩, h⟩ := Option.ite_none_right_eq_some.1 h
      exact Option.some.inj h ▸ .available hs ht
  | furthestBelowTarget racks =>
    obtain ⟨⟨hs, hr⟩, h⟩ := Option.ite_none_right_eq_some.1 h
    exact Option.some.inj h ▸ .furthest hs hr
  | commit => exact step_of_commit h
  | rollback =>
    obtain ⟨-, h⟩ := Option.ite_none_left_eq_some.1 h
    exact Option.some.inj h ▸ .rollback
  | submit c racks => exact .submitted h
  | decline c => exact .released (.inl rfl) (by decide) h
  | lapse c => exact .released (.inr rfl) (by decide) h
  | mergeRead =>
    obtain ⟨-, h⟩ := Option.ite_none_right_eq_some.1 h
    exact Option.some.inj h ▸ .merging
  | mergeCommit =>
    obtain ⟨ids, -, rfl⟩ := Option.map_eq_some_iff.1 h
    exact .merged
  | mergeRollback =>
    obtain ⟨ids, -, rfl⟩ := Option.map_eq_some_iff.1 h
    exact .merging
  | transitionLapses =>
    obtain ⟨-, h⟩ := Option.ite_none_right_eq_some.1 h
    exact Option.some.inj h ▸ .transitionLapsed

theorem statement_ne_reissue {stage : Stage R} {view : Option (Option R)} {t : ℕ}
    (h : statement g s = some (stage, view)) : stage ≠ .reissue t := by
  unfold statement at h
  grind

theorem Slots.step (h : Slots s) (hs : Step g s a s') : Slots s' := by
  cases hs with
  | noneAvailable | transition | answered | rollback => exact h.congr rfl rfl nofun
  | merged | merging | transitionLapsed | opened | seeded | closed =>
    exact h.congr rfl rfl fun t ht ↦ h.reissue ht
  | lock =>
    refine h.congr rfl rfl fun t ht ↦ ?_
    simp only at ht
    split at ht <;> cases ht
  | statement hst =>
    exact h.congr rfl rfl fun t ht ↦ absurd ht (statement_ne_reissue hst)
  | available hst hav =>
    refine h.congr rfl rfl fun t ht ↦ ?_
    cases ht
    exact hav
  | furthest =>
    refine h.congr rfl rfl fun t ht ↦ ?_
    simp only at ht
    split at ht <;> cases ht
  | reissued hst =>
    exact h.issueClaim (h.reissue hst) (fun _ _ ↦ rfl) (h.not_open_of_available (h.reissue hst))
  | @dispatched racks hst =>
    obtain ⟨ht, hu⟩ := getElem?_append_available s racks
    refine h.issueClaim ht hu fun i hi ↦ ?_
    have := h.taskState_of_open hi
    simp [taskState] at this
  | submitted hr =>
    obtain ⟨t, hc, rfl⟩ := submit_cases hr
    exact h.endClaim hc (by decide) (by decide) rfl rfl rfl
  | released _ ht hr =>
    obtain ⟨t, hc, rfl⟩ := releaseClaim_cases hr
    exact h.endClaim hc ht (by decide) rfl rfl rfl

theorem slots_of_reachable (h : (machine g).Reachable s) : Slots s :=
  h.invariant (fun _ h ↦ h ▸ ⟨nofun, nofun, nofun, nofun⟩)
    fun _ _ _ hi _ hs ↦ hi.step (step_of_next hs)

section Universe

theorem rows_of_seeded (h : s.opening = .seeded) : rows g s = g.racks := if_pos h

theorem rows_congr (h : s'.opening = .seeded ↔ s.opening = .seeded) : rows g s' = rows g s := by
  simp only [rows, h]

theorem mem_racks_of_mem_rows {r : R} (h : r ∈ rows g s) : r ∈ g.racks ∧ s.opening = .seeded := by
  rw [rows] at h
  split at h
  · next hs => exact ⟨h, hs⟩
  · cases h

theorem mem_rows_of_mem_racksAfter {c : Option R} {r : R} (h : r ∈ (racksAfter g s c).1) :
    r ∈ rows g s :=
  List.mem_of_mem_filter (List.mem_of_mem_take (List.mem_of_mem_take h))

theorem sorted_rows : (rows g s).Pairwise (· < ·) := by
  rw [rows]
  split
  · exact g.sorted
  · exact .nil

theorem ne_nil_of_more {c : Option R} (h : (racksAfter g s c).2 = true) :
    (racksAfter g s c).1 ≠ [] := by
  have hpos := g.racksPerTask_pos
  have hlength := of_decide_eq_true h
  intro hnil
  rcases List.take_eq_nil_iff.1 hnil with hzero | hnil
  · omega
  · exact Nat.not_lt_zero _ (List.length_eq_zero_iff.2 hnil ▸ hlength)

theorem seeded_of_racksAfter {c : Option R} (h : (racksAfter g s c).1 ≠ []) :
    s.opening = .seeded := by
  obtain ⟨r, hr⟩ := List.exists_mem_of_ne_nil _ h
  exact (mem_racks_of_mem_rows (mem_rows_of_mem_racksAfter hr)).2

theorem seeded_of_statement {racks : List R} {view : Option (Option R)}
    (h : statement g s = some (.dispatch racks, view)) : s.opening = .seeded := by
  unfold statement at h
  cases hs : s.stage <;> simp only [hs, reduceCtorEq, Option.some.injEq, Prod.mk.injEq] at h
  case sweep =>
    split at h
    · cases (Prod.mk.inj (Option.some.inj h)).1
    · next hne => exact seeded_of_racksAfter fun hnil ↦ hne (by rw [hnil]; rfl)
  case continueLap c =>
    split at h
    · next hmore => exact seeded_of_racksAfter (ne_nil_of_more hmore)
    · obtain ⟨hstage, -⟩ := Prod.mk.inj (Option.some.inj h)
      split at hstage
      · cases hstage
      · next hne => exact seeded_of_racksAfter fun hnil ↦ hne (by rw [hnil]; rfl)
  all_goals grind

structure Untouched (s : State R) : Prop where
  tasks : s.tasks = []
  claims : s.claims = []
  staging : s.staging = []
  accepted : s.accepted = []
  stage (racks : List R) : s.stage ≠ .dispatch racks

omit [LinearOrder R] in
theorem Untouched.congr (h : Untouched s) (ht : s'.tasks = s.tasks) (hc : s'.claims = s.claims)
    (hs : s'.staging = s.staging) (ha : s'.accepted = s.accepted)
    (hd : ∀ racks, s'.stage ≠ .dispatch racks) : Untouched s' :=
  ⟨ht ▸ h.tasks, hc ▸ h.claims, hs ▸ h.staging, ha ▸ h.accepted, hd⟩

omit [LinearOrder R] in
theorem Untouched.not_open (h : Untouched s) {c t : ℕ} :
    s.claims[c]? ≠ some (openClaim t) := by
  rw [h.claims]
  exact nofun

theorem Untouched.step (hslots : Slots s) (hi : s.opening ≠ .seeded → Untouched s)
    (hs : Step g s a s') (ho : s'.opening ≠ .seeded) : Untouched s' := by
  cases hs with
  | seeded => exact absurd rfl ho
  | closed hseeded => exact absurd hseeded ho
  | opened h =>
    have hu := hi (h ▸ nofun)
    exact hu.congr rfl rfl rfl rfl hu.stage
  | lock =>
    refine (hi ho).congr rfl rfl rfl rfl fun racks hd ↦ ?_
    simp only at hd
    split at hd <;> cases hd
  | @furthest racks hst hr =>
    have hnil : racks = [] := by
      refine List.eq_nil_iff_forall_not_mem.2 fun r hmem ↦ ho ?_
      exact (mem_racks_of_mem_rows (List.mem_of_mem_filter (hr.2.1 r hmem))).2
    exact (hi ho).congr rfl rfl rfl rfl (by simp [hnil])
  | statement hst =>
    refine (hi ho).congr rfl rfl rfl rfl ?_
    rintro racks rfl
    have hseeded : s.opening = .seeded := seeded_of_statement hst
    exact ho hseeded
  | available | noneAvailable | transition | answered | rollback =>
    exact (hi ho).congr rfl rfl rfl rfl nofun
  | reissued hst =>
    have hav := hslots.reissue hst
    simp [taskState, (hi ho).tasks] at hav
  | dispatched hst => exact absurd hst ((hi ho).stage _)
  | submitted hr =>
    obtain ⟨t, hc, rfl⟩ := submit_cases hr
    exact absurd hc (hi ho).not_open
  | released _ _ hr =>
    obtain ⟨t, hc, rfl⟩ := releaseClaim_cases hr
    exact absurd hc (hi ho).not_open
  | merged =>
    have hu := hi ho
    exact hu.congr rfl rfl (by simp [mergeCommit, hu.staging]) rfl hu.stage
  | merging | transitionLapsed =>
    have hu := hi ho
    exact hu.congr rfl rfl rfl rfl hu.stage

theorem untouched_of_reachable (h : (machine g).Reachable s) (hs : s.opening ≠ .seeded) :
    Untouched s := by
  refine h.invariant_of (I := fun s ↦ s.opening ≠ .seeded → Untouched s)
    (fun _ h ↦ slots_of_reachable h) ?_
    (fun _ _ _ hj hi _ hs ↦ Untouched.step hj hi (step_of_next hs)) hs
  rintro _ rfl -
  exact ⟨rfl, rfl, rfl, rfl, nofun⟩

end Universe

end Birdtest.Jobs.LeaveGen.Selection
