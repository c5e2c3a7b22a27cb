import Birdtest.Jobs.LeaveGen.Closing
import Mathlib.Data.List.Pairwise

namespace Birdtest.Jobs.LeaveGen.Selection

open Birdtest.Base.Runs Birdtest.Models.Job

variable {R : Type} {s s' : State R}

def Out (s : State R) (t : ℕ) : Prop :=
  taskState s t = some .claimed ∨ taskState s t = some .available ∨
    taskState s t = some .completed ∧ ∃ row ∈ s.staging, row.task = t

/-- No rack is forced by two tasks that are out. -/
def ForcedOnce (s : State R) : Prop :=
  ∀ t u, t ≠ u → Out s t → Out s u → ∀ r ∈ forcedRacks s t, r ∉ forcedRacks s u

structure Quieter (s s' : State R) : Prop where
  out : ∀ t, Out s' t → Out s t
  forcedRacks : ∀ t, forcedRacks s' t = forcedRacks s t
  occurrences : ∀ r, s.occurrences r ≤ s'.occurrences r

theorem Quieter.forcedOnce (h : Quieter s s') (hs : ForcedOnce s) : ForcedOnce s' := by
  intro t u htu ht hu r
  rw [h.forcedRacks, h.forcedRacks]
  exact hs t u htu (h.out t ht) (h.out u hu) r

theorem quieter_of_rows (ht : s'.tasks = s.tasks) (hs : s'.staging = s.staging)
    (ho : s'.occurrences = s.occurrences) : Quieter s s' where
  out t := by simp only [Out, taskState, ht, hs]; exact id
  forcedRacks t := by simp only [Selection.forcedRacks, ht]
  occurrences r := (congrFun ho r).ge

theorem forcedRacks_modify {t : ℕ} {st : TaskState}
    (ht : s'.tasks = s.tasks.modify t ({ · with state := st })) (u : ℕ) :
    forcedRacks s' u = forcedRacks s u := by
  simp only [forcedRacks, ht, map_forcedRacks_modify]

theorem quieter_of_open {c t : ℕ} {st : TaskState} (h : Slots s)
    (hc : s.claims[c]? = some (openClaim t))
    (htasks : s'.tasks = s.tasks.modify t ({ · with state := st }))
    (hstaging : ∀ row ∈ s'.staging, row ∈ s.staging ∨ row.task = t)
    (ho : s'.occurrences = s.occurrences) : Quieter s s' where
  out u hu := by
    by_cases htu : t = u
    · exact .inl (htu ▸ h.taskState_of_open hc)
    · simp only [Out, taskState, htasks, map_state_modify, if_neg htu] at hu ⊢
      refine hu.imp_right (Or.imp_right (And.imp_right ?_))
      rintro ⟨row, hrow, hru⟩
      exact ⟨row, (hstaging row hrow).resolve_right fun h ↦ htu (h.symm.trans hru), hru⟩
  forcedRacks := forcedRacks_modify htasks
  occurrences r := (congrFun ho r).ge

theorem quieter_reissue {t : ℕ} (ht : taskState s t = some .available) :
    Quieter s (issueClaim s s.tasks t) where
  out u hu := by
    by_cases htu : t = u
    · exact .inr (.inl (htu ▸ ht))
    · simpa only [Out, taskState, issueClaim, map_state_modify, if_neg htu] using hu
  forcedRacks := forcedRacks_modify rfl
  occurrences r := le_rfl

theorem out_lt_length {t : ℕ} (h : Out s t) : t < s.tasks.length := by
  by_contra hlt
  simp [Out, taskState, List.getElem?_eq_none (not_lt.1 hlt)] at h

theorem dispatched_forcedRacks (racks : List R) (t : ℕ) :
    forcedRacks (issueClaim s (s.tasks ++ [⟨racks, .available⟩]) s.tasks.length) t =
      if t = s.tasks.length then racks else forcedRacks s t := by
  simp only [forcedRacks, issueClaim, map_forcedRacks_modify]
  split
  · next h => simp [h]
  · grind

theorem dispatched_out (racks : List R) {t : ℕ} (ht : t ≠ s.tasks.length) :
    Out (issueClaim s (s.tasks ++ [⟨racks, .available⟩]) s.tasks.length) t ↔ Out s t := by
  have htask : (s.tasks ++ [⟨racks, .available⟩])[t]? = s.tasks[t]? :=
    (getElem?_append_available s racks).2 t ht
  simp only [Out, taskState, issueClaim, map_state_modify, if_neg ht.symm, htask]

variable [LinearOrder R] {g : Generation R} {a : Action R}

theorem quieter_mergeCommit (ids : List ℕ) : Quieter s (mergeCommit g s ids) where
  out t := by
    refine Or.imp_right (Or.imp_right (And.imp_right ?_))
    rintro ⟨row, hrow, ht⟩
    exact ⟨row, List.mem_of_mem_filter hrow, ht⟩
  forcedRacks t := rfl
  occurrences := (settles_mergeCommit ids).occurrences

def Behind (g : Generation R) (s : State R) (c : R) : Prop :=
  ∀ t, Out s t → ∀ r ∈ forcedRacks s t, r ≤ c ∨ g.target ≤ s.occurrences r

def Fresh (s : State R) (racks : List R) : Prop :=
  ∀ r ∈ racks, ∀ t, Out s t → r ∉ forcedRacks s t

theorem Quieter.behind (h : Quieter s s') {c : R} (hs : Behind g s c) : Behind g s' c := by
  intro t ht r hr
  rw [h.forcedRacks] at hr
  exact (hs t (h.out t ht) r hr).imp_right fun hle ↦ hle.trans (h.occurrences r)

omit [LinearOrder R] in
theorem Quieter.fresh (h : Quieter s s') {racks : List R} (hs : Fresh s racks) :
    Fresh s' racks := by
  intro r hr t ht
  rw [h.forcedRacks]
  exact hs r hr t (h.out t ht)

omit [LinearOrder R] in
theorem ForcedOnce.dispatched (h : ForcedOnce s) {racks : List R} (hf : Fresh s racks) :
    ForcedOnce (issueClaim s (s.tasks ++ [⟨racks, .available⟩]) s.tasks.length) := by
  intro t u htu ht hu r hr hr'
  rw [dispatched_forcedRacks] at hr hr'
  split at hr
  · next hn =>
    have hun : u ≠ s.tasks.length := fun h ↦ htu (hn.trans h.symm)
    rw [if_neg hun] at hr'
    exact hf r hr u ((dispatched_out racks hun).1 hu) hr'
  · next hn =>
    split at hr'
    · exact hf r hr' t ((dispatched_out racks hn).1 ht) hr
    · next hun =>
      exact h t u htu ((dispatched_out racks hn).1 ht) ((dispatched_out racks hun).1 hu) r hr hr'

omit [LinearOrder R] in
/-- A selection that takes a rack of a task handed back forces it a second time. -/
theorem not_forcedOnce_dispatched {racks : List R} {t : ℕ} {r : R}
    (ht : taskState s t = some .available) (hrt : r ∈ forcedRacks s t) (hr : r ∈ racks) :
    ¬ ForcedOnce (issueClaim s (s.tasks ++ [⟨racks, .available⟩]) s.tasks.length) := by
  have hne : t ≠ s.tasks.length := (out_lt_length (.inr (.inl ht))).ne
  intro h
  refine h t s.tasks.length hne ((dispatched_out racks hne).2 (.inr (.inl ht))) (.inl ?_) r ?_ ?_
  · simp [taskState, issueClaim]
  · rwa [dispatched_forcedRacks, if_neg hne]
  · rwa [dispatched_forcedRacks, if_pos rfl]

theorem Behind.dispatched {c : R} (h : Behind g s c) {racks : List R} (hc : ∀ r ∈ racks, r ≤ c) :
    Behind g (issueClaim s (s.tasks ++ [⟨racks, .available⟩]) s.tasks.length) c := by
  intro t ht r hr
  rw [dispatched_forcedRacks] at hr
  split at hr
  · exact .inl (hc r hr)
  · next hn => exact h t ((dispatched_out racks hn).1 ht) r hr

section Selections

theorem mem_racksAfter {c : Option R} {r : R} (h : r ∈ (racksAfter g s c).1) :
    after c r ∧ s.occurrences r < g.target := by
  have := List.mem_of_mem_take (List.mem_of_mem_take h)
  simp only [List.mem_filter, decide_eq_true_eq] at this
  exact this.2

theorem racksAfter_le_getLast {a : Option R} {c : R}
    (h : (racksAfter g s a).1.getLast? = some c) : ∀ r ∈ (racksAfter g s a).1, r ≤ c := by
  have hsorted : (racksAfter g s a).1.Pairwise (· ≤ ·) :=
    (sorted_rows.filter _).take.take.imp le_of_lt
  intro r hr
  rw [List.getLast?_eq_some_getLast (List.ne_nil_of_mem hr), Option.some.injEq] at h
  exact h ▸ hsorted.rel_getLast hr

/-- Mid-lap, what lies ahead of the cursor and below target is forced by no task that is out. -/
theorem fresh_of_behind {c : R} (h : Behind g s c) : Fresh s (racksAfter g s (some c)).1 := by
  intro r hr t ht hrt
  obtain ⟨hcr, hlt⟩ := mem_racksAfter hr
  rcases h t ht r hrt with hle | hle
  · exact absurd (of_decide_eq_true hcr) (not_lt.2 hle)
  · omega

def HandedBackAtTarget (g : Generation R) (s : State R) : Prop :=
  ∀ task ∈ s.tasks, task.state = .available →
    ∀ r ∈ task.forcedRacks, g.target ≤ s.occurrences r

instance : Decidable (HandedBackAtTarget g s) :=
  inferInstanceAs (Decidable (∀ task ∈ s.tasks, task.state = .available →
    ∀ r ∈ task.forcedRacks, g.target ≤ s.occurrences r))

theorem HandedBackAtTarget.le {t : ℕ} {r : R} (h : HandedBackAtTarget g s)
    (ht : taskState s t = some .available) (hr : r ∈ forcedRacks s t) :
    g.target ≤ s.occurrences r := by
  obtain ⟨task, htask, hstate⟩ := Option.map_eq_some_iff.1 ht
  simp only [forcedRacks, htask, Option.map_some, Option.getD_some] at hr
  exact h task (List.mem_of_getElem? htask) hstate r hr

theorem HandedBackAtTarget.le_of_quiet {t : ℕ} {r : R} (h : HandedBackAtTarget g s)
    (hslots : Slots s) (hq : Quiet s) (ht : Out s t) (hr : r ∈ forcedRacks s t) :
    g.target ≤ s.occurrences r := by
  rcases ht with ht | ht | ⟨-, row, hrow, -⟩
  · obtain ⟨c, hc⟩ := hslots.open_of_claimed ht
    exact absurd hq.1 (claimsInFlight_pos hc).ne'
  · exact h.le ht hr
  · simp [hq.2] at hrow

omit [LinearOrder R] in
theorem mem_outNow {t : ℕ} {r : R} (hslots : Slots s) (ht : Out s t)
    (hav : taskState s t ≠ some .available) (hr : r ∈ forcedRacks s t) : r ∈ outNow s := by
  refine List.mem_flatMap.2 ⟨t, List.mem_filter.2 ⟨List.mem_range.2 (out_lt_length ht), ?_⟩, hr⟩
  rcases ht with ht | ht | ⟨-, row, hrow, rfl⟩
  · obtain ⟨c, hc⟩ := hslots.open_of_claimed ht
    have := List.mem_of_getElem? hc
    simp only [isOut, Bool.or_eq_true, List.any_eq_true]
    exact .inl ⟨openClaim t, this, by simp [openClaim]⟩
  · exact absurd ht hav
  · simp only [isOut, Bool.or_eq_true, List.any_eq_true]
    exact .inr ⟨row, hrow, by simp⟩

/-- In the tail, what is selected is held out by nothing claimed or staged. -/
theorem fresh_of_isFurthest {racks : List R} (hslots : Slots s) (h : HandedBackAtTarget g s)
    (hr : IsFurthest g s racks) : Fresh s racks := by
  intro r hmem t ht hrt
  have hsel := hr.2.1 r hmem
  simp only [selectable, List.mem_filter, decide_eq_true_eq] at hsel
  obtain ⟨-, hlt, hout⟩ := hsel
  by_cases hav : taskState s t = some .available
  · exact absurd (h.le hav hrt) (not_le.2 hlt)
  · exact hout (mem_outNow hslots ht hav hrt)

end Selections

section Runs

def ViewAt (view : Option (Option R)) : Stage R → Prop
  | .continueLap c => view = some (some c)
  | .furthestBelowTarget => view = some none
  | .claimsInFlight | .anythingStaged | .belowTarget | .sweep => view = none
  | .dispatch racks => ∀ c, view = some (some c) → ∀ r ∈ racks, r ≤ c
  | _ => True

structure Apart (g : Generation R) (s : State R) : Prop where
  once : ForcedOnce s
  cursor {c : R} : s.cursor = some (some c) → Behind g s c
  view {c : R} : s.view = some (some c) → Behind g s c
  viewAt : ViewAt s.view s.stage
  dispatch {racks : List R} : s.stage = .dispatch racks → Fresh s racks

/-- A claim that starts a lap, or selects in the tail, does so with no rack below target
forced by a task handed back since it looked for one. -/
def SelectsClear (g : Generation R) (s : State R) (a : Action R) : Prop :=
  match s.stage, a with
  | .sweep, .statement | .furthestBelowTarget, .furthestBelowTarget _ => HandedBackAtTarget g s
  | _, _ => True

theorem Apart.of_quieter (h : Apart g s) (hq : Quieter s s') (hc : s'.cursor = s.cursor)
    (hv : s'.view = s.view) (hs : s'.stage = s.stage) : Apart g s' where
  once := hq.forcedOnce h.once
  cursor hc' := hq.behind (h.cursor (hc ▸ hc'))
  view hv' := hq.behind (h.view (hv ▸ hv'))
  viewAt := hv ▸ hs ▸ h.viewAt
  dispatch hs' := hq.fresh (h.dispatch (hs ▸ hs'))

theorem Apart.statement {stage : Stage R} {view : Option (Option R)} (h : Apart g s)
    (hslots : Slots s) (hl : Learned g s s.stage) (hok : SelectsClear g s .statement)
    (hs : Selection.statement g s = some (stage, view)) : Apart g { s with stage, view } := by
  have hview := h.viewAt
  have same {stage' : Stage R} (hv : ViewAt s.view stage')
      (hd : ∀ racks, stage' ≠ .dispatch racks) : Apart g { s with stage := stage' } :=
    ⟨h.once, h.cursor, h.view, hv, fun h ↦ absurd h (hd _)⟩
  unfold Selection.statement at hs
  cases hst : s.stage <;>
    simp only [hst, reduceCtorEq, Option.some.injEq, Prod.mk.injEq] at hview hs
  case earlierGeneration | transitionInProgress | universeExists | nextStep | tailClaimsInFlight
      | tailAnythingStaged | anyRackBelowTarget | claimTransition =>
    obtain ⟨rfl, rfl⟩ := hs
    split <;> exact same trivial nofun
  case claimsInFlight | anythingStaged =>
    obtain ⟨rfl, rfl⟩ := hs
    split
    · exact same trivial nofun
    · exact same hview nofun
  case selectionCursor =>
    split at hs <;> obtain ⟨rfl, rfl⟩ := Prod.mk.inj (Option.some.inj hs)
    all_goals exact same ‹_› nofun
  case belowTarget =>
    split at hs <;> obtain ⟨rfl, rfl⟩ := Prod.mk.inj (Option.some.inj hs)
    · exact ⟨h.once, h.cursor, nofun, rfl, nofun⟩
    · exact same hview nofun
  case sweep =>
    rw [hst] at hl
    have hclear : HandedBackAtTarget g s := by simpa [SelectsClear, hst] using hok
    have hbehind (c : R) : Behind g s c :=
      fun t ht r hr ↦ .inr (hclear.le_of_quiet hslots hl ht hr)
    split at hs <;> obtain ⟨rfl, rfl⟩ := Prod.mk.inj (Option.some.inj hs)
    · exact same trivial nofun
    · refine ⟨h.once, h.cursor, fun _ ↦ hbehind _, fun c hc ↦ ?_, fun hd r hr t ht hrt ↦ ?_⟩
      · split at hc
        · exact racksAfter_le_getLast (Option.some.inj hc)
        · cases hc.symm.trans hview
      · cases hd
        exact absurd (hclear.le_of_quiet hslots hl ht hrt) (not_le.2 (mem_racksAfter hr).2)
  case continueLap c =>
    have hbehind := h.view hview
    split at hs <;> obtain ⟨rfl, rfl⟩ := Prod.mk.inj (Option.some.inj hs)
    · refine ⟨h.once, h.cursor, fun {c'} hc ↦ ?_, fun c' hc ↦ ?_, fun hd ↦ ?_⟩
      · have hmem := List.mem_of_getLast? (Option.some.inj hc)
        have hlt : c < c' := of_decide_eq_true (mem_racksAfter hmem).1
        exact fun t ht r hr ↦ (hbehind t ht r hr).imp_left fun hle ↦ hle.trans hlt.le
      · exact racksAfter_le_getLast (Option.some.inj hc)
      · cases hd
        exact fresh_of_behind hbehind
    · refine ⟨h.once, h.cursor, nofun, ?_, fun hd ↦ ?_⟩
      · simp only
        split
        · rfl
        · exact nofun
      · simp only at hd
        split at hd <;> cases hd
        exact fresh_of_behind hbehind

theorem Apart.step (h : Apart g s) (hslots : Slots s) (hl : Learned g s s.stage)
    (hok : SelectsClear g s a) (hs : Step g s a s') : Apart g s' := by
  cases hs with
  | lock =>
    refine ⟨h.once, h.cursor, h.cursor, ?_, fun hd ↦ ?_⟩
    · simp only
      split <;> trivial
    · simp only at hd
      split at hd <;> cases hd
  | closed => exact ⟨h.once, nofun, h.view, h.viewAt, h.dispatch⟩
  | statement hst => exact h.statement hslots hl hok hst
  | available | noneAvailable | rollback => exact ⟨h.once, h.cursor, h.view, trivial, nofun⟩
  | transition | answered => exact ⟨h.once, h.view, h.view, trivial, nofun⟩
  | @furthest racks hst hr =>
    have hview := h.viewAt
    rw [hst] at hview
    refine ⟨h.once, h.cursor, h.view, ?_, fun hd ↦ ?_⟩
    · simp only
      split
      · trivial
      · intro c hc
        cases hview.symm.trans hc
    · simp only at hd
      split at hd <;> cases hd
      have hclear : HandedBackAtTarget g s := by simpa [SelectsClear, hst] using hok
      have hfresh := fresh_of_isFurthest hslots hclear hr
      exact hfresh
  | reissued hst =>
    have hq := quieter_reissue (hslots.reissue hst)
    exact ⟨hq.forcedOnce h.once, fun hc ↦ hq.behind (h.view hc), fun hc ↦ hq.behind (h.view hc),
      trivial, nofun⟩
  | @dispatched racks hst =>
    have hview := h.viewAt
    rw [hst] at hview
    have hbehind {c : R} (hc : s.view = some (some c)) :=
      (h.view hc).dispatched (hview c hc)
    exact ⟨h.once.dispatched (h.dispatch hst), hbehind, hbehind, trivial, nofun⟩
  | submitted hr =>
    obtain ⟨t, hc, rfl⟩ := submit_cases hr
    refine h.of_quieter (quieter_of_open hslots hc rfl (fun row hrow ↦ ?_) rfl) rfl rfl rfl
    simpa [or_comm, eq_comm] using (List.mem_append.1 hrow).imp_right (by simp +contextual)
  | released _ _ hr =>
    obtain ⟨t, hc, rfl⟩ := releaseClaim_cases hr
    exact h.of_quieter (quieter_of_open hslots hc rfl (fun _ ↦ .inl) rfl) rfl rfl rfl
  | merged => exact h.of_quieter (quieter_mergeCommit _) rfl rfl rfl
  | opened | seeded | merging | transitionLapsed =>
    exact h.of_quieter (quieter_of_rows rfl rfl rfl) rfl rfl rfl

theorem apart_of_reachableBy (h : (machine g).ReachableBy (SelectsClear g) s) : Apart g s := by
  refine h.invariant_of (J := fun s ↦ Slots s ∧ Learned g s s.stage)
    (fun _ h ↦ ⟨slots_of_reachable h, learned_of_reachable h⟩) ?_
    fun _ _ _ hj hi hok hs ↦ hi.step hj.1 hj.2 hok (step_of_next hs)
  rintro _ rfl
  exact ⟨fun t u htu ht ↦ absurd (out_lt_length ht) (by simp [unopened]), nofun, nofun, trivial,
    nofun⟩

end Runs

/-- No rack is forced twice at once, in any run whose selections are all made with no rack
below target forced by a task standing available. -/
theorem forcedOnce_of_reachableBy (h : (machine g).ReachableBy (SelectsClear g) s) :
    ForcedOnce s :=
  (apart_of_reachableBy h).once

section TwoRacks

instance (s : State R) (a : Action R) : Decidable (SelectsClear g s a) := by
  unfold SelectsClear
  split <;> infer_instance

/-- The first task's result is staged and the second is out with a claim. -/
theorem exists_forcedOnce : ∃ s, (machine twoRacks).ReachableBy (SelectsClear twoRacks) s ∧
    s.staging.length = 1 ∧ claimsInFlight s = 1 ∧ ForcedOnce s := by
  have hstart : (machine twoRacks).ReachableBy (SelectsClear twoRacks) unopened := .start rfl
  obtain ⟨s, hs, hp⟩ := hstart.follow_any
    ([.openGeneration, .seedUniverse] ++ firstClaim ++ secondClaim ++ [.submit 0 [(0, 1)]])
    (fun s ↦ s.staging.length = 1 ∧ claimsInFlight s = 1) (by decide)
  obtain ⟨hstaged, hflight⟩ := of_decide_eq_true hp
  exact ⟨s, hs, hstaged, hflight, forcedOnce_of_reachableBy hs⟩

/-- The first task is declined between the second claim's look for an available task and
its selection, which then holds nothing of it out. -/
theorem not_forcedOnce_of_reachable :
    ¬ ∀ s, (machine twoRacks).Reachable s → ForcedOnce s := by
  have hstart : (machine twoRacks).Reachable unopened := .start rfl
  obtain ⟨s, hs, hp⟩ := hstart.follow_any
    ([.openGeneration, .seedUniverse] ++ firstClaim ++ select ++
      [.decline 0, .furthestBelowTarget [0], .commit])
    (fun s ↦ taskState s 0 = some .available ∧ taskState s 1 = some .claimed ∧
      0 ∈ forcedRacks s 0 ∧ 0 ∈ forcedRacks s 1) (by decide)
  obtain ⟨h0, h1, hr0, hr1⟩ := of_decide_eq_true hp
  exact fun h ↦ h s hs 0 1 (by decide) (.inr (.inl h0)) (.inl h1) 0 hr0 hr1

end TwoRacks

end Birdtest.Jobs.LeaveGen.Selection
