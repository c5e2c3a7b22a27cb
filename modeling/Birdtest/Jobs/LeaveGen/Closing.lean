import Birdtest.Base.Ledger
import Birdtest.Jobs.LeaveGen.SelectionRows
import Mathlib.Algebra.BigOperators.Group.List.Basic
import Mathlib.Algebra.BigOperators.Pi

namespace Birdtest.Jobs.LeaveGen.Selection

open Birdtest.Base Birdtest.Base.Runs Birdtest.Models.Job

variable {R : Type} {s s' : State R}

/-- No claim of the generation is in flight and nothing of it is staged. -/
def Quiet (s : State R) : Prop := claimsInFlight s = 0 ∧ s.staging = []

/-- Changes that other transactions can make once no claim is in flight. -/
structure Settles (s s' : State R) : Prop where
  opening : s'.opening = .seeded ↔ s.opening = .seeded
  claimsInFlight : claimsInFlight s = 0 → claimsInFlight s' = 0
  staging : Quiet s → s'.staging = []
  occurrences : ∀ r, s.occurrences r ≤ s'.occurrences r

theorem Settles.quiet (h : Settles s s') (hs : Quiet s) : Quiet s' :=
  ⟨h.claimsInFlight hs.1, h.staging hs⟩

theorem not_pos_claimsInFlight (h : ¬ 0 < claimsInFlight s) : claimsInFlight s = 0 :=
  Nat.eq_zero_of_not_pos h

theorem claimsInFlight_pos {c t : ℕ} (h : s.claims[c]? = some ⟨t, .claimed⟩) :
    0 < claimsInFlight s :=
  List.countP_pos_iff.2 ⟨⟨t, .claimed⟩, List.mem_of_getElem? h, by simp⟩

theorem staging_of_not_anythingStaged (h : ¬ anythingStaged s = true) : s.staging = [] := by
  simpa [anythingStaged] using h

theorem settles_of_open {c t : ℕ} (h : s.claims[c]? = some ⟨t, .claimed⟩)
    (hopening : s'.opening = s.opening) (ho : s'.occurrences = s.occurrences) : Settles s s' where
  opening := by rw [hopening]
  claimsInFlight h₀ := absurd h₀ (claimsInFlight_pos h).ne'
  staging h₀ := absurd h₀.1 (claimsInFlight_pos h).ne'
  occurrences r := (congrFun ho r).ge

variable [LinearOrder R] {g : Generation R} {a : Action R}

section Totals

/-- A result's occurrences of the universe's racks, which are all that a merge keeps. -/
def occurrencesOf (g : Generation R) (racks : List (R × ℕ)) : {r // r ∈ g.racks} → ℕ :=
  fun r ↦ reported racks r

/-- The totals, the staged results and the accepted ones are those of a ledger. -/
structure Represents (g : Generation R) (l : Ledger ({r // r ∈ g.racks} → ℕ)) (s : State R) :
    Prop where
  posted : ∀ r, l.posted r = s.occurrences r
  pending : l.pending = s.staging.map fun row ↦ occurrencesOf g row.racks
  accepted : l.accepted = s.accepted.map (occurrencesOf g)

theorem Represents.congr {l : Ledger ({r // r ∈ g.racks} → ℕ)} (h : Represents g l s)
    (ho : s'.occurrences = s.occurrences) (hs : s'.staging = s.staging)
    (ha : s'.accepted = s.accepted) : Represents g l s' :=
  ⟨fun r ↦ ho ▸ h.posted r, hs ▸ h.pending, ha ▸ h.accepted⟩

theorem Represents.submitted {l : Ledger ({r // r ∈ g.racks} → ℕ)} {c : ℕ}
    {racks : List (R × ℕ)} (h : Represents g l s) (hs : submit s c racks = some s') :
    Represents g (l.accept (occurrencesOf g racks)) s' := by
  obtain ⟨t, -, rfl⟩ := submit_cases hs
  refine ⟨h.posted, ?_, ?_⟩
  · simp only [Ledger.accept, h.pending, List.map_append, List.map_cons, List.map_nil,
      Multiset.cons_coe]
    exact Multiset.coe_eq_coe.2 (List.perm_append_singleton _ _).symm
  · simp only [Ledger.accept, h.accepted, List.map_append, List.map_cons, List.map_nil,
      Multiset.cons_coe]
    exact Multiset.coe_eq_coe.2 (List.perm_append_singleton _ _).symm

theorem Represents.merged {l : Ledger ({r // r ∈ g.racks} → ℕ)} (h : Represents g l s)
    (hu : s.opening ≠ .seeded → Untouched s) (ids : List ℕ) :
    ∃ l', Represents g l' (mergeCommit g s ids) := by
  let batch : List ({r // r ∈ g.racks} → ℕ) :=
    (s.staging.filter (·.id ∈ ids)).map fun row ↦ occurrencesOf g row.racks
  let rest : List ({r // r ∈ g.racks} → ℕ) :=
    (s.staging.filter (·.id ∉ ids)).map fun row ↦ occurrencesOf g row.racks
  have hsplit : l.pending = Multiset.ofList batch + Multiset.ofList rest := by
    rw [h.pending, Multiset.coe_add, ← List.map_append]
    refine Multiset.coe_eq_coe.2 (List.Perm.map _ ?_)
    have := (List.filter_append_perm (fun row : Staged R ↦ decide (row.id ∈ ids)) s.staging).symm
    simpa using this
  refine ⟨l.post batch rest hsplit, fun r ↦ ?_, rfl, h.accepted⟩
  have hsum : (batch.sum) r = folded s ids r := by
    simp [batch, folded, Pi.list_sum_apply, occurrencesOf, Function.comp_def]
  by_cases hseeded : s.opening = .seeded
  · simp [Ledger.post, mergeCommit, rows, hseeded, h.posted, hsum, r.2]
  · simp [Ledger.post, mergeCommit, rows, hseeded, h.posted, hsum, folded, (hu hseeded).staging]

theorem represents_step {l : Ledger ({r // r ∈ g.racks} → ℕ)} (h : Represents g l s)
    (hu : s.opening ≠ .seeded → Untouched s) (hs : Step g s a s') : ∃ l', Represents g l' s' := by
  cases hs with
  | submitted hs => exact ⟨_, h.submitted hs⟩
  | merged => exact h.merged hu _
  | released _ ht hs =>
    obtain ⟨t, -, rfl⟩ := releaseClaim_cases hs
    exact ⟨l, h.congr rfl rfl rfl⟩
  | _ => exact ⟨l, h.congr rfl rfl rfl⟩

theorem exists_represents (h : (machine g).Reachable s) : ∃ l, Represents g l s :=
  h.invariant_of (I := fun s ↦ ∃ l, Represents g l s) (fun _ h ↦ untouched_of_reachable h)
    (fun _ h ↦ h ▸ ⟨.empty, fun _ ↦ rfl, rfl, rfl⟩)
    fun _ _ _ hj ⟨_, hl⟩ _ hs ↦ represents_step hl hj (step_of_next hs)

/-- Once nothing is staged, the totals are those of everything accepted. -/
theorem occurrences_of_staging_eq_nil (h : (machine g).Reachable s) (hs : s.staging = []) {r : R}
    (hr : r ∈ g.racks) : s.occurrences r = (s.accepted.map (reported · r)).sum := by
  obtain ⟨l, hl⟩ := exists_represents h
  have hposted := l.posted_of_pending_eq_zero (by simp [hl.pending, hs])
  calc s.occurrences r = l.posted ⟨r, hr⟩ := (hl.posted ⟨r, hr⟩).symm
    _ = (s.accepted.map (reported · r)).sum := by
      simp [hposted, hl.accepted, Pi.list_sum_apply, occurrencesOf, Function.comp_def]

end Totals

section Decision

def Complete (g : Generation R) (s : State R) : Prop :=
  Quiet s ∧ ∀ r ∈ rows g s, g.target ≤ s.occurrences r

/-- What the reads a claim has made up to `stage` tell of the rows as they are now. -/
def Learned (g : Generation R) (s : State R) : Stage R → Prop
  | .anythingStaged | .tailAnythingStaged => claimsInFlight s = 0
  | .belowTarget | .sweep | .anyRackBelowTarget => Quiet s
  | .claimTransition | .answer .transition => Complete g s
  | _ => True

theorem Settles.complete (h : Settles s s') (hs : Complete g s) : Complete g s' :=
  ⟨h.quiet hs.1, fun r hr ↦ (hs.2 r (rows_congr h.opening ▸ hr)).trans (h.occurrences r)⟩

theorem Settles.learned (h : Settles s s') {stage : Stage R} (hs : Learned g s stage) :
    Learned g s' stage := by
  unfold Learned at hs ⊢
  split at hs
  · exact h.claimsInFlight hs
  · exact h.claimsInFlight hs
  · exact h.quiet hs
  · exact h.quiet hs
  · exact h.quiet hs
  · exact h.complete hs
  · exact h.complete hs
  · trivial

theorem Settles.learned_stage (h : Settles s s') (hs : Learned g s s.stage)
    (hstage : s'.stage = s.stage) : Learned g s' s'.stage :=
  hstage ▸ h.learned hs

theorem target_le_of_not_anyRackBelowTarget (h : ¬ anyRackBelowTarget g s = true) :
    ∀ r ∈ rows g s, g.target ≤ s.occurrences r := by
  simpa [anyRackBelowTarget] using h

theorem target_le_of_racksAfter_isEmpty (h : (racksAfter g s none).1.isEmpty = true) :
    ∀ r ∈ rows g s, g.target ≤ s.occurrences r := by
  have hpos := g.racksPerTask_pos
  intro r hr
  by_contra hlt
  have hmem : r ∈ (rows g s).filter fun r ↦ after none r ∧ s.occurrences r < g.target := by
    simpa [hr, after] using hlt
  simp only [racksAfter, List.isEmpty_iff, List.take_eq_nil_iff] at h
  rcases h with h | h | h
  · omega
  · omega
  · exact List.ne_nil_of_mem hmem h

theorem Learned.statement {stage : Stage R} {view : Option (Option R)}
    (hl : Learned g s s.stage) (h : statement g s = some (stage, view)) : Learned g s stage := by
  unfold Selection.statement at h
  cases hs : s.stage <;> simp only [hs, reduceCtorEq, Option.some.injEq, Prod.mk.injEq] at hl h
  case claimsInFlight | tailClaimsInFlight =>
    obtain ⟨rfl, -⟩ := h
    split
    · trivial
    · next h => exact not_pos_claimsInFlight h
  case anythingStaged | tailAnythingStaged =>
    obtain ⟨rfl, -⟩ := h
    split
    · trivial
    · next h => exact ⟨hl, staging_of_not_anythingStaged h⟩
  case belowTarget =>
    split at h <;> obtain ⟨rfl, -⟩ := Prod.mk.inj (Option.some.inj h)
    · trivial
    · exact hl
  case sweep =>
    split at h
    · next he =>
      obtain ⟨rfl, -⟩ := Prod.mk.inj (Option.some.inj h)
      exact ⟨hl, target_le_of_racksAfter_isEmpty he⟩
    · obtain ⟨rfl, -⟩ := Prod.mk.inj (Option.some.inj h)
      trivial
  case anyRackBelowTarget =>
    obtain ⟨rfl, -⟩ := h
    split
    · trivial
    · next h => exact ⟨hl, target_le_of_not_anyRackBelowTarget h⟩
  case claimTransition =>
    obtain ⟨rfl, -⟩ := h
    split
    · trivial
    · exact hl
  case transitionInProgress | universeExists | earlierGeneration | nextStep =>
    obtain ⟨rfl, -⟩ := h
    split <;> trivial
  case selectionCursor =>
    split at h <;> obtain ⟨rfl, -⟩ := Prod.mk.inj (Option.some.inj h) <;> trivial
  case continueLap =>
    split at h <;> obtain ⟨rfl, -⟩ := Prod.mk.inj (Option.some.inj h)
    · trivial
    · split <;> trivial

theorem settles_mergeCommit (ids : List ℕ) : Settles s (mergeCommit g s ids) where
  opening := Iff.rfl
  claimsInFlight h := h
  staging h := by simp [mergeCommit, h.2]
  occurrences r := by
    simp only [mergeCommit]
    split <;> omega

theorem Learned.step (h : Learned g s s.stage) (hs : Step g s a s') : Learned g s' s'.stage := by
  cases hs with
  | statement hst => exact h.statement hst
  | opened hopening =>
    have hsettles : Settles s { s with opening := .opened } :=
      ⟨by simp [hopening], id, fun h ↦ h.2, fun _ ↦ le_rfl⟩
    exact hsettles.learned h
  | seeded hst =>
    simp only [hst]
    trivial
  | lock =>
    simp only
    split <;> trivial
  | furthest =>
    simp only
    split <;> trivial
  | available | noneAvailable | reissued | dispatched | transition | answered | rollback => trivial
  | submitted hs =>
    obtain ⟨t, hc, rfl⟩ := submit_cases hs
    exact Settles.learned_stage (settles_of_open hc rfl rfl) h rfl
  | released _ _ hs =>
    obtain ⟨t, hc, rfl⟩ := releaseClaim_cases hs
    exact Settles.learned_stage (settles_of_open hc rfl rfl) h rfl
  | merged => exact (settles_mergeCommit _).learned h
  | merging | closed | transitionLapsed =>
    exact (Settles.mk Iff.rfl id (fun h ↦ h.2) fun _ ↦ le_rfl).learned h

theorem learned_of_reachable (h : (machine g).Reachable s) : Learned g s s.stage :=
  h.invariant (I := fun s ↦ Learned g s s.stage) (fun _ h ↦ h ▸ trivial)
    fun _ _ _ hi _ hs ↦ hi.step (step_of_next hs)

/-- No claim has its two reads of the current generation on the two sides of a close. -/
def ReadsAlike (s : State R) (a : Action R) : Prop :=
  s.stage = .earlierGeneration → a ≠ .openGeneration

instance : Decidable (ReadsAlike s a) := inferInstanceAs (Decidable (_ → _))

def Stage.isPrepared : Stage R → Bool
  | .idle | .earlierGeneration | .transitionInProgress | .universeExists => false
  | .answer a => a = .transition
  | _ => true

/-- While a transition of the generation is running nothing is handed out. -/
structure Decided (g : Generation R) (s : State R) : Prop where
  earlier : s.stage = .earlierGeneration → s.opening = .unopened
  prepared : s.stage.isPrepared = true → s.opening = .seeded
  started : s.transition = some .started → Complete g s ∧ s.opening = .seeded ∧
    (s.stage = .idle ∨ s.stage = .transitionInProgress ∨ s.stage = .answer .noWork)

theorem Decided.of_settles (h : Decided g s) (hs : Settles s s') (hopening : s'.opening = s.opening)
    (hstage : s'.stage = s.stage) (htr : s'.transition = s.transition) : Decided g s' := by
  refine ⟨?_, ?_, fun ht ↦ ?_⟩
  · rw [hstage, hopening]
    exact h.earlier
  · rw [hstage, hopening]
    exact h.prepared
  · rw [hstage, hopening]
    exact (h.started (htr ▸ ht)).imp_left hs.complete

theorem Decided.goTo (h : Decided g s) {stage : Stage R} {view : Option (Option R)}
    (hstage : stage ≠ .earlierGeneration) (hprepared : s.stage.isPrepared = true)
    (hstarted : s.stage ≠ .answer .noWork) : Decided g { s with stage, view } := by
  refine ⟨fun hst ↦ absurd hst hstage, fun _ ↦ h.prepared hprepared, fun ht ↦ ?_⟩
  rcases (h.started ht).2.2 with hst | hst | hst
  · simp [hst, Stage.isPrepared] at hprepared
  · simp [hst, Stage.isPrepared] at hprepared
  · exact absurd hst hstarted

/-- A claim gets to the stages that hand something out by finding the universe, and to its second
read by finding the generation still unopened. -/
theorem prepared_of_statement {stage : Stage R} {view : Option (Option R)} (h : Decided g s)
    (hs : statement g s = some (stage, view)) (hp : stage.isPrepared = true) :
    s.opening = .seeded := by
  by_cases hprepared : s.stage.isPrepared = true
  · exact h.prepared hprepared
  unfold Selection.statement at hs
  cases hst : s.stage <;>
    simp only [hst, Stage.isPrepared, reduceCtorEq, Option.some.injEq, Prod.mk.injEq,
      not_true_eq_false] at hs hprepared
  case earlierGeneration =>
    obtain ⟨rfl, -⟩ := hs
    rw [if_pos (h.earlier hst)] at hp
    simp [Stage.isPrepared] at hp
  case transitionInProgress =>
    obtain ⟨rfl, -⟩ := hs
    split at hp <;> simp [Stage.isPrepared] at hp
  case universeExists =>
    obtain ⟨rfl, -⟩ := hs
    by_contra hne
    simp [rows, hne, Stage.isPrepared] at hp

theorem statement_ne_earlierGeneration {stage : Stage R} {view : Option (Option R)}
    (h : statement g s = some (stage, view)) : stage ≠ .earlierGeneration := by
  unfold Selection.statement at h
  grind

theorem Decided.statement {stage : Stage R} {view : Option (Option R)} (h : Decided g s)
    (hs : Selection.statement g s = some (stage, view)) : Decided g { s with stage, view } := by
  have hp : stage.isPrepared = true → s.opening = .seeded := prepared_of_statement h hs
  refine ⟨fun hst ↦ absurd hst (statement_ne_earlierGeneration hs), hp, fun ht ↦ ?_⟩
  obtain ⟨hc, hseeded, hst⟩ := h.started ht
  refine ⟨hc, hseeded, ?_⟩
  rcases hst with hst | hst | hst <;>
    simp only [Selection.statement, hst, reduceCtorEq, Option.some.injEq, Prod.mk.injEq] at hs
  obtain ⟨rfl, -⟩ := hs
  exact .inr (.inr (if_pos ht))

theorem Decided.step (h : Decided g s) (hl : Learned g s s.stage) (hok : ReadsAlike s a)
    (hs : Step g s a s') : Decided g s' := by
  cases hs with
  | opened hopening =>
    have hseeded : ¬ s.opening = .seeded := by simp [hopening]
    exact ⟨fun hst ↦ absurd rfl (hok hst), fun hp ↦ absurd (h.prepared hp) hseeded,
      fun ht ↦ absurd (h.started ht).2.1 hseeded⟩
  | seeded hidle hopening =>
    refine ⟨fun hst ↦ ?_, fun _ ↦ rfl, fun ht ↦ ?_⟩
    · simp [hidle] at hst
    · have hseeded := (h.started ht).2.1
      simp [hopening] at hseeded
  | closed hseeded =>
    exact ⟨h.earlier, fun _ ↦ hseeded, nofun⟩
  | lock =>
    refine ⟨fun hst ↦ ?_, fun hp ↦ ?_, fun ht ↦ ?_⟩
    · by_contra hopening
      rw [if_neg hopening] at hst
      cases hst
    · simp only at hp
      split at hp <;> simp [Stage.isPrepared] at hp
    · obtain ⟨hc, hseeded, -⟩ := h.started ht
      exact ⟨hc, hseeded, .inr (.inl (if_neg (by simp [hseeded])))⟩
  | statement hst => exact h.statement hst
  | available hst | noneAvailable hst =>
    exact h.goTo nofun (by simp [hst, Stage.isPrepared]) (by simp [hst])
  | furthest hst =>
    refine h.goTo ?_ (by simp [hst, Stage.isPrepared]) (by simp [hst])
    split <;> nofun
  | reissued hst | dispatched hst =>
    refine ⟨nofun, nofun, fun ht ↦ ?_⟩
    have hstage := (h.started ht).2.2
    simp [hst] at hstage
  | transition hst =>
    rw [hst] at hl
    exact ⟨nofun, nofun, fun _ ↦ ⟨hl, h.prepared (by simp [hst, Stage.isPrepared]), .inl rfl⟩⟩
  | answered | rollback =>
    exact ⟨nofun, nofun, fun ht ↦ ⟨(h.started ht).1, (h.started ht).2.1, .inl rfl⟩⟩
  | submitted hs =>
    obtain ⟨t, hc, rfl⟩ := submit_cases hs
    exact h.of_settles (settles_of_open hc rfl rfl) rfl rfl rfl
  | released _ _ hs =>
    obtain ⟨t, hc, rfl⟩ := releaseClaim_cases hs
    exact h.of_settles (settles_of_open hc rfl rfl) rfl rfl rfl
  | merged => exact h.of_settles (settles_mergeCommit _) rfl rfl rfl
  | merging => exact h.of_settles ⟨Iff.rfl, id, fun h ↦ h.2, fun _ ↦ le_rfl⟩ rfl rfl rfl
  | transitionLapsed => exact ⟨h.earlier, h.prepared, nofun⟩

theorem decided_of_unopened : Decided g (unopened : State R) := ⟨nofun, nofun, nofun⟩

theorem decided_of_reachableBy (h : (machine g).ReachableBy ReadsAlike s) : Decided g s :=
  h.invariant_of (fun _ ↦ learned_of_reachable) (fun _ h ↦ h ▸ decided_of_unopened)
    fun _ _ _ hl hi hok hs ↦ hi.step hl hok (step_of_next hs)

def Stage.isSelecting : Stage R → Bool
  | .idle | .earlierGeneration | .transitionInProgress | .universeExists | .nextAvailable
  | .reissue _ | .dispatch _ => false
  | .answer a => a = .transition
  | _ => true

def Action.releases : Action R → Bool
  | .decline _ | .lapse _ => true
  | _ => false

/-- No task is declined or lapses under a claim that has been told that none is available. -/
def KeepsTasks (s : State R) (a : Action R) : Prop :=
  s.stage.isSelecting = true → a.releases = false

instance : Decidable (KeepsTasks s a) := inferInstanceAs (Decidable (_ → _))

def NoneAvailable (s : State R) : Prop := ∀ task ∈ s.tasks, task.state ≠ .available

def Kept (s : State R) : Prop :=
  s.stage.isSelecting = true ∨ s.transition = some .started → NoneAvailable s

theorem isSelecting_of_statement {stage : Stage R} {view : Option (Option R)} (h : Decided g s)
    (hs : statement g s = some (stage, view)) (hp : stage.isSelecting = true) :
    s.stage.isSelecting = true := by
  unfold Selection.statement at hs
  cases hst : s.stage <;>
    simp only [hst, Stage.isSelecting, reduceCtorEq, Option.some.injEq, Prod.mk.injEq] at hs ⊢
  case earlierGeneration =>
    obtain ⟨rfl, -⟩ := hs
    rw [if_pos (h.earlier hst)] at hp
    simp [Stage.isSelecting] at hp
  case transitionInProgress | universeExists =>
    obtain ⟨rfl, -⟩ := hs
    split at hp <;> simp [Stage.isSelecting] at hp

omit [LinearOrder R] in
theorem NoneAvailable.completed {t : ℕ} (h : NoneAvailable s)
    (htasks : s'.tasks = s.tasks.modify t ({ · with state := .completed })) : NoneAvailable s' := by
  intro task htask
  obtain ⟨u, hu⟩ := List.mem_iff_getElem?.1 (htasks ▸ htask)
  rw [List.getElem?_modify] at hu
  split at hu
  · obtain ⟨_, -, rfl⟩ := Option.map_eq_some_iff.1 hu
    nofun
  · rw [Option.map_eq_map, Option.map_id'] at hu
    exact h task (List.mem_of_getElem? hu)

theorem Kept.step (h : Kept s) (hd : Decided g s) (hok : KeepsTasks s a) (hs : Step g s a s') :
    Kept s' := by
  cases hs with
  | opened | merged | merging => exact h
  | seeded hidle hopening => exact h
  | closed => exact fun hk ↦ h (.inl (hk.resolve_right nofun))
  | transitionLapsed => exact fun hk ↦ h (.inl (hk.resolve_right nofun))
  | lock =>
    refine fun hk ↦ h (.inr (hk.resolve_left ?_))
    simp only
    split <;> nofun
  | statement hst => exact fun hk ↦ h (hk.imp_left (isSelecting_of_statement hd hst))
  | available => exact fun hk ↦ h (hk.imp_left nofun)
  | noneAvailable _ hn => exact fun _ ↦ hn
  | furthest hst => exact fun _ ↦ h (.inl (by simp [hst, Stage.isSelecting]))
  | reissued hst | dispatched hst =>
    rintro (hk | ht)
    · cases hk
    · have hstage := (hd.started ht).2.2
      simp [hst] at hstage
  | transition hst => exact fun _ ↦ h (.inl (by simp [hst, Stage.isSelecting]))
  | answered | rollback => exact fun hk ↦ h (.inr (hk.resolve_left nofun))
  | submitted hr =>
    obtain ⟨t, -, rfl⟩ := submit_cases hr
    exact fun hk ↦ (h hk).completed rfl
  | released ha _ hr =>
    obtain ⟨t, hc, rfl⟩ := releaseClaim_cases hr
    rintro (hk | ht)
    · rcases ha with rfl | rfl <;> exact absurd (hok hk) nofun
    · exact absurd (hd.started ht).1.1.1 (claimsInFlight_pos hc).ne'

theorem kept_of_reachableBy
    (h : (machine g).ReachableBy (fun s a ↦ ReadsAlike s a ∧ KeepsTasks s a) s) : Kept s := by
  have hboth : Decided g s ∧ Kept s :=
    h.invariant_of (I := fun s ↦ Decided g s ∧ Kept s) (fun _ ↦ learned_of_reachable)
      (fun _ h ↦ h ▸ ⟨decided_of_unopened, fun _ ↦ nofun⟩)
      fun _ _ _ hl hi hok hs ↦
        ⟨hi.1.step hl hok.1 (step_of_next hs), hi.2.step hi.1 hok.2 (step_of_next hs)⟩
  exact hboth.2

end Decision

/-- A generation closes only when complete, where no other one is closed between the two reads of
the claim that decides it: every rack is at target, no task is claimed and the totals hold every
accepted result. No task is available either, where none has been handed back since that claim
looked for one. -/
theorem complete_of_transition (h : (machine g).ReachableBy ReadsAlike s)
    (hs : s.stage = .answer .transition ∨ s.transition = some .started) :
    (∀ r ∈ g.racks, g.target ≤ s.occurrences r) ∧ (∀ task ∈ s.tasks, task.state ≠ .claimed) ∧
      s.staging = [] ∧ (∀ r ∈ g.racks, s.occurrences r = (s.accepted.map (reported · r)).sum) ∧
      ((machine g).ReachableBy (fun s a ↦ ReadsAlike s a ∧ KeepsTasks s a) s →
        ∀ task ∈ s.tasks, task.state = .completed) := by
  have hd := decided_of_reachableBy h
  have hc : Complete g s ∧ s.opening = .seeded := by
    rcases hs with hs | hs
    · have hl := learned_of_reachable h.reachable
      rw [hs] at hl
      exact ⟨hl, hd.prepared (by simp [hs, Stage.isPrepared])⟩
    · exact ⟨(hd.started hs).1, (hd.started hs).2.1⟩
  obtain ⟨⟨⟨hflight, hstaging⟩, htarget⟩, hseeded⟩ := hc
  rw [rows_of_seeded hseeded] at htarget
  have hclaimed : ∀ task ∈ s.tasks, task.state ≠ .claimed := by
    intro task htask hclaimed
    obtain ⟨t, ht⟩ := List.mem_iff_getElem?.1 htask
    obtain ⟨c, hopen⟩ := (slots_of_reachable h.reachable).open_of_claimed
      (t := t) (by simp [taskState, ht, hclaimed])
    exact (claimsInFlight_pos hopen).ne' hflight
  refine ⟨htarget, hclaimed, hstaging,
    fun r hr ↦ occurrences_of_staging_eq_nil h.reachable hstaging hr, fun hkept task htask ↦ ?_⟩
  have hav : task.state ≠ .available :=
    kept_of_reachableBy hkept (hs.imp_left fun hst ↦ by simp [hst, Stage.isSelecting]) task htask
  cases hstate : task.state with
  | available => exact absurd hstate hav
  | claimed => exact absurd hstate (hclaimed task htask)
  | completed => rfl

section TwoRacks

def twoRacks : Generation ℕ := ⟨[0, 1], by decide, 1, 1, by decide, by decide⟩

def select : List (Action ℕ) :=
  [.lock, .statement, .statement, .nextAvailable none, .statement, .statement]

def firstClaim : List (Action ℕ) :=
  select ++ [.statement, .statement, .statement, .furthestBelowTarget [0], .commit]

def secondClaim : List (Action ℕ) := select ++ [.furthestBelowTarget [1], .commit]

def close : List (Action ℕ) := [.statement, .statement, .statement, .statement]

/-- Both racks are handed out, and the closing claim follows the results. -/
def completedRun : List (Action ℕ) :=
  [.openGeneration, .seedUniverse] ++ firstClaim ++ secondClaim ++
    [.submit 0 [(0, 1)], .submit 1 [(1, 1)], .mergeRead, .mergeCommit] ++ select ++
    [.furthestBelowTarget []] ++ close

theorem exists_complete_of_transition : ∃ s, (machine twoRacks).ReachableBy ReadsAlike s ∧
    s.stage = .answer .transition ∧
    (∀ r ∈ twoRacks.racks, twoRacks.target ≤ s.occurrences r) ∧
      (∀ task ∈ s.tasks, task.state ≠ .claimed) ∧ s.staging = [] ∧
      (∀ r ∈ twoRacks.racks, s.occurrences r = (s.accepted.map (reported · r)).sum) ∧
      ∀ task ∈ s.tasks, task.state = .completed := by
  have hstart : (machine twoRacks).ReachableBy (fun s a ↦ ReadsAlike s a ∧ KeepsTasks s a)
      unopened := .start rfl
  obtain ⟨s, hs, hp⟩ := hstart.follow_any completedRun
    (fun s ↦ s.stage = .answer .transition) (by decide)
  have hst := of_decide_eq_true hp
  have halike : (machine twoRacks).ReachableBy ReadsAlike s := hs.mono fun _ _ ↦ And.left
  obtain ⟨htarget, hclaimed, hstaging, hsums, hkept⟩ := complete_of_transition halike (.inl hst)
  exact ⟨s, halike, hst, htarget, hclaimed, hstaging, hsums, hkept hs⟩

/-- The generation before is closed between a claim's two reads: the claim finds no universe to
select from, and closes a generation none of which was played. -/
theorem not_complete_of_transition : ¬ ∀ s, (machine twoRacks).Reachable s →
    s.stage = .answer .transition → ∀ r ∈ twoRacks.racks, twoRacks.target ≤ s.occurrences r := by
  have hstart : (machine twoRacks).Reachable unopened := .start rfl
  obtain ⟨s, hs, hp⟩ := hstart.follow_any
    ([.lock, .openGeneration, .statement] ++ List.replicate 4 .statement ++
      [.furthestBelowTarget []] ++ close)
    (fun s ↦ s.stage = .answer .transition ∧ s.occurrences 0 = 0) (by decide)
  obtain ⟨hst, hzero⟩ := of_decide_eq_true hp
  intro h
  have htarget := h s hs hst 0 (by decide)
  rw [hzero] at htarget
  exact absurd htarget (by decide)

/-- The second result completes both racks; the first task is declined between the closing
claim's look for an available task and its count of the claims in flight. -/
theorem not_completed_of_transition : ¬ ∀ s, (machine twoRacks).ReachableBy ReadsAlike s →
    s.stage = .answer .transition → ∀ task ∈ s.tasks, task.state ≠ .available := by
  have hstart : (machine twoRacks).ReachableBy ReadsAlike unopened := .start rfl
  obtain ⟨s, hs, hp⟩ := hstart.follow_any
    ([.openGeneration, .seedUniverse] ++ firstClaim ++ secondClaim ++
      [.submit 1 [(0, 1), (1, 1)], .mergeRead, .mergeCommit] ++ select ++
      [.decline 0, .furthestBelowTarget []] ++ close)
    (fun s ↦ s.stage = .answer .transition ∧ ∃ task ∈ s.tasks, task.state = .available)
    (by decide)
  obtain ⟨hst, task, htask, hav⟩ := of_decide_eq_true hp
  exact fun h ↦ h s hs hst task htask hav

end TwoRacks

end Birdtest.Jobs.LeaveGen.Selection
