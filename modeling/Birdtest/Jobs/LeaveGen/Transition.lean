import Birdtest.Base.Runs
import Birdtest.Models.Job
import Mathlib.Data.Int.Order.Basic
import Mathlib.Data.List.Nodup

namespace Birdtest.Jobs.LeaveGen.Transition

open Birdtest.Base.Runs Birdtest.Models.Job

/-- A `leave_generation_artifacts` row. `startedIn` stands for the bytes its hash is of: the
run of the job, counted in purges, whose transition built them. -/
structure Artifact where
  generation : ℕ
  startedIn : ℕ
  deriving DecidableEq

structure Row where
  startedAt : ℤ
  completedAt : Option ℤ
  attempts : ℕ

structure Runner where
  generation : ℕ
  startedIn : ℕ
  failed : Bool

inductive Phase
  /-- The claim has the job's dispatch lock and has read nothing. -/
  | locked
  | generation (g : ℕ)
  /-- No transition of that generation was in progress. -/
  | free
  /-- `next_step` has read the current generation again. -/
  | nextStep (g : ℕ)

structure Claim where
  now : ℤ
  phase : Phase

structure State where
  now : ℤ
  status : JobStatus
  purges : ℕ
  artifacts : List Artifact
  transitions : ℕ → Option Row
  claim : Option Claim
  runners : List Runner

def takeoverAfter : ℤ := 30 * 60 * 1000000

section Statements

variable (generationCount : ℕ) (s : State)

/-- Generation 0 has an artifact too, which is not counted. -/
def completed : ℕ := s.artifacts.countP fun a ↦ 1 ≤ a.generation

def currentGeneration : Option ℕ :=
  if completed s < generationCount then some (completed s + 1) else none

def transitionInProgress (now : ℤ) (g : ℕ) : Bool :=
  (s.transitions g).any fun row ↦ row.completedAt = none ∧ now - takeoverAfter ≤ row.startedAt

def upserted (now : ℤ) : Option Row → Option Row
  | none => some ⟨now, none, 1⟩
  | some row =>
    if row.completedAt = none ∧ row.startedAt < now - takeoverAfter then
      some { row with startedAt := now, attempts := row.attempts + 1 }
    else none

def claimTransition (now : ℤ) (g : ℕ) : State :=
  match upserted now (s.transitions g) with
  | some row =>
    { s with
      transitions := Function.update s.transitions g (some row)
      claim := none
      runners := s.runners ++ [⟨g, s.purges, false⟩] }
  | none => { s with claim := none }

/-- `ON CONFLICT (job_id, generation) DO NOTHING` -/
def insertArtifact (a : Artifact) (artifacts : List Artifact) : List Artifact :=
  if a.generation ∈ artifacts.map (·.generation) then artifacts else artifacts ++ [a]

/-- `none` is the error of a transition that finds no row of its generation open. -/
def closeGeneration (a : Artifact) : Option State :=
  match s.transitions a.generation with
  | some row =>
    if row.completedAt = none then
      some { s with
        transitions :=
          Function.update s.transitions a.generation (some { row with completedAt := some s.now })
        artifacts := insertArtifact a s.artifacts
        status :=
          if generationCount ≤ a.generation ∧ s.status = .active then .completed else s.status }
    else none
  | none => none

/-- `SET started_at = to_timestamp(0) WHERE completed_at IS NULL` -/
def handedBack (row : Row) : Row :=
  if row.completedAt = none then { row with startedAt := 0 } else row

end Statements

inductive Action
  | tick (micros : ℕ)
  | lock
  | statement
  /-- The claim ends with another answer, or is rolled back. -/
  | unlock
  | close (i : ℕ)
  /-- A transition fails before its close. -/
  | fail (i : ℕ)
  | handBack (i : ℕ)
  /-- A transition is lost with its process, or its hand-back fails. -/
  | lose (i : ℕ)
  | releaseOrphanedTransitions
  | purge
  | seedZeroGeneration
  | setStatus (status : JobStatus)

section Machine

variable (generationCount : ℕ)

/-- The claim's next statement of those that decide on a transition. Which claims get past
the reissue, and past the selection, is left open here. -/
def claimStatement (s : State) (c : Claim) : State :=
  match c.phase with
  | .locked =>
    { s with claim := (currentGeneration generationCount s).map fun g ↦ ⟨c.now, .generation g⟩ }
  | .generation g =>
    { s with claim := if transitionInProgress s c.now g then none else some ⟨c.now, .free⟩ }
  | .free =>
    { s with claim := (currentGeneration generationCount s).map fun g ↦ ⟨c.now, .nextStep g⟩ }
  | .nextStep g => claimTransition s c.now g

def next (s : State) : Action → Option State
  | .tick micros => some { s with now := s.now + micros }
  | .lock =>
    match s.claim with
    | none => some { s with claim := some ⟨s.now, .locked⟩ }
    | some _ => none
  | .statement => s.claim.map (claimStatement generationCount s)
  | .unlock => some { s with claim := none }
  | .close i =>
    s.runners[i]?.bind fun r ↦
      if r.failed then none
      else
        match closeGeneration generationCount s ⟨r.generation, r.startedIn⟩ with
        | some t => some { t with runners := s.runners.eraseIdx i }
        | none => some { s with runners := s.runners.modify i ({ · with failed := true }) }
  | .fail i => some { s with runners := s.runners.modify i ({ · with failed := true }) }
  | .handBack i =>
    s.runners[i]?.bind fun r ↦
      if r.failed then
        some { s with
          transitions := Function.update s.transitions r.generation
            ((s.transitions r.generation).map handedBack)
          runners := s.runners.eraseIdx i }
      else none
  | .lose i => some { s with runners := s.runners.eraseIdx i }
  | .releaseOrphanedTransitions =>
    some { s with transitions := fun g ↦ (s.transitions g).map handedBack }
  | .purge =>
    -- A purge takes the dispatch lock, so no claim is under way.
    match s.claim with
    | none =>
      some { s with
        status := .inactive, purges := s.purges + 1, artifacts := [], transitions := fun _ ↦ none }
    | some _ => none
  | .seedZeroGeneration =>
    some { s with artifacts := insertArtifact ⟨0, s.purges⟩ s.artifacts }
  | .setStatus status => some { s with status }

def created (s : State) : Prop :=
  s.purges = 0 ∧ s.artifacts = [] ∧ (∀ g, s.transitions g = none) ∧ s.claim = none ∧ s.runners = []

def machine : Machine State Action := ⟨created, next generationCount⟩

end Machine

def closedAt (s : State) (g : ℕ) : Option Bool :=
  (s.transitions g).map fun row ↦ row.completedAt.isSome

section Effect

variable {n : ℕ} {s t : State} {a : Action}

inductive Effect (n : ℕ) (s : State) : Action → State → Prop
  | quiet {a : Action} {t : State} (hartifacts : t.artifacts = s.artifacts)
      (hclosed : closedAt t = closedAt s) (hpurges : t.purges = s.purges)
      (hclaim : ∀ now g, t.claim = some ⟨now, .nextStep g⟩ →
        t.claim = s.claim ∨ currentGeneration n s = some g) : Effect n s a t
  | start {now : ℤ} {g : ℕ} {t : State} (hclaim : s.claim = some ⟨now, .nextStep g⟩)
      (hopen : closedAt s g ≠ some true) (hartifacts : t.artifacts = s.artifacts)
      (hclosed : closedAt t = Function.update (closedAt s) g (some false))
      (hpurges : t.purges = s.purges) (hended : t.claim = none) : Effect n s .statement t
  | close {i : ℕ} {r : Runner} {t : State} (hrunner : s.runners[i]? = some r)
      (hopen : closedAt s r.generation = some false)
      (hartifacts : t.artifacts = insertArtifact ⟨r.generation, r.startedIn⟩ s.artifacts)
      (hclosed : closedAt t = Function.update (closedAt s) r.generation (some true))
      (hpurges : t.purges = s.purges) (hclaim : t.claim = s.claim) : Effect n s (.close i) t
  | purge {t : State} (hartifacts : t.artifacts = []) (hclosed : closedAt t = fun _ ↦ none)
      (hclaim : t.claim = none) : Effect n s .purge t
  | seedZero {t : State} (hartifacts : t.artifacts = insertArtifact ⟨0, s.purges⟩ s.artifacts)
      (hclosed : closedAt t = closedAt s) (hpurges : t.purges = s.purges)
      (hclaim : t.claim = s.claim) : Effect n s .seedZeroGeneration t

theorem closedAt_of_update {g : ℕ} {row : Option Row} (h : t.transitions =
    Function.update s.transitions g row) :
    closedAt t = Function.update (closedAt s) g (row.map fun row ↦ row.completedAt.isSome) := by
  funext g'
  rcases eq_or_ne g' g with rfl | hg
  · simp [closedAt, h]
  · simp [closedAt, h, hg]

theorem map_handedBack (row : Option Row) :
    (row.map handedBack).map (fun row ↦ row.completedAt.isSome) =
      row.map fun row ↦ row.completedAt.isSome := by
  cases row with
  | none => rfl
  | some row =>
    simp only [Option.map_some, handedBack]
    split <;> rfl

theorem closedAt_eq_some_false {g : ℕ} :
    closedAt s g = some false ↔ ∃ row, s.transitions g = some row ∧ row.completedAt = none := by
  simp [closedAt]

theorem closedAt_ne_some_true {now : ℤ} {g : ℕ} {row : Row}
    (h : upserted now (s.transitions g) = some row) :
    closedAt s g ≠ some true ∧ row.completedAt = none := by
  cases hrow : s.transitions g with
  | none =>
    rw [hrow] at h
    cases h
    simp [closedAt, hrow]
  | some row' =>
    simp only [hrow, upserted, Option.ite_none_right_eq_some, Option.some.injEq] at h
    obtain ⟨⟨hopen, -⟩, rfl⟩ := h
    simp [closedAt, hrow, hopen]

theorem effect_claimTransition {now : ℤ} {g : ℕ} (hc : s.claim = some ⟨now, .nextStep g⟩) :
    Effect n s .statement (claimTransition s now g) := by
  unfold claimTransition
  split
  · next row hrow =>
    obtain ⟨hopen, hnew⟩ := closedAt_ne_some_true hrow
    refine .start hc hopen rfl ?_ rfl rfl
    rw [closedAt_of_update rfl]
    simp [hnew]
  · exact .quiet rfl rfl rfl nofun

theorem effect_claimStatement {c : Claim} (hc : s.claim = some c) :
    Effect n s .statement (claimStatement n s c) := by
  obtain ⟨now, phase⟩ := c
  cases phase with
  | locked =>
    refine .quiet rfl rfl rfl fun now' g h ↦ ?_
    simp [claimStatement] at h
  | generation g =>
    refine .quiet rfl rfl rfl fun now' g' h ↦ ?_
    simp only [claimStatement] at h
    split at h <;> simp at h
  | free =>
    refine .quiet rfl rfl rfl fun now' g h ↦ .inr ?_
    simp only [claimStatement, Option.map_eq_some_iff, Claim.mk.injEq, Phase.nextStep.injEq] at h
    obtain ⟨g', hg', -, rfl⟩ := h
    exact hg'
  | nextStep g => exact effect_claimTransition hc

theorem effect_close {i : ℕ} (h : next n s (.close i) = some t) : Effect n s (.close i) t := by
  obtain ⟨r, hr, h⟩ := Option.bind_eq_some_iff.1 h
  split at h
  · cases h
  cases hrow : s.transitions r.generation with
  | none =>
    simp only [closeGeneration, hrow, Option.some.injEq] at h
    subst h
    exact .quiet rfl rfl rfl fun _ _ _ ↦ .inl rfl
  | some row =>
    by_cases hopen : row.completedAt = none
    · simp only [closeGeneration, hrow, hopen, if_true, Option.some.injEq] at h
      subst h
      exact .close hr (closedAt_eq_some_false.2 ⟨row, hrow, hopen⟩) rfl
        (by rw [closedAt_of_update rfl]; rfl) rfl rfl
    · simp only [closeGeneration, hrow, hopen, if_false, Option.some.injEq] at h
      subst h
      exact .quiet rfl rfl rfl fun _ _ _ ↦ .inl rfl

theorem effect_handBack {i : ℕ} (h : next n s (.handBack i) = some t) :
    Effect n s (.handBack i) t := by
  obtain ⟨r, hr, h⟩ := Option.bind_eq_some_iff.1 h
  split at h <;> cases h
  refine .quiet rfl ?_ rfl fun _ _ _ ↦ .inl rfl
  rw [closedAt_of_update rfl, map_handedBack]
  exact Function.update_eq_self _ _

theorem effect_of_next (h : next n s a = some t) : Effect n s a t := by
  cases a with
  | tick | fail | lose | setStatus =>
    cases h
    exact .quiet rfl rfl rfl fun _ _ _ ↦ .inl rfl
  | lock =>
    cases hc : s.claim <;> simp only [next, hc, Option.some.injEq, reduceCtorEq] at h
    subst h
    exact .quiet rfl rfl rfl (by simp)
  | statement =>
    obtain ⟨c, hc, rfl⟩ := Option.map_eq_some_iff.1 h
    exact effect_claimStatement hc
  | unlock =>
    cases h
    exact .quiet rfl rfl rfl nofun
  | close => exact effect_close h
  | handBack => exact effect_handBack h
  | releaseOrphanedTransitions =>
    cases h
    exact .quiet rfl (funext fun g ↦ map_handedBack _) rfl fun _ _ _ ↦ .inl rfl
  | purge =>
    cases hc : s.claim <;> simp only [next, hc, Option.some.injEq, reduceCtorEq] at h
    subst h
    exact .purge rfl rfl rfl
  | seedZeroGeneration =>
    cases h
    exact .seedZero rfl rfl rfl rfl

end Effect

section Sequential

/-- The generations closed are `1` to `completed s`, each by a closed row, and the only
generation that a transition may be open for is the one after. -/
structure Sequential (n : ℕ) (s : State) : Prop where
  nodup : (s.artifacts.map (·.generation)).Nodup
  artifact : ∀ g, 1 ≤ g → (g ∈ s.artifacts.map (·.generation) ↔ g ≤ completed s)
  closed : ∀ g, 1 ≤ g → g ≤ completed s → closedAt s g = some true
  row : ∀ g b, closedAt s g = some b →
    1 ≤ g ∧ g ≤ n ∧ g ≤ completed s + 1 ∧ (b = true → g ≤ completed s)
  claim : ∀ now g, s.claim = some ⟨now, .nextStep g⟩ → 1 ≤ g ∧ g ≤ n ∧ g ≤ completed s + 1

variable {n : ℕ} {s t : State} {a : Action}

theorem completed_congr (h : t.artifacts = s.artifacts) : completed t = completed s := by
  simp only [completed, h]

theorem of_currentGeneration {g : ℕ} (h : currentGeneration n s = some g) :
    g = completed s + 1 ∧ g ≤ n := by
  simp only [currentGeneration, Option.ite_none_right_eq_some, Option.some.injEq] at h
  omega

theorem Sequential.congr (h : Sequential n s) (hartifacts : t.artifacts = s.artifacts)
    (hclosed : closedAt t = closedAt s)
    (hclaim : ∀ now g, t.claim = some ⟨now, .nextStep g⟩ →
      t.claim = s.claim ∨ currentGeneration n s = some g) : Sequential n t := by
  have hcompleted := completed_congr hartifacts
  refine ⟨hartifacts ▸ h.nodup, ?_, ?_, ?_, ?_⟩
  · simpa only [hartifacts, hcompleted] using h.artifact
  · simpa only [hclosed, hcompleted] using h.closed
  · simpa only [hclosed, hcompleted] using h.row
  · intro now g hc
    rw [hcompleted]
    rcases hclaim now g hc with hs | hg
    · exact h.claim now g (hs ▸ hc)
    · have := of_currentGeneration hg
      omega

theorem completed_insertArtifact {k : Artifact}
    (h : k.generation ∉ s.artifacts.map (·.generation))
    (hartifacts : t.artifacts = insertArtifact k s.artifacts) :
    completed t = completed s + if 1 ≤ k.generation then 1 else 0 := by
  simp [completed, hartifacts, insertArtifact, h, List.countP_append, List.countP_cons]

theorem Sequential.start (h : Sequential n s) {now : ℤ} {g : ℕ}
    (hclaim : s.claim = some ⟨now, .nextStep g⟩) (hopen : closedAt s g ≠ some true)
    (hartifacts : t.artifacts = s.artifacts)
    (hclosed : closedAt t = Function.update (closedAt s) g (some false))
    (hended : t.claim = none) : Sequential n t := by
  have hcompleted := completed_congr hartifacts
  obtain ⟨hpos, hle, hnext⟩ := h.claim now g hclaim
  refine ⟨hartifacts ▸ h.nodup, ?_, ?_, ?_, by simp [hended]⟩
  · simpa only [hartifacts, hcompleted] using h.artifact
  · intro g' hpos' hle'
    rw [hcompleted] at hle'
    have hs := h.closed g' hpos' hle'
    rwa [hclosed, Function.update_of_ne]
    rintro rfl
    exact hopen hs
  · intro g' b hb
    rw [hcompleted]
    rcases eq_or_ne g' g with rfl | hg
    · rw [hclosed, Function.update_self, Option.some.injEq] at hb
      exact ⟨hpos, hle, hnext, by simp [← hb]⟩
    · rw [hclosed, Function.update_of_ne hg] at hb
      exact h.row g' b hb

theorem Sequential.eq_of_open (h : Sequential n s) {g : ℕ} (hopen : closedAt s g = some false) :
    g = completed s + 1 := by
  obtain ⟨hpos, -, hnext, -⟩ := h.row g false hopen
  by_contra hne
  simp [h.closed g hpos (by omega)] at hopen

theorem Sequential.close (h : Sequential n s) {k : Artifact}
    (hopen : closedAt s k.generation = some false)
    (hartifacts : t.artifacts = insertArtifact k s.artifacts)
    (hclosed : closedAt t = Function.update (closedAt s) k.generation (some true))
    (hclaim : t.claim = s.claim) : Sequential n t := by
  have hg := h.eq_of_open hopen
  obtain ⟨hpos, hle, -⟩ := h.row _ _ hopen
  have hnew : k.generation ∉ s.artifacts.map (·.generation) := by
    rw [h.artifact _ hpos]
    omega
  have hcompleted : completed t = completed s + 1 := by
    rw [completed_insertArtifact hnew hartifacts, if_pos hpos]
  have happend : t.artifacts.map (·.generation) =
      s.artifacts.map (·.generation) ++ [k.generation] := by
    rw [hartifacts, insertArtifact, if_neg hnew, List.map_append]
    rfl
  refine ⟨?_, ?_, ?_, ?_, ?_⟩
  · rw [happend]
    exact h.nodup.append (List.nodup_singleton _) (by simpa using hnew)
  · intro g' hpos'
    have := h.artifact g' hpos'
    simp only [happend, List.mem_append, List.mem_singleton, this, hcompleted]
    omega
  · intro g' hpos' hle'
    rcases eq_or_ne g' k.generation with rfl | hne
    · rw [hclosed, Function.update_self]
    · rw [hclosed, Function.update_of_ne hne]
      exact h.closed g' hpos' (by omega)
  · intro g' b hb
    rcases eq_or_ne g' k.generation with rfl | hne
    · omega
    · rw [hclosed, Function.update_of_ne hne] at hb
      have := h.row g' b hb
      omega
  · intro now g' hc
    have := h.claim now g' (hclaim ▸ hc)
    omega

theorem Sequential.seedZero (h : Sequential n s) {run : ℕ}
    (hartifacts : t.artifacts = insertArtifact ⟨0, run⟩ s.artifacts)
    (hclosed : closedAt t = closedAt s) (hclaim : t.claim = s.claim) : Sequential n t := by
  by_cases hseeded : 0 ∈ s.artifacts.map (·.generation)
  · exact h.congr (by rw [hartifacts, insertArtifact, if_pos hseeded]) hclosed
      fun _ _ _ ↦ .inl hclaim
  have hcompleted : completed t = completed s := by
    rw [completed_insertArtifact hseeded hartifacts]
    simp
  have happend : t.artifacts.map (·.generation) = s.artifacts.map (·.generation) ++ [0] := by
    rw [hartifacts, insertArtifact, if_neg hseeded, List.map_append]
    rfl
  refine ⟨?_, ?_, ?_, ?_, ?_⟩
  · rw [happend]
    exact h.nodup.append (List.nodup_singleton _) (by simpa using hseeded)
  · intro g hpos
    simp only [happend, hcompleted, List.mem_append, List.mem_singleton, h.artifact g hpos]
    omega
  · simpa only [hclosed, hcompleted] using h.closed
  · simpa only [hclosed, hcompleted] using h.row
  · simpa only [hclaim, hcompleted] using h.claim

theorem Sequential.empty (hartifacts : s.artifacts = []) (hclosed : closedAt s = fun _ ↦ none)
    (hclaim : s.claim = none) : Sequential n s := by
  have hcompleted : completed s = 0 := by simp [completed, hartifacts]
  refine ⟨by simp [hartifacts], fun g hpos ↦ ?_, fun g hpos hle ↦ ?_, by simp [hclosed],
    by simp [hclaim]⟩
  · simp only [hartifacts, List.map_nil, List.not_mem_nil, hcompleted, false_iff]
    omega
  · omega

theorem Sequential.effect (h : Sequential n s) (he : Effect n s a t) : Sequential n t := by
  cases he with
  | quiet hartifacts hclosed hpurges hclaim => exact h.congr hartifacts hclosed hclaim
  | start hclaim hopen hartifacts hclosed hpurges hended =>
    exact h.start hclaim hopen hartifacts hclosed hended
  | close hrunner hopen hartifacts hclosed hpurges hclaim =>
    exact h.close hopen hartifacts hclosed hclaim
  | purge hartifacts hclosed hclaim => exact .empty hartifacts hclosed hclaim
  | seedZero hartifacts hclosed hpurges hclaim => exact h.seedZero hartifacts hclosed hclaim

/-- Whatever takes over, fails, is handed back or is purged, generations close in order. -/
theorem sequential_of_reachable (h : (machine n).Reachable s) : Sequential n s := by
  refine h.invariant ?_ fun _ _ _ hi _ hs ↦ hi.effect (effect_of_next hs)
  rintro s ⟨-, hartifacts, htransitions, hclaim, -⟩
  exact .empty hartifacts (funext fun g ↦ by simp [closedAt, htransitions]) hclaim

theorem Sequential.completed_le (h : Sequential n s) : completed s ≤ n := by
  rcases Nat.eq_zero_or_pos (completed s) with h0 | hpos
  · omega
  · exact (h.row _ _ (h.closed _ hpos (Nat.le_refl _))).2.1

theorem currentGeneration_eq : currentGeneration n s =
    if completed s + 1 ≤ n then some (completed s + 1) else none := by
  simp only [currentGeneration, Nat.lt_iff_add_one_le]

end Sequential

section OwnRun

variable {n : ℕ} {s t : State} {a : Action}

/-- No transition started before a purge reaches its close while a row of its generation is
open, which is then the row of a transition of the job's new run. -/
def closesOwnRun (s : State) : Action → Prop
  | .close i => ∀ r ∈ s.runners[i]?, closedAt s r.generation = some false → r.startedIn = s.purges
  | _ => True

instance : ∀ s a, Decidable (closesOwnRun s a)
  | s, .close i => inferInstanceAs (Decidable (∀ r ∈ s.runners[i]?, _))
  | _, .tick _ | _, .lock | _, .statement | _, .unlock | _, .fail _ | _, .handBack _ | _, .lose _
  | _, .releaseOrphanedTransitions | _, .purge | _, .seedZeroGeneration | _, .setStatus _ =>
    .isTrue trivial

def OwnArtifacts (s : State) : Prop :=
  ∀ k ∈ s.artifacts, 1 ≤ k.generation → k.startedIn = s.purges

theorem OwnArtifacts.insert {k : Artifact} (h : OwnArtifacts s)
    (hk : 1 ≤ k.generation → k.startedIn = s.purges)
    (hartifacts : t.artifacts = insertArtifact k s.artifacts) (hpurges : t.purges = s.purges) :
    OwnArtifacts t := by
  intro k' hk' hpos
  rw [hpurges]
  rw [hartifacts, insertArtifact] at hk'
  split at hk'
  · exact h k' hk' hpos
  · rcases List.mem_append.1 hk' with hk' | hk'
    · exact h k' hk' hpos
    · rw [List.mem_singleton.1 hk'] at hpos ⊢
      exact hk hpos

theorem OwnArtifacts.effect (h : OwnArtifacts s) (hok : closesOwnRun s a)
    (he : Effect n s a t) : OwnArtifacts t := by
  cases he with
  | quiet hartifacts hclosed hpurges => simpa only [OwnArtifacts, hartifacts, hpurges] using h
  | start hclaim hopen hartifacts hclosed hpurges =>
    simpa only [OwnArtifacts, hartifacts, hpurges] using h
  | close hrunner hopen hartifacts hclosed hpurges =>
    exact h.insert (fun _ ↦ hok _ hrunner hopen) hartifacts hpurges
  | purge hartifacts => simp [OwnArtifacts, hartifacts]
  | seedZero hartifacts hclosed hpurges =>
    exact h.insert (fun hpos ↦ absurd hpos (Nat.not_succ_le_zero 0)) hartifacts hpurges

theorem ownArtifacts_of_reachableBy (h : (machine n).ReachableBy closesOwnRun s) :
    OwnArtifacts s := by
  refine h.invariant ?_ fun _ _ _ hi hok hs ↦ hi.effect hok (effect_of_next hs)
  rintro s ⟨-, hartifacts, -⟩
  simp [OwnArtifacts, hartifacts]

/-- A close outside the condition records its artifact as the purged job's. -/
theorem not_ownArtifacts_close {i : ℕ} (h : Sequential n s) (hs : next n s (.close i) = some t)
    (hok : ¬closesOwnRun s (.close i)) : ¬OwnArtifacts t := by
  obtain ⟨r, hr, hopen, hrun⟩ : ∃ r, s.runners[i]? = some r ∧
      closedAt s r.generation = some false ∧ r.startedIn ≠ s.purges := by
    simpa [closesOwnRun] using hok
  obtain ⟨hpos, -⟩ := h.row _ _ hopen
  have hnew : r.generation ∉ s.artifacts.map (·.generation) := by
    rw [h.artifact _ hpos, h.eq_of_open hopen]
    omega
  obtain ⟨row, hrow, hnone⟩ := closedAt_eq_some_false.1 hopen
  obtain ⟨r', hr', hs⟩ := Option.bind_eq_some_iff.1 hs
  rw [hr, Option.some.injEq] at hr'
  subst hr'
  split at hs
  · cases hs
  simp only [closeGeneration, hrow, hnone, if_true, Option.some.injEq] at hs
  subst hs
  intro hown
  refine hrun (hown ⟨r.generation, r.startedIn⟩ ?_ hpos)
  simp [insertArtifact, hnew]

/-- In every run in which no transition of an earlier run of the job closes a generation that
the job has a transition open for: a generation has at most one artifact, those that have one
are `1` to `k - 1`, the current generation is `k`, or none once every configured generation
has one, and no artifact is of a transition started before a purge. -/
theorem artifacts_of_reachableBy (h : (machine n).ReachableBy closesOwnRun s) :
    (s.artifacts.map (·.generation)).Nodup ∧
    (∃ k, 1 ≤ k ∧ k ≤ n + 1 ∧
      (∀ g, 1 ≤ g → (g ∈ s.artifacts.map (·.generation) ↔ g < k)) ∧
      currentGeneration n s = if k ≤ n then some k else none) ∧
    ∀ k ∈ s.artifacts, 1 ≤ k.generation → k.startedIn = s.purges := by
  have hseq := sequential_of_reachable h.reachable
  have hle := hseq.completed_le
  refine ⟨hseq.nodup, ⟨completed s + 1, by omega, by omega, fun g hpos ↦ ?_, ?_⟩,
    ownArtifacts_of_reachableBy h⟩
  · rw [hseq.artifact g hpos, Nat.lt_succ_iff]
  · exact currentGeneration_eq

end OwnRun

section Purged

def newJob : State := ⟨0, .active, 0, [], fun _ ↦ none, none, []⟩

def transitionClaim : List Action := [.lock, .statement, .statement, .statement, .statement]

/-- A transition still running when its job is purged and claimed from again: the new run's
transition closes the generation, and the old one's close finds no row open. -/
theorem exists_artifacts : ∃ s, (machine 2).ReachableBy closesOwnRun s ∧
    s.artifacts = [⟨1, 1⟩] ∧ ∀ k ∈ s.artifacts, 1 ≤ k.generation → k.startedIn = s.purges := by
  have hstart : (machine 2).ReachableBy closesOwnRun newJob :=
    .start ⟨rfl, rfl, fun _ ↦ rfl, rfl, rfl⟩
  obtain ⟨s, hs, hp⟩ := hstart.follow_any
    (transitionClaim ++ [.purge, .setStatus .active] ++ transitionClaim ++
      [.close 1, .close 0, .handBack 0])
    (fun s ↦ s.artifacts = [⟨1, 1⟩]) (by decide)
  exact ⟨s, hs, of_decide_eq_true hp, (artifacts_of_reachableBy hs).2.2⟩

/-- The same, with the old transition's close first. -/
theorem not_ownArtifacts_of_reachable :
    ¬∀ n s, (machine n).Reachable s → ∀ k ∈ s.artifacts, 1 ≤ k.generation →
    k.startedIn = s.purges := by
  intro h
  have hstart : (machine 2).Reachable newJob := .start ⟨rfl, rfl, fun _ ↦ rfl, rfl, rfl⟩
  obtain ⟨s, hs, hp⟩ := hstart.follow_any
    (transitionClaim ++ [.purge, .setStatus .active] ++ transitionClaim ++ [.close 0])
    (fun s ↦ s.artifacts = [⟨1, 0⟩] ∧ s.purges = 1) (by decide)
  obtain ⟨hartifacts, hpurges⟩ := of_decide_eq_true hp
  have := h 2 s hs ⟨1, 0⟩ (by simp [hartifacts]) (Nat.le_refl _)
  rw [hpurges] at this
  exact absurd this (by decide)

end Purged

end Birdtest.Jobs.LeaveGen.Transition
