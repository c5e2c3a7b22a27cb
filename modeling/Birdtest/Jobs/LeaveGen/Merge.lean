import Birdtest.Base.Runs
import Birdtest.Base.Slices
import Mathlib.Algebra.BigOperators.Group.List.Basic
import Mathlib.Algebra.GroupWithZero.Nat
import Mathlib.Data.List.Dedup
import Mathlib.Data.List.Induction
import Mathlib.Order.Nat

namespace Birdtest.Jobs.LeaveGen.Merge

open Birdtest.Base.Runs Birdtest.Base.Slices

variable {R E : Type} [DecidableEq R]

/-- The arithmetic of equity sums: no law of it is used, so that it may round. -/
structure Arithmetic (E : Type) where
  zero : E
  add : E → E → E
  weigh : E → ℕ → E

structure Generation (R E : Type) where
  racks : List R
  nodup : racks.Nodup
  hash : R → BitVec 32
  arithmetic : Arithmetic E

structure RackOccurrences (R E : Type) where
  rack : R
  count : ℕ
  mean : E

structure StagedRack (R E : Type) where
  rack : R
  count : ℕ
  equitySum : E

structure Staged (R E : Type) where
  id : ℕ
  racks : List (StagedRack R E)

structure Progress (E : Type) where
  occurrenceCount : ℕ
  equitySum : E

abbrev Totals (R E : Type) : Type := R → Option (Progress E)

inductive Phase
  | ids | racksTotal | pass (n : ℕ) | summary | commit

structure Running (R E : Type) where
  racksPerPass : Int64
  phase : Phase
  ids : List ℕ
  passes : ℕ
  totals : Totals R E
  foldsMerged : ℕ
  racksUpdated : ℕ
  reported : ℕ
  summary : Option ℕ

/-- The generation's committed rows (`summary` is `racks_total`, once merged), the merge that
holds the job's merge lock, every accepted result, and what each committed merge deleted. -/
structure State (R E : Type) where
  totals : Totals R E
  staging : List (Staged R E)
  summary : Option ℕ
  running : Option (Running R E)
  accepted : List (List (RackOccurrences R E))
  merges : List (List (Staged R E))

section Statements

variable (g : Generation R E)

def stagedRacks (record : List (RackOccurrences R E)) : List (StagedRack R E) :=
  record.map fun o ↦ ⟨o.rack, o.count, g.arithmetic.weigh o.mean o.count⟩

def sum : List E → Option E
  | [] => none
  | e :: es => some (es.foldl g.arithmetic.add e)

def folded (rows : List (Staged R E)) (rack : R) : Option (ℕ × E) :=
  let group := (rows.flatMap (·.racks)).filter (·.rack = rack)
  (sum g (group.map (·.equitySum))).map fun equity ↦ ((group.map (·.count)).sum, equity)

def applied (rows : List (Staged R E)) (rack : R) (p : Option (Progress E)) :
    Option (Progress E) :=
  match p, folded g rows rack with
  | some p, some (count, equity) =>
    some ⟨p.occurrenceCount + count, g.arithmetic.add p.equitySum equity⟩
  | p, _ => p

/-- `$4 = 1 OR (hashtext(u.rack) & 2147483647) % $4 = $5` -/
def inPass (passes pass : ℕ) (rack : R) : Bool :=
  passes = 1 ∨ (g.hash rack &&& 2147483647#32).toNat % passes = pass

def passesFor (racksTotal racksPerPass : Int64) : ℕ :=
  let perPass := max racksPerPass 1
  (min (max ((racksTotal + perPass - 1) / perPass) 1) 2147483647).toNatClampNeg

def taken (staging : List (Staged R E)) (ids : List ℕ) : List (Staged R E) :=
  staging.filter (·.id ∈ ids)

def mergeStatement (s : State R E) (m : Running R E) : Option (Running R E) :=
  match m.phase with
  | .ids => some { m with ids := s.staging.map (·.id), phase := .racksTotal }
  | .racksTotal =>
    some { m with
      passes :=
        if m.ids.isEmpty then 0
        else passesFor (Int64.ofNat (s.summary.getD g.racks.length)) m.racksPerPass
      phase := .pass 0 }
  | .pass n =>
    let rows := taken s.staging m.ids
    if n < m.passes then
      some { m with
        totals := applySlice (applied g rows) (inPass g m.passes n) m.totals
        racksUpdated := m.racksUpdated + g.racks.countP fun r ↦
          inPass g m.passes n r ∧ (folded g rows r).isSome
        reported := m.reported +
          (((rows.flatMap (·.racks)).map (·.rack)).filter (inPass g m.passes n)).dedup.length
        phase := .pass (n + 1) }
    else
      some { m with foldsMerged := rows.length, phase := .summary }
  | .summary =>
    some { m with
      summary :=
        if 0 < m.foldsMerged ∨ m.summary = none then some g.racks.length else m.summary
      phase := .commit }
  | .commit => none

end Statements

inductive Action (R E : Type)
  /-- A submission commits, with the row that `stage_fold` inserted, under a new id. -/
  | stage (id : ℕ) (record : List (RackOccurrences R E))
  | lock (racksPerPass : Int64)
  | statement
  | commit
  | rollback

variable (g : Generation R E)

def ids (s : State R E) : List ℕ := (s.merges.flatten ++ s.staging).map (·.id)

def next (s : State R E) : Action R E → Option (State R E)
  | .stage id record =>
    if id ∉ ids s then
      some { s with
        staging := s.staging ++ [⟨id, stagedRacks g record⟩]
        accepted := s.accepted ++ [record] }
    else none
  | .lock racksPerPass =>
    match s.running with
    | none =>
      some { s with running := some {
        racksPerPass, phase := .ids, ids := [], passes := 0, totals := s.totals
        foldsMerged := 0, racksUpdated := 0, reported := 0, summary := s.summary } }
    | some _ => none
  | .statement =>
    s.running.bind fun m ↦ (mergeStatement g s m).map fun m ↦ { s with running := some m }
  | .commit =>
    s.running.bind fun m ↦
      match m.phase with
      | .commit =>
        some { s with
          totals := m.totals
          staging := s.staging.filter (·.id ∉ m.ids)
          summary := m.summary
          running := none
          merges := s.merges ++ [taken s.staging m.ids] }
      | _ => none
  | .rollback => s.running.map fun _ ↦ { s with running := none }

def seededTotals : Totals R E := fun r ↦ if r ∈ g.racks then some ⟨0, g.arithmetic.zero⟩ else none

def seeded (s : State R E) : Prop :=
  s.totals = seededTotals g ∧ s.staging = [] ∧ s.running = none ∧ s.accepted = [] ∧ s.merges = []

def machine : Machine (State R E) (Action R E) := ⟨seeded g, next g⟩

section Passes

variable {g}

theorem clamp_pos (x : Int64) : 0 < (min (max x 1) 2147483647).toNatClampNeg := by
  change 0 < Int64.toNatClampNeg (if (if x ≤ 1 then 1 else x) ≤ 2147483647 then
    (if x ≤ 1 then 1 else x) else 2147483647)
  by_cases h : x ≤ 1
  · simp only [h, if_true]
    decide
  · simp only [h, if_false]
    split
    · rw [Int64.le_iff_toInt_le, Int64.toInt_one] at h
      simp only [Int64.toNatClampNeg]
      omega
    · decide

theorem passesFor_pos (racksTotal racksPerPass : Int64) :
    0 < passesFor racksTotal racksPerPass :=
  clamp_pos _

omit [DecidableEq R] in
/-- Every rack is in exactly one of a merge's passes. -/
theorem exists_inPass {passes : ℕ} (h : 0 < passes) (r : R) :
    ∃ p < passes, inPass g passes p r = true ∧ ∀ q < passes,
    inPass g passes q r = true → q = p := by
  rcases eq_or_ne passes 1 with rfl | hne
  · exact ⟨0, h, by simp [inPass], by omega⟩
  · refine ⟨(g.hash r &&& 2147483647#32).toNat % passes, Nat.mod_lt _ h, by simp [inPass],
      fun q _ hq ↦ ?_⟩
    simpa [inPass, hne, eq_comm] using hq

def onePass (g : Generation R E) (rows : List (Staged R E)) (totals : Totals R E) : Totals R E :=
  applySlice (applied g rows) (inPass g 1 0) totals

theorem onePass_eq (rows : List (Staged R E)) (totals : Totals R E) :
    onePass g rows totals = fun r ↦ applied g rows r (totals r) := by
  funext r
  simp [onePass, applySlice, inPass]

theorem applySlices_inPass {passes : ℕ} (h : 0 < passes) (rows : List (Staged R E))
    (totals : Totals R E) :
    applySlices (applied g rows) (inPass g passes) passes totals = onePass g rows totals := by
  rw [onePass_eq]
  exact applySlices_eq (exists_inPass h)

theorem onePass_nil (totals : Totals R E) : onePass g [] totals = totals := by
  rw [onePass_eq]
  funext r
  cases totals r <;> simp [applied, folded, sum]

end Passes

section Counts

variable {g}

def reported (record : List (RackOccurrences R E)) (r : R) : ℕ :=
  ((record.filter (·.rack = r)).map (·.count)).sum

def occurrences (row : Staged R E) (r : R) : ℕ :=
  ((row.racks.filter (·.rack = r)).map (·.count)).sum

theorem occurrences_stagedRacks (id : ℕ) (record : List (RackOccurrences R E)) (r : R) :
    occurrences ⟨id, stagedRacks g record⟩ r = reported record r := by
  simp [occurrences, reported, stagedRacks, List.filter_map, Function.comp_def]

theorem sum_group (rows : List (Staged R E)) (r : R) :
    (((rows.flatMap (·.racks)).filter (·.rack = r)).map (·.count)).sum =
      (rows.map (occurrences · r)).sum := by
  induction rows with
  | nil => rfl
  | cons row rows ih => simp [List.filter_append, occurrences, ih]

theorem applied_count (rows : List (Staged R E)) (r : R) (p : Progress E) :
    ∃ p', applied g rows r (some p) = some p' ∧
      p'.occurrenceCount = p.occurrenceCount + (rows.map (occurrences · r)).sum := by
  rw [← sum_group]
  simp only [applied, folded]
  cases hgroup : (rows.flatMap (·.racks)).filter (·.rack = r) with
  | nil => exact ⟨p, by simp [sum], by simp⟩
  | cons x xs => exact ⟨_, rfl, rfl⟩

/-- The totals that successive merges, each in one pass, leave. -/
def mergedTotals (g : Generation R E) (merges : List (List (Staged R E))) : Totals R E :=
  merges.foldl (fun totals rows ↦ onePass g rows totals) (seededTotals g)

theorem mergedTotals_append (merges : List (List (Staged R E))) (rows : List (Staged R E)) :
    mergedTotals g (merges ++ [rows]) = onePass g rows (mergedTotals g merges) := by
  simp [mergedTotals]

theorem mergedTotals_count {r : R} (hr : r ∈ g.racks) (merges : List (List (Staged R E))) :
    ∃ p, mergedTotals g merges r = some p ∧
      p.occurrenceCount = (merges.flatten.map (occurrences · r)).sum := by
  induction merges using List.reverseRecOn with
  | nil => exact ⟨_, if_pos hr, rfl⟩
  | append_singleton merges rows ih =>
    obtain ⟨p, hp, hcount⟩ := ih
    obtain ⟨p', hp', hcount'⟩ := applied_count (g := g) rows r p
    refine ⟨p', ?_, ?_⟩
    · rw [mergedTotals_append, onePass_eq]
      simp only [hp, hp']
    · simp [hcount', hcount]

end Counts

section Invariant

variable {g} {s s' : State R E} {m m' : Running R E}

/-- What a running merge has done to the totals it found, at each of its statements. -/
structure RunningSound (g : Generation R E) (s : State R E) (m : Running R E) : Prop where
  ids : m.ids ⊆ s.staging.map (·.id)
  start : m.phase = .ids ∨ m.phase = .racksTotal → m.totals = s.totals
  pass {n : ℕ} : m.phase = .pass n → n ≤ m.passes ∧ (m.passes = 0 → m.ids = []) ∧
    m.totals = applySlices (applied g (taken s.staging m.ids)) (inPass g m.passes) n s.totals
  merged : m.phase = .summary ∨ m.phase = .commit →
    m.totals = onePass g (taken s.staging m.ids) s.totals

structure Sound (g : Generation R E) (s : State R E) : Prop where
  nodup : (ids s).Nodup
  perm : (s.accepted.map (stagedRacks g)).Perm ((s.merges.flatten ++ s.staging).map (·.racks))
  totals : s.totals = mergedTotals g s.merges
  running {m : Running R E} : s.running = some m → RunningSound g s m

theorem RunningSound.statement (h : RunningSound g s m)
    (hs : mergeStatement g s m = some m') : RunningSound g s m' := by
  unfold mergeStatement at hs
  split at hs
  · next hp =>
    cases hs
    refine ⟨fun _ ↦ id, fun _ ↦ h.start (.inl hp), fun hphase ↦ ?_, fun hphase ↦ ?_⟩
    · cases hphase
    · obtain hphase | hphase := hphase <;> cases hphase
  · next hp =>
    cases hs
    refine ⟨h.ids, fun hphase ↦ ?_, fun hn ↦ ?_, fun hphase ↦ ?_⟩
    · obtain hphase | hphase := hphase <;> cases hphase
    · cases hn
      refine ⟨Nat.zero_le _, fun hz ↦ ?_, h.start (.inr hp)⟩
      simp only at hz
      split at hz
      · next he => exact List.isEmpty_iff.1 he
      · exact absurd hz (passesFor_pos _ _).ne'
    · obtain hphase | hphase := hphase <;> cases hphase
  · next n hp =>
    obtain ⟨hn, hids, htotals⟩ := h.pass hp
    split at hs
    · next hlt =>
      cases hs
      refine ⟨h.ids, fun hphase ↦ ?_, fun hn' ↦ ?_, fun hphase ↦ ?_⟩
      · obtain hphase | hphase := hphase <;> cases hphase
      · cases hn'
        exact ⟨hlt, hids, by rw [applySlices, htotals]⟩
      · obtain hphase | hphase := hphase <;> cases hphase
    · next hnlt =>
      cases hs
      refine ⟨h.ids, fun hphase ↦ ?_, fun hphase ↦ ?_, fun _ ↦ ?_⟩
      · obtain hphase | hphase := hphase <;> cases hphase
      · cases hphase
      · have hlast : n = m.passes := by omega
        rw [hlast] at htotals
        rcases Nat.eq_zero_or_pos m.passes with hz | hpos
        · have htaken : taken s.staging m.ids = [] := by simp [taken, hids hz]
          simp only
          rw [htotals, hz, htaken, onePass_nil, applySlices]
        · exact htotals.trans (applySlices_inPass hpos _ _)
  · next hp =>
    cases hs
    refine ⟨h.ids, fun hphase ↦ ?_, fun hphase ↦ ?_, fun _ ↦ h.merged (.inl hp)⟩
    · obtain hphase | hphase := hphase <;> cases hphase
    · cases hphase
  · cases hs

theorem RunningSound.stage (h : RunningSound g s m) {id : ℕ} {racks : List (StagedRack R E)}
    (hid : id ∉ Merge.ids s) {accepted : List (List (RackOccurrences R E))} :
    RunningSound g { s with staging := s.staging ++ [⟨id, racks⟩], accepted := accepted } m := by
  have hnot : id ∉ m.ids := by
    intro hmem
    have := h.ids hmem
    simp only [Merge.ids, List.map_append, List.mem_append, not_or] at hid
    exact hid.2 this
  have htaken : taken (s.staging ++ [⟨id, racks⟩]) m.ids = taken s.staging m.ids := by
    simp [taken, hnot]
  refine ⟨fun x hx ↦ ?_, h.start, ?_, ?_⟩
  · simpa using .inl (by simpa using h.ids hx)
  · simp only [htaken]
    exact h.pass
  · simp only [htaken]
    exact h.merged

theorem Sound.next (h : Sound g s) {a : Action R E} (hs : next g s a = some s') : Sound g s' := by
  cases a with
  | stage id record =>
    obtain ⟨hid, hs⟩ := Option.ite_none_right_eq_some.1 hs
    cases hs
    refine ⟨?_, ?_, h.totals, fun hm ↦ (h.running hm).stage hid⟩
    · have hids : ids { s with
          staging := s.staging ++ [⟨id, stagedRacks g record⟩]
          accepted := s.accepted ++ [record] } = ids s ++ [id] := by
        simp [ids]
      rw [hids]
      refine List.nodup_append.2 ⟨h.nodup, by simp, fun x hx y hy hxy ↦ hid ?_⟩
      rwa [← List.mem_singleton.1 hy, ← hxy]
    · simp only [List.map_append, List.map_cons, List.map_nil, ← List.append_assoc]
      exact (by simpa using h.perm : (s.accepted.map (stagedRacks g)).Perm _).append_right _
  | lock racksPerPass =>
    simp only [Merge.next] at hs
    split at hs <;> cases hs
    refine ⟨h.nodup, h.perm, h.totals, fun hm ↦ ?_⟩
    cases hm
    exact ⟨nofun, fun _ ↦ rfl, nofun, nofun⟩
  | statement =>
    obtain ⟨m, hm, hs⟩ := Option.bind_eq_some_iff.1 hs
    obtain ⟨m', hm', rfl⟩ := Option.map_eq_some_iff.1 hs
    refine ⟨h.nodup, h.perm, h.totals, fun hm₁ ↦ ?_⟩
    cases hm₁
    have := (h.running hm).statement hm'
    exact ⟨this.ids, this.start, this.pass, this.merged⟩
  | commit =>
    obtain ⟨m, hm, hs⟩ := Option.bind_eq_some_iff.1 hs
    split at hs <;> cases hs
    next hp =>
    -- The rows taken and the rows left are the rows staged.
    have hsplit : (taken s.staging m.ids ++ s.staging.filter (·.id ∉ m.ids)).Perm s.staging := by
      have := List.filter_append_perm (fun row : Staged R E ↦ decide (row.id ∈ m.ids)) s.staging
      simpa [taken] using this
    have hrows : ((s.merges ++ [taken s.staging m.ids]).flatten ++
        s.staging.filter (·.id ∉ m.ids)).Perm (s.merges.flatten ++ s.staging) := by
      simpa using hsplit.append_left s.merges.flatten
    refine ⟨(hrows.map _).nodup_iff.2 h.nodup, h.perm.trans (hrows.map _).symm, ?_, nofun⟩
    simp only
    rw [mergedTotals_append, ← h.totals, (h.running hm).merged (.inr hp)]
  | rollback =>
    obtain ⟨m, hm, rfl⟩ := Option.map_eq_some_iff.1 hs
    exact ⟨h.nodup, h.perm, h.totals, nofun⟩

theorem sound_of_reachable (h : (machine g).Reachable s) : Sound g s := by
  refine h.invariant ?_ fun _ _ _ hi _ hs ↦ hi.next hs
  rintro s ⟨htotals, hstaging, hrunning, haccepted, hmerges⟩
  exact ⟨by simp [ids, hstaging, hmerges], by simp [hstaging, haccepted, hmerges],
    by rw [htotals, hmerges]; rfl, by simp [hrunning]⟩

/-- What is staged and what has been merged of a rack is what was accepted of it. -/
theorem Sound.count (h : Sound g s) {r : R} (hr : r ∈ g.racks) :
    ∃ p, s.totals r = some p ∧ p.occurrenceCount + (s.staging.map (occurrences · r)).sum =
      (s.accepted.map (reported · r)).sum := by
  obtain ⟨p, hp, hcount⟩ := mergedTotals_count hr s.merges
  refine ⟨p, h.totals ▸ hp, ?_⟩
  have hperm := (h.perm.map fun racks : List (StagedRack R E) ↦ occurrences ⟨0, racks⟩ r).sum_eq
  simp only [List.map_map, Function.comp_def, occurrences_stagedRacks] at hperm
  rw [hperm, hcount, List.map_append, List.sum_append]
  rfl

end Invariant

variable {g} {s : State R E}

/-- Staged results are merged exactly once. In every state the accepted results are, one
each, the rows merged so far and the rows staged; the totals are those of the merges so far,
each made in one pass; and every merge that commits, in whatever passes, leaves the totals
that one pass over the rows it took leaves. -/
theorem merged_once (h : (machine g).Reachable s) :
    (ids s).Nodup ∧
    (s.accepted.map (stagedRacks g)).Perm ((s.merges.flatten ++ s.staging).map (·.racks)) ∧
    s.totals = mergedTotals g s.merges ∧
    (∀ r ∈ g.racks, ∃ p, s.totals r = some p ∧
      p.occurrenceCount + (s.staging.map (occurrences · r)).sum =
        (s.accepted.map (reported · r)).sum) ∧
    ∀ m s', s.running = some m → next g s .commit = some s' →
      s'.totals = onePass g (taken s.staging m.ids) s.totals ∧
      s'.merges = s.merges ++ [taken s.staging m.ids] ∧
      s'.staging = s.staging.filter (·.id ∉ m.ids) := by
  have hsound := sound_of_reachable h
  refine ⟨hsound.nodup, hsound.perm, hsound.totals, fun r hr ↦ hsound.count hr,
    fun m s' hm hs ↦ ?_⟩
  obtain ⟨m', hm', hs⟩ := Option.bind_eq_some_iff.1 hs
  rw [hm, Option.some.injEq] at hm'
  subst hm'
  split at hs <;> cases hs
  next hp => exact ⟨(hsound.running hm).merged (.inr hp), rfl, rfl⟩

section ThreeRacks

def threeRacks : Generation ℕ ℕ where
  racks := [0, 1, 2]
  nodup := by decide
  hash := BitVec.ofNat 32
  arithmetic := ⟨0, (· + ·), (· * ·)⟩

def mergeInThreePasses : List (Action ℕ ℕ) :=
  [.stage 1 [⟨0, 2, 5⟩, ⟨2, 1, 7⟩, ⟨9, 4, 1⟩], .lock 1, .statement, .statement, .statement,
    .stage 2 [⟨0, 3, 4⟩, ⟨1, 1, 6⟩], .statement, .statement, .statement, .statement, .commit]

theorem exists_merged_once : ∃ s, (machine threeRacks).Reachable s ∧
    s.staging.map (·.id) = [2] ∧ s.merges.map (List.map (·.id)) = [[1]] ∧
    ∃ p, s.totals 0 = some p ∧ p.occurrenceCount + (s.staging.map (occurrences · 0)).sum =
      (s.accepted.map (reported · 0)).sum := by
  have hstart : (machine threeRacks).Reachable
      ⟨seededTotals threeRacks, [], some 3, none, [], []⟩ := .start ⟨rfl, rfl, rfl, rfl, rfl⟩
  obtain ⟨s, hs, hp⟩ := hstart.follow_any mergeInThreePasses
    (fun s ↦ s.staging.map (·.id) = [2] ∧ s.merges.map (List.map (·.id)) = [[1]]) (by decide)
  obtain ⟨hstaging, hmerges⟩ := of_decide_eq_true hp
  exact ⟨s, hs, hstaging, hmerges, (merged_once hs).2.2.2.1 0 (by decide)⟩

end ThreeRacks

end Birdtest.Jobs.LeaveGen.Merge
