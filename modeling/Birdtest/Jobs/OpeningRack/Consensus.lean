import Birdtest.Base.Runs
import Birdtest.Base.Tables
import Mathlib.Algebra.BigOperators.Group.List.Lemmas
import Mathlib.Data.List.Dedup
import Mathlib.Data.Prod.Lex
import Mathlib.Order.Compare

namespace Birdtest.Jobs.OpeningRack.Consensus

open Birdtest.Base.Runs Birdtest.Base.Tables

variable {R M F : Type}

/-- The operations of a double that the share's comparison makes, in the server and in the
database: no law of them is used. -/
structure Arithmetic (F : Type) where
  ofInt32 : Int32 → F
  mul : F → F → F
  hundred : F
  ge : F → F → Bool
  /-- Finite, above 50 and at most 100. -/
  isShare : F → Bool

structure ConsensusSettings (F : Type) where
  consensusPct : F
  minResultsPerRack : Int32
  maxResultsPerRack : Int32

structure RackStanding (M : Type) where
  results : Int32
  topMove : M
  topCount : Int32
  settled : Bool
  withoutConsensus : Bool
  deriving DecidableEq

def maxResults : Int32 := 100

def ConsensusSettings.isValid (arithmetic : Arithmetic F) (settings : ConsensusSettings F) : Bool :=
  arithmetic.isShare settings.consensusPct &&
    (1 ≤ settings.minResultsPerRack && settings.minResultsPerRack ≤ maxResults) &&
    (settings.minResultsPerRack ≤ settings.maxResultsPerRack &&
      settings.maxResultsPerRack ≤ maxResults)

def ConsensusSettings.reissues (settings : ConsensusSettings F) : Bool :=
  1 < settings.maxResultsPerRack

section Top

variable [LinearOrder M]

/-- `a.cmp(b).then_with(|| b_move.cmp(a_move))` -/
def compareTop (a b : M × Int32) : Ordering :=
  (compare a.2.toInt b.2.toInt).then (compare b.1 a.1)

def maxBy : List (M × Int32) → Option (M × Int32)
  | [] => none
  | a :: l => some (l.foldl (fun a b ↦ if compareTop a b = .gt then a else b) a)

def key (a : M × Int32) : ℤ ×ₗ Mᵒᵈ := toLex (a.2.toInt, OrderDual.toDual a.1)

omit [LinearOrder M] in
theorem key_injective : Function.Injective (key (M := M)) := by
  rintro ⟨m, n⟩ ⟨m', n'⟩ h
  have h' := congrArg ofLex h
  simp only [key, ofLex_toLex, Prod.mk.injEq, OrderDual.toDual_inj, Int32.toInt_inj] at h'
  rw [h'.1, h'.2]

theorem compareTop_eq_gt {a b : M × Int32} : compareTop a b = .gt ↔ key b < key a := by
  rw [compareTop, Ordering.then_eq_gt, compare_gt_iff_gt, compare_eq_iff_eq, compare_gt_iff_gt,
    key, key, Prod.Lex.toLex_lt_toLex]
  simp only [OrderDual.toDual_lt_toDual, eq_comm]

theorem foldl_top_spec (l : List (M × Int32)) (a : M × Int32) :
    (l.foldl (fun a b ↦ if compareTop a b = .gt then a else b) a) ∈ a :: l ∧
      ∀ b ∈ a :: l, key b ≤ key (l.foldl (fun a b ↦ if compareTop a b = .gt then a else b) a) := by
  induction l generalizing a with
  | nil => simp
  | cons b l ih =>
    rw [List.foldl_cons]
    split
    · next hgt =>
      obtain ⟨hmem, hle⟩ := ih a
      refine ⟨by rcases List.mem_cons.1 hmem with h | h <;> simp [h], fun c hc ↦ ?_⟩
      rcases List.mem_cons.1 hc with rfl | hc
      · exact hle _ List.mem_cons_self
      rcases List.mem_cons.1 hc with rfl | hc
      · exact (compareTop_eq_gt.1 hgt).le.trans (hle _ List.mem_cons_self)
      · exact hle _ (List.mem_cons_of_mem _ hc)
    · next hgt =>
      obtain ⟨hmem, hle⟩ := ih b
      refine ⟨List.mem_cons_of_mem _ hmem, fun c hc ↦ ?_⟩
      rcases List.mem_cons.1 hc with rfl | hc
      · exact (not_lt.1 (mt compareTop_eq_gt.2 hgt)).trans (hle _ List.mem_cons_self)
      · exact hle _ hc

theorem maxBy_spec {l : List (M × Int32)} {a : M × Int32} (h : maxBy l = some a) :
    a ∈ l ∧ ∀ b ∈ l, key b ≤ key a := by
  cases l with
  | nil => cases h
  | cons b l =>
    rw [maxBy, Option.some.injEq] at h
    subst h
    exact foldl_top_spec l b

theorem maxBy_isSome {l : List (M × Int32)} : (maxBy l).isSome = !l.isEmpty := by
  cases l <;> rfl

/-- The top of a tally does not depend on the order in which a map lists it. -/
theorem maxBy_perm {l l' : List (M × Int32)} (h : l.Perm l') : maxBy l = maxBy l' := by
  have hsome : (maxBy l).isSome = (maxBy l').isSome := by
    rw [maxBy_isSome, maxBy_isSome, h.isEmpty_eq]
  cases ha : maxBy l <;> cases hb : maxBy l' <;> simp only [ha, hb, Option.isSome] at hsome
  · rfl
  · cases hsome
  · cases hsome
  · obtain ⟨hmem, hle⟩ := maxBy_spec ha
    obtain ⟨hmem', hle'⟩ := maxBy_spec hb
    rw [key_injective ((hle' _ (h.mem_iff.1 hmem)).antisymm (hle _ (h.mem_iff.2 hmem')))]

end Top

section Standing

variable [LinearOrder M] (arithmetic : Arithmetic F) (settings : ConsensusSettings F)

def standing (firsts : List (M × Int32)) : Option (RackStanding M) :=
  let results := (firsts.map Prod.snd).sum
  (maxBy firsts).map fun (topMove, topCount) ↦
    let agreed : Bool := settings.minResultsPerRack ≤ results &&
      arithmetic.ge (arithmetic.mul (arithmetic.ofInt32 topCount) arithmetic.hundred)
        (arithmetic.mul settings.consensusPct (arithmetic.ofInt32 results))
    let settled : Bool := agreed || settings.maxResultsPerRack ≤ results
    ⟨results, topMove, topCount, settled, settled && !agreed⟩

/-- The rule of `restate_racks`, on a row and the counts it keeps. -/
def restated (row : RackStanding M) : RackStanding M :=
  let agreed : Bool := settings.minResultsPerRack ≤ row.results &&
    arithmetic.ge (arithmetic.mul (arithmetic.ofInt32 row.topCount) arithmetic.hundred)
      (arithmetic.mul settings.consensusPct (arithmetic.ofInt32 row.results))
  let atMost : Bool := settings.maxResultsPerRack ≤ row.results
  if (row.settled, row.withoutConsensus) = (agreed || atMost, atMost && !agreed) then row
  else { row with settled := agreed || atMost, withoutConsensus := atMost && !agreed }

variable {arithmetic settings}

theorem sum_perm {l l' : List Int32} (h : l.Perm l') : l.sum = l'.sum := h.foldr_eq 0

theorem standing_perm {firsts firsts' : List (M × Int32)} (h : firsts.Perm firsts') :
    standing arithmetic settings firsts = standing arithmetic settings firsts' := by
  simp only [standing, maxBy_perm h, sum_perm (h.map Prod.snd)]

theorem standing_isSome {firsts : List (M × Int32)} :
    (standing arithmetic settings firsts).isSome = !firsts.isEmpty := by
  rw [standing, Option.isSome_map, maxBy_isSome]

omit [LinearOrder M] in
theorem ite_restated (row : RackStanding M) (agreed atMost : Bool) :
    (if (row.settled, row.withoutConsensus) = (agreed || atMost, atMost && !agreed) then row
      else { row with settled := agreed || atMost, withoutConsensus := atMost && !agreed }) =
      { row with
        settled := agreed || atMost
        withoutConsensus := (agreed || atMost) && !agreed } := by
  have hwithout : (atMost && !agreed) = ((agreed || atMost) && !agreed) := by
    cases agreed <;> cases atMost <;> rfl
  split
  · next heq =>
    obtain ⟨hsettled, hnone⟩ := Prod.mk.inj heq
    rw [← hwithout, ← hsettled, ← hnone]
  · rw [hwithout]

/-- The rule in the database is the rule in the server, whatever the settings before. -/
theorem restated_standing {settings' : ConsensusSettings F} {firsts : List (M × Int32)} :
    (standing arithmetic settings firsts).map (restated arithmetic settings') =
      standing arithmetic settings' firsts := by
  simp only [standing, Option.map_map]
  congr 1
  funext ⟨topMove, topCount⟩
  exact ite_restated _ _ _

end Standing

/-- A job's settings, its accepted analyses by the move that each ranked first, its progress
rows and its running totals. -/
structure Job (R M F : Type) where
  settings : ConsensusSettings F
  analyses : List (R × M)
  progress : Table R (RackStanding M)
  racksAnalyzed : ℤ
  racksSettled : ℤ
  racksWithoutConsensus : ℤ

structure RackTally where
  analysed : ℤ
  settled : ℤ
  withoutConsensus : ℤ

section Record

variable [DecidableEq R] [LinearOrder M] (arithmetic : Arithmetic F)

def plays (analyses : List (R × M)) (rack : R) : List M :=
  (analyses.filter (·.1 = rack)).map Prod.snd

def firsts (analyses : List (R × M)) (rack : R) : List (M × Int32) :=
  (plays analyses rack).dedup.map fun play ↦ (play, Int32.ofNat ((plays analyses rack).count play))

/-- A rack of the batch: what it adds to the tally, and its row. An error names a rack that
has no stored analysis. -/
def recordRack (job : Job R M F) (acc : RackTally × List (R × RackStanding M)) (rack : R) :
    Except R (RackTally × List (R × RackStanding M)) :=
  match standing arithmetic job.settings (firsts job.analyses rack) with
  | none => .error rack
  | some now =>
    let was := job.progress.get rack
    let tally := acc.1
    .ok (⟨tally.analysed + (true.toNat - (was.any fun _ ↦ true).toNat),
      tally.settled + (now.settled.toNat - (was.any (·.settled)).toNat),
      tally.withoutConsensus +
        (now.withoutConsensus.toNat - (was.any (·.withoutConsensus)).toNat)⟩,
      acc.2 ++ [(rack, now)])

def recordConsensus (job : Job R M F) (racks : List R) :
    Except R (RackTally × Table R (RackStanding M)) :=
  (racks.dedup.foldlM (recordRack arithmetic job) (⟨0, 0, 0⟩, [])).map fun (tally, rows) ↦
    (tally, job.progress.putAll rows)

/-- An accepted batch: its analyses are stored, and then its racks' consensus. -/
def accept (job : Job R M F) (batch : List (R × M)) : Except R (Job R M F) :=
  let stored := { job with analyses := job.analyses ++ batch }
  (recordConsensus arithmetic stored (batch.map Prod.fst)).map fun (tally, progress) ↦
    { stored with
      progress
      racksAnalyzed := job.racksAnalyzed + tally.analysed
      racksSettled := job.racksSettled + tally.settled
      racksWithoutConsensus := job.racksWithoutConsensus + tally.withoutConsensus }

def restateRacks (job : Job R M F) (settings : ConsensusSettings F) : Job R M F :=
  let progress := job.progress.map (restated arithmetic settings)
  { job with
    settings
    progress
    racksSettled := progress.count (·.settled)
    racksWithoutConsensus := progress.count (·.withoutConsensus) }

inductive Action (R M F : Type)
  | accept (batch : List (R × M))
  | edit (settings : ConsensusSettings F)

def next (job : Job R M F) : Action R M F → Option (Job R M F)
  | .accept batch => (accept arithmetic job batch).toOption
  | .edit settings => some (restateRacks arithmetic job settings)

def empty (job : Job R M F) : Prop :=
  job.analyses = [] ∧ job.progress = .empty ∧ job.racksAnalyzed = 0 ∧ job.racksSettled = 0 ∧
    job.racksWithoutConsensus = 0

def machine : Machine (Job R M F) (Action R M F) := ⟨empty, next arithmetic⟩

end Record

section Plays

variable [DecidableEq R]

theorem plays_append (analyses batch : List (R × M)) (rack : R) :
    plays (analyses ++ batch) rack = plays analyses rack ++ plays batch rack := by
  simp only [plays, List.filter_append, List.map_append]

theorem length_plays {analyses : List (R × M)} {racks : List R} (rack : R)
    (hperm : (analyses.map Prod.fst).Perm racks) (hnodup : racks.Nodup) :
    (rack ∈ racks → (plays analyses rack).length = 1) ∧
      (rack ∉ racks → (plays analyses rack).length = 0) := by
  have hcount : (plays analyses rack).length = racks.count rack := by
    rw [← hperm.count_eq, plays, List.length_map, ← List.countP_eq_length_filter, List.count,
      List.countP_map]
    exact List.countP_congr fun analysis _ ↦ by simp
  rw [hcount]
  exact ⟨List.count_eq_one_of_mem hnodup, List.count_eq_zero_of_not_mem⟩

theorem plays_eq_nil {analyses : List (R × M)} {rack : R} :
    plays analyses rack = [] ↔ rack ∉ analyses.map Prod.fst := by
  rw [plays, List.map_eq_nil_iff, List.filter_eq_nil_iff, List.mem_map]
  simp only [decide_eq_true_eq, not_exists, not_and]

variable [LinearOrder M]

theorem firsts_eq_nil {analyses : List (R × M)} {rack : R} :
    firsts analyses rack = [] ↔ rack ∉ analyses.map Prod.fst := by
  rw [← plays_eq_nil, firsts, List.map_eq_nil_iff, List.dedup_eq_nil]

theorem firsts_congr {analyses analyses' : List (R × M)} {rack : R}
    (h : plays analyses rack = plays analyses' rack) :
    firsts analyses rack = firsts analyses' rack := by
  rw [firsts, firsts, h]

end Plays

section Recorded

variable [DecidableEq R] [LinearOrder M] {arithmetic : Arithmetic F} {job job' : Job R M F}

def change (job : Job R M F) (p : RackStanding M → Bool) (rows : List (R × RackStanding M)) : ℤ :=
  (rows.map fun row ↦ ((p row.2).toNat : ℤ) - ((job.progress.get row.1).any p).toNat).sum

theorem recordRacks_spec (arithmetic : Arithmetic F) (job : Job R M F) {racks : List R}
    (h : ∀ rack ∈ racks, rack ∈ job.analyses.map Prod.fst)
    (acc : RackTally × List (R × RackStanding M)) : ∃ rows : List (R × RackStanding M),
      racks.foldlM (recordRack arithmetic job) acc =
        .ok (⟨acc.1.analysed + change job (fun _ ↦ true) rows,
          acc.1.settled + change job (·.settled) rows,
          acc.1.withoutConsensus + change job (·.withoutConsensus) rows⟩, acc.2 ++ rows) ∧
      rows.map Prod.fst = racks ∧
      ∀ rack row, (rack, row) ∈ rows →
        standing arithmetic job.settings (firsts job.analyses rack) = some row := by
  induction racks generalizing acc with
  | nil => exact ⟨[], by simp [change, pure, Except.pure], rfl, nofun⟩
  | cons rack racks ih =>
    obtain ⟨now, hnow⟩ : ∃ now,
        standing arithmetic job.settings (firsts job.analyses rack) = some now := by
      rw [← Option.isSome_iff_exists, standing_isSome, Bool.not_eq_true', List.isEmpty_eq_false_iff]
      exact mt firsts_eq_nil.1 (not_not.2 (h rack List.mem_cons_self))
    obtain ⟨rows, hrows, hkeys, hstanding⟩ :=
      ih (fun rack' hrack' ↦ h rack' (List.mem_cons_of_mem _ hrack'))
        (⟨acc.1.analysed + (true.toNat - ((job.progress.get rack).any fun _ ↦ true).toNat),
          acc.1.settled + (now.settled.toNat - ((job.progress.get rack).any (·.settled)).toNat),
          acc.1.withoutConsensus +
            (now.withoutConsensus.toNat - ((job.progress.get rack).any
              (·.withoutConsensus)).toNat)⟩,
          acc.2 ++ [(rack, now)])
    refine ⟨(rack, now) :: rows, ?_, by rw [List.map_cons, hkeys], ?_⟩
    · rw [List.foldlM_cons, recordRack, hnow]
      refine hrows.trans ?_
      simp only [change, List.map_cons, List.sum_cons, Int.add_assoc, List.append_assoc,
        List.singleton_append]
    · intro rack' row hrow
      rcases List.mem_cons.1 hrow with heq | hrow
      · cases heq
        exact hnow
      · exact hstanding rack' row hrow

/-- Every row is the standing of its rack's analyses, every total the number of its rows. -/
structure Recorded (arithmetic : Arithmetic F) (job : Job R M F) : Prop where
  row : ∀ rack, job.progress.get rack =
    standing arithmetic job.settings (firsts job.analyses rack)
  racksAnalyzed : job.racksAnalyzed = job.progress.count fun _ ↦ true
  racksSettled : job.racksSettled = job.progress.count (·.settled)
  racksWithoutConsensus : job.racksWithoutConsensus = job.progress.count (·.withoutConsensus)

theorem accept_spec (arithmetic : Arithmetic F) (job : Job R M F) (batch : List (R × M)) :
    ∃ rows : List (R × RackStanding M),
      accept arithmetic job batch = .ok { job with
        analyses := job.analyses ++ batch
        progress := job.progress.putAll rows
        racksAnalyzed := job.racksAnalyzed + change job (fun _ ↦ true) rows
        racksSettled := job.racksSettled + change job (·.settled) rows
        racksWithoutConsensus :=
          job.racksWithoutConsensus + change job (·.withoutConsensus) rows } ∧
      rows.map Prod.fst = (batch.map Prod.fst).dedup ∧
      ∀ rack row, (rack, row) ∈ rows →
        standing arithmetic job.settings (firsts (job.analyses ++ batch) rack) = some row := by
  have h : ∀ rack ∈ (batch.map Prod.fst).dedup, rack ∈ (job.analyses ++ batch).map Prod.fst := by
    intro rack hrack
    rw [List.map_append]
    exact List.mem_append_right _ (List.mem_dedup.1 hrack)
  obtain ⟨rows, hrows, hkeys, hstanding⟩ := recordRacks_spec arithmetic
    { job with analyses := job.analyses ++ batch } h (⟨0, 0, 0⟩, [])
  refine ⟨rows, ?_, hkeys, hstanding⟩
  rw [accept, recordConsensus, hrows]
  simp only [Except.map, Int.zero_add, List.nil_append]
  rfl

theorem Recorded.accept (h : Recorded arithmetic job) (batch : List (R × M))
    (hs : Consensus.accept arithmetic job batch = .ok job') : Recorded arithmetic job' := by
  obtain ⟨rows, hrows, hkeys, hstanding⟩ := accept_spec arithmetic job batch
  have hnodup : (rows.map Prod.fst).Nodup := hkeys ▸ List.nodup_dedup _
  rw [hrows, Except.ok.injEq] at hs
  subst hs
  refine ⟨fun rack ↦ ?_, ?_, ?_, ?_⟩
  · by_cases hrack : rack ∈ rows.map Prod.fst
    · obtain ⟨⟨rack', row⟩, hrow, rfl⟩ := List.mem_map.1 hrack
      exact (Table.get_putAll_of_mem hnodup hrow).trans (hstanding _ _ hrow).symm
    · -- A rack that the batch does not hold keeps its analyses, and its row.
      rw [Table.get_putAll_of_not_mem hrack, h.row rack]
      congr 1
      refine firsts_congr ?_
      rw [hkeys, List.mem_dedup] at hrack
      rw [plays_append, plays_eq_nil.2 hrack, List.append_nil]
  · rw [h.racksAnalyzed]
    exact (Table.count_putAll hnodup).symm
  · rw [h.racksSettled]
    exact (Table.count_putAll hnodup).symm
  · rw [h.racksWithoutConsensus]
    exact (Table.count_putAll hnodup).symm

theorem Recorded.restateRacks (h : Recorded arithmetic job) (settings : ConsensusSettings F) :
    Recorded arithmetic (Consensus.restateRacks arithmetic job settings) := by
  refine ⟨fun rack ↦ ?_, ?_, rfl, rfl⟩
  · exact Table.get_map.trans ((congrArg _ (h.row rack)).trans restated_standing)
  · have hcount := Table.count_map (t := job.progress) (f := restated arithmetic settings)
      (p := fun _ ↦ true)
    exact h.racksAnalyzed.trans (congrArg _ hcount.symm)

theorem recorded_of_reachable (h : (machine arithmetic).Reachable job) :
    Recorded arithmetic job := by
  refine h.invariant ?_ fun job a job' hi _ hs ↦ ?_
  · rintro job ⟨hanalyses, hprogress, hanalyzed, hsettled, hwithout⟩
    refine ⟨fun rack ↦ ?_, by rw [hanalyzed, hprogress]; rfl, by rw [hsettled, hprogress]; rfl,
      by rw [hwithout, hprogress]; rfl⟩
    rw [hanalyses, hprogress]
    rfl
  · cases a with
    | accept batch =>
      obtain ⟨rows, hrows, -⟩ := accept_spec arithmetic job batch
      change (Consensus.accept arithmetic job batch).toOption = some job' at hs
      refine hi.accept batch ?_
      rw [hrows] at hs ⊢
      exact congrArg _ (Option.some.inj hs)
    | edit settings =>
      cases hs
      exact hi.restateRacks settings

end Recorded

section Results

variable [DecidableEq R] [LinearOrder M] {arithmetic : Arithmetic F}
  {settings : ConsensusSettings F}
variable {analyses : List (R × M)} {rack : R} {row : RackStanding M}

theorem sum_firsts :
    ((firsts analyses rack).map Prod.snd).sum = Int32.ofNat (plays analyses rack).length := by
  have hsum (l : List ℕ) : (l.map Int32.ofNat).sum = Int32.ofNat l.sum := by
    induction l with
    | nil => rfl
    | cons n l ih => rw [List.map_cons, List.sum_cons, ih, List.sum_cons, Int32.ofNat_add]
  rw [← List.sum_map_count_dedup_eq_length, ← hsum, firsts, List.map_map, List.map_map]
  rfl

theorem length_lt_of_unsettled
    (h : standing arithmetic settings (firsts analyses rack) = some row)
    (hle : (plays analyses rack).length ≤ 100) (hrow : row.settled = false) :
    ((plays analyses rack).length : ℤ) < settings.maxResultsPerRack.toInt := by
  obtain ⟨⟨topMove, topCount⟩, -, hstanding⟩ := Option.map_eq_some_iff.1 h
  have hsettled := congrArg RackStanding.settled hstanding
  rw [hrow] at hsettled
  have hmax := (Bool.or_eq_false_iff.1 hsettled).2
  rw [decide_eq_false_iff_not, Int32.le_iff_toInt_le, sum_firsts,
    Int32.toInt_ofNat_of_lt (by omega)] at hmax
  omega

theorem ConsensusSettings.results_of_isValid (h : settings.isValid arithmetic = true) :
    1 ≤ settings.maxResultsPerRack.toInt ∧ settings.maxResultsPerRack.toInt ≤ 100 := by
  simp only [ConsensusSettings.isValid, Bool.and_eq_true, decide_eq_true_eq,
    Int32.le_iff_toInt_le] at h
  obtain ⟨⟨-, hmin, -⟩, hle, hmax⟩ := h
  exact ⟨hmin.trans hle, hmax⟩

theorem ConsensusSettings.not_reissues (h : settings.reissues = false) :
    settings.maxResultsPerRack.toInt ≤ 1 := by
  rw [ConsensusSettings.reissues, decide_eq_false_iff_not, Int32.lt_iff_toInt_lt] at h
  exact Int.not_lt.1 h

end Results

section Claim

variable [DecidableEq R] [LinearOrder M] {arithmetic : Arithmetic F} {job : Job R M F}

/-- After any sequence of batches and edits: whatever the order a map lists a rack's tally in,
the rack's row is its standing under the present settings; the three totals are the numbers of
rows; no batch fails for want of an analysis; and restating a row, under any settings, is the
standing of its tally under them. -/
theorem consensus_recorded (h : (machine arithmetic).Reachable job) :
    (∀ rack tally, tally.Perm (firsts job.analyses rack) →
      job.progress.get rack = standing arithmetic job.settings tally) ∧
    job.racksAnalyzed = job.progress.count (fun _ ↦ true) ∧
    job.racksSettled = job.progress.count (·.settled) ∧
    job.racksWithoutConsensus = job.progress.count (·.withoutConsensus) ∧
    (∀ batch, ∃ job', accept arithmetic job batch = .ok job') ∧
    ∀ (settings settings' : ConsensusSettings F) (tally : List (M × Int32)),
      (standing arithmetic settings tally).map (restated arithmetic settings') =
        standing arithmetic settings' tally := by
  have hrecorded := recorded_of_reachable h
  refine ⟨fun rack tally hperm ↦ ?_, hrecorded.racksAnalyzed, hrecorded.racksSettled,
    hrecorded.racksWithoutConsensus, fun batch ↦ ?_, fun _ _ _ ↦ restated_standing⟩
  · rw [hrecorded.row rack, standing_perm hperm]
  · obtain ⟨rows, hrows, -⟩ := accept_spec arithmetic job batch
    exact ⟨_, hrows⟩

/-- Doubles on whole numbers small enough to be exact. -/
def wholeNumbers : Arithmetic ℤ :=
  ⟨Int32.toInt, (· * ·), 100, fun a b ↦ b ≤ a, fun a ↦ 50 < a ∧ a ≤ 100⟩

/-- A rack settled at its first analysis is open again under settings that want two, and given
up once it has two that differ. -/
theorem exists_consensus_recorded : ∃ job : Job ℕ ℕ ℤ, (machine wholeNumbers).Reachable job ∧
    job.racksWithoutConsensus = 1 ∧ job.progress.get 1 = some ⟨2, 10, 1, true, true⟩ ∧
    job.racksSettled = job.progress.count (·.settled) := by
  have hstart : (machine wholeNumbers).Reachable (⟨⟨100, 1, 1⟩, [], .empty, 0, 0, 0⟩ : Job ℕ ℕ ℤ) :=
    .start ⟨rfl, rfl, rfl, rfl, rfl⟩
  obtain ⟨job, hjob, hp⟩ := hstart.follow_any
    [.accept [(1, 11), (2, 10)], .edit ⟨60, 2, 2⟩, .accept [(1, 10)]]
    (fun job ↦ job.racksWithoutConsensus = 1 ∧
      job.progress.get 1 = some ⟨2, 10, 1, true, true⟩) (by decide)
  obtain ⟨hwithout, hrow⟩ := of_decide_eq_true hp
  exact ⟨job, hjob, hwithout, hrow, (consensus_recorded hjob).2.2.1⟩

end Claim

end Birdtest.Jobs.OpeningRack.Consensus
