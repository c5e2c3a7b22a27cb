import Birdtest.Jobs.OpeningRack.Slots
import Mathlib.Order.CompletePartialOrder
import Mathlib.Order.Interval.Set.Disjoint

namespace Birdtest.Jobs.OpeningRack.Dispatch

open Birdtest.Base.Bags Birdtest.Base.Runs Birdtest.Base.Tables Birdtest.Base.Checked
open Birdtest.Base.Batches
open Birdtest.Jobs.Racks Birdtest.Jobs.Registry Birdtest.Jobs.OpeningRack.Consensus
  Birdtest.Jobs.OpeningRack.Requests

variable {I M F : Type} [DecidableEq I] [LinearOrder M] {arithmetic : Arithmetic F}
variable {config : OpeningRackConfig} {order : List Text} {s : State I M F}

def seedsOf (index : RackIndex) (task : Task I Request) : Set ℤ :=
  {seed | ∃ racks, taskRacks index task.request = .ok racks ∧
    task.seed ≤ seed ∧ seed < task.seed + racks.length}

section Places

omit [DecidableEq I] in
theorem Inv.fits (h : Inv arithmetic config order s) {i : ℕ} {task : Task I Request}
    (hi : s.tasks[i]? = some task) : Fits config order i task.slot :=
  h.sound.fits (getElem?_slots hi)

omit [DecidableEq I] in
theorem Inv.seed_lt (h : Inv arithmetic config order s) {i : ℕ} {task : Task I Request}
    (hi : s.tasks[i]? = some task) {racks : List Text}
    (hracks : taskRacks config.index task.request = .ok racks) :
    task.seed = ((i * config.racksPerBatch : ℕ) : ℤ) ∧
      task.seed + racks.length ≤ (((i + 1) * config.racksPerBatch : ℕ) : ℤ) := by
  have hfits := h.fits hi
  have hlength := hfits.length_le
  rw [racksOf_eq hracks] at hlength
  have hseed : task.seed = ((i * config.racksPerBatch : ℕ) : ℤ) := hfits.seed
  refine ⟨hseed, ?_⟩
  rw [hseed, Nat.succ_mul]
  omega

theorem eq_of_window {b i j : ℕ} {seed : ℤ} (hi : ((i * b : ℕ) : ℤ) ≤ seed)
    (hi' : seed < (((i + 1) * b : ℕ) : ℤ)) (hj : ((j * b : ℕ) : ℤ) ≤ seed)
    (hj' : seed < (((j + 1) * b : ℕ) : ℤ)) : i = j := by
  have h₁ : i * b < (j + 1) * b := Int.ofNat_lt.1 (Int.lt_of_le_of_lt hi hj')
  have h₂ : j * b < (i + 1) * b := Int.ofNat_lt.1 (Int.lt_of_le_of_lt hj hi')
  have h₃ := Nat.lt_of_mul_lt_mul_right h₁
  have h₄ := Nat.lt_of_mul_lt_mul_right h₂
  omega

end Places

section Seeds

/-- Over a job's whole life, no two of its tasks share a seed, and no two analyses of a rack,
in any tasks, are made with one; no seed overflows. -/
theorem seeds_disjoint (h : (machine arithmetic config).Reachable s) :
    (∀ task ∈ s.tasks, ∃ racks, taskRacks config.index task.request = .ok racks ∧ racks ≠ [] ∧
      0 ≤ task.seed ∧ task.seed + racks.length < 2 ^ 63) ∧
    s.tasks.Pairwise (fun task task' ↦
      Disjoint (seedsOf config.index task) (seedsOf config.index task')) ∧
    ∀ (i j p q : ℕ) (task task' : Task I Request) (racks racks' : List Text),
      s.tasks[i]? = some task → s.tasks[j]? = some task' →
      taskRacks config.index task.request = .ok racks →
      taskRacks config.index task'.request = .ok racks' →
      p < racks.length → q < racks'.length → task.seed + p = task'.seed + q → i = j ∧ p = q := by
  obtain ⟨order, horder⟩ := exists_order config.total_lt
  have hinv := inv_of_reachable h horder
  refine ⟨fun task htask ↦ ?_, ?_, ?_⟩
  · obtain ⟨i, hi⟩ := List.mem_iff_getElem?.1 htask
    have hfits := hinv.fits hi
    refine ⟨_, hfits.racks, hfits.ne_nil, ?_, ?_⟩
    · have := (hinv.seed_lt hi hfits.racks).1
      omega
    · have hlt : i < s.slots.length := by
        rw [length_slots]
        exact (List.getElem?_eq_some_iff.1 hi).1
      have hcursor := hinv.sound.cursor_lt horder
      have hle : (i + 1) * config.racksPerBatch ≤ s.slots.length * config.racksPerBatch :=
        Nat.mul_le_mul_right _ hlt
      have := (hinv.seed_lt hi hfits.racks).2
      omega
  · rw [List.pairwise_iff_getElem]
    intro i j hi hj hij
    rw [Set.disjoint_left]
    rintro seed ⟨racks, hracks, hle, hlt⟩ ⟨racks', hracks', hle', hlt'⟩
    obtain ⟨hseed, hend⟩ := hinv.seed_lt (List.getElem?_eq_getElem hi) hracks
    obtain ⟨hseed', hend'⟩ := hinv.seed_lt (List.getElem?_eq_getElem hj) hracks'
    have := eq_of_window (hseed ▸ hle) (Int.lt_of_lt_of_le hlt hend) (hseed' ▸ hle')
      (Int.lt_of_lt_of_le hlt' hend')
    omega
  · intro i j p q task task' racks racks' hi hj hracks hracks' hp hq heq
    obtain ⟨hseed, hend⟩ := hinv.seed_lt hi hracks
    obtain ⟨hseed', hend'⟩ := hinv.seed_lt hj hracks'
    obtain rfl : i = j := @eq_of_window config.racksPerBatch i j (task.seed + p) (by omega)
      (by omega) (by omega) (by omega)
    exact ⟨rfl, by omega⟩

end Seeds

section Open

/-- At any instant no rack is in two tasks that are available or claimed; and a rack that is
listed, in a task or in a claim about to make one, has its first pass behind it. -/
theorem rack_out_once (h : (machine arithmetic config).Reachable s) :
    (∀ task ∈ s.tasks, ∃ racks, taskRacks config.index task.request = .ok racks ∧ racks.Nodup) ∧
    (∀ (i j : ℕ) (task task' : Task I Request) (racks racks' : List Text) (rack : Text),
      s.tasks[i]? = some task → s.tasks[j]? = some task' →
      task.state ≠ .completed → task'.state ≠ .completed →
      taskRacks config.index task.request = .ok racks →
      taskRacks config.index task'.request = .ok racks' →
      rack ∈ racks → rack ∈ racks' → i = j) ∧
    ∀ racks : List Text,
      ((∃ task ∈ s.tasks, task.request.racks = some racks) ∨
        ∃ identity start, totalRacks config.index ≤ start ∧
          s.claim = some ⟨identity, .request start racks⟩) →
      ∀ rack ∈ racks, ∃ first ∈ s.tasks, first.request.racks = none ∧ first.state = .completed ∧
        ∃ slice, taskRacks config.index first.request = .ok slice ∧ rack ∈ slice := by
  obtain ⟨order, horder⟩ := exists_order config.total_lt
  have hinv := inv_of_reachable h horder
  have hopen (task : Task I Request) (hstate : task.state ≠ .completed) :
      task.slot.completed = false := Bool.eq_false_iff.2 (mt Task.slot_completed.1 hstate)
  have hfirst (rack : Text) (hcovered : Covered config.index s.slots rack) :
      ∃ first ∈ s.tasks, first.request.racks = none ∧ first.state = .completed ∧
        ∃ slice, taskRacks config.index first.request = .ok slice ∧ rack ∈ slice := by
    obtain ⟨slot, hslot, hdone, hseed, hrack⟩ := hcovered
    obtain ⟨first, hmem, rfl⟩ := List.mem_map.1 hslot
    obtain ⟨i, hi⟩ := List.mem_iff_getElem?.1 hmem
    have hfits := hinv.fits hi
    rw [hfits.seed, Int.ofNat_lt] at hseed
    exact ⟨first, hmem, (hfits.firstPass hseed).1, Task.slot_completed.1 hdone, _,
      hfits.racks, hrack⟩
  refine ⟨fun task htask ↦ ?_, ?_, ?_⟩
  · obtain ⟨i, hi⟩ := List.mem_iff_getElem?.1 htask
    exact ⟨_, (hinv.fits hi).racks, (hinv.fits hi).nodup⟩
  · intro i j task task' racks racks' rack hi hj hstate hstate' hracks hracks' hrack hrack'
    refine eq_of_countP_le_one (hinv.sound.once rack) (getElem?_slots hi) (getElem?_slots hj) ?_ ?_
    · rw [hopen task hstate, racksOf_eq hracks, decide_eq_true hrack]
      rfl
    · rw [hopen task' hstate', racksOf_eq hracks', decide_eq_true hrack']
      rfl
  · rintro racks (⟨task, htask, hlisted⟩ | ⟨identity, start, hstart, hclaim⟩) rack hrack
    · obtain ⟨i, hi⟩ := List.mem_iff_getElem?.1 htask
      have hfits := hinv.fits hi
      have hracks : taskRacks config.index task.slot.request = .ok racks := by
        change taskRacks config.index task.request = .ok racks
        rw [taskRacks, hlisted]
      have hge : config.index.total ≤ i * config.racksPerBatch := by
        by_contra hlt
        have hnone : task.request.racks = none := (hfits.firstPass (Nat.lt_of_not_le hlt)).1
        rw [hlisted] at hnone
        cases hnone
      refine hfirst rack (hinv.sound.covered task.slot (List.mem_map_of_mem htask) ?_ rack ?_)
      · rw [hfits.seed]
        exact Int.ofNat_le.2 hge
      · rw [racksOf_eq hracks]
        exact hrack
    · have hready := hinv.ready _ hclaim
      obtain ⟨rfl, hoffered⟩ := hready
      rw [totalRacks_eq config.total_lt] at hstart
      exact hfirst rack (hoffered.reissue (Int.ofNat_le.1 hstart) rack hrack).2.2

end Open

section Finish

omit [LinearOrder M] in
theorem nextReissue_ne_nil {identity : I} {inFlight : List Text} {rack : Text}
    {row : RackStanding M} (hrow : s.job.progress.get rack = some row)
    (hunsettled : row.settled = false) (hnot : rack ∉ inFlight) :
    nextReissue config s identity inFlight ≠ [] := by
  have hmem : (rack, row) ∈ s.job.progress.rows.filter fun p ↦ !p.2.settled && p.1 ∉ inFlight := by
    refine List.mem_filter.2 ⟨Table.mem_rows.2 hrow, ?_⟩
    rw [hunsettled, decide_eq_true hnot]
    rfl
  have hpos := List.length_pos_of_mem hmem
  have hbatch := config.racksPerBatch_le.1
  rw [← List.length_pos_iff, nextReissue, List.length_map, List.length_take,
    List.length_insertionSort, List.length_take, List.length_insertionSort, reissueWindowBatches]
  omega

theorem answer_of_lt (h : Inv arithmetic config order s) (horder : Scattered config.index order)
    (identity : I) (hlt : s.slots.length * config.racksPerBatch < config.index.total) :
    answer config s identity = .ok (some (((s.slots.length * config.racksPerBatch : ℕ) : ℤ),
      (order.drop (s.slots.length * config.racksPerBatch)).take config.racksPerBatch)) := by
  have hne := (offered_slice horder hlt).ne_nil
  rw [answer, nextRequest, h.sound.nextStart horder, horder.nextRacks_lt hlt]
  simp only [bind, Except.bind]
  rw [if_neg hne]

theorem answer_of_ge (h : Inv arithmetic config order s) (horder : Scattered config.index order)
    (identity : I) (hge : config.index.total ≤ s.slots.length * config.racksPerBatch) :
    answer config s identity = .ok (
      let racks := if s.job.settings.reissues then
        nextReissue config s identity (inFlight config s) else []
      if racks = [] then none
      else some (((s.slots.length * config.racksPerBatch : ℕ) : ℤ), racks)) := by
  rw [answer, nextRequest, h.sound.nextStart horder, nextRacks, totalRacks_eq config.total_lt,
    if_neg (by omega)]
  split <;> rfl

omit [LinearOrder M] in
theorem nextReissue_claim (claim : Option (Claim I)) (identity : I) (inFlight : List Text) :
    nextReissue config { s with claim } identity inFlight =
      nextReissue config s identity inFlight := rfl

/-- A claim whose statements run with nothing between them comes to the answer. -/
theorem reachable_answer (h : (machine arithmetic config).Reachable s) {identity : I}
    (hclaim : s.claim = some ⟨identity, .noneAvailable⟩) :
    ∃ offer, answer config s identity = .ok offer ∧ (machine arithmetic config).Reachable
      { s with claim := offer.map fun (start, racks) ↦ ⟨identity, .request start racks⟩ } := by
  obtain ⟨order, horder⟩ := exists_order config.total_lt
  have hinv := inv_of_reachable h horder
  have hcursor := hinv.sound.cursor_lt horder
  have htotal := totalRacks_eq config.total_lt
  have hstep (phase : Phase) (phase' : Option Phase)
      (hr : (machine arithmetic config).Reachable { s with claim := some ⟨identity, phase⟩ })
      (hs : claimStatement config { s with claim := some ⟨identity, phase⟩ } ⟨identity, phase⟩ =
        phase') :
      (machine arithmetic config).Reachable
        { s with claim := phase'.map fun phase ↦ ⟨identity, phase⟩ } := by
    subst hs
    exact .step hr trivial (a := .statement) rfl
  have hnone : (machine arithmetic config).Reachable
      { s with claim := some ⟨identity, .noneAvailable⟩ } := by
    rw [← hclaim]
    exact h
  have hstart := hstep .noneAvailable (some (.start _)) hnone
    (congrArg (fun start ↦ some (Phase.start start)) (hinv.sound.nextStart horder))
  by_cases hlt : s.slots.length * config.racksPerBatch < config.index.total
  · refine ⟨_, answer_of_lt hinv horder identity hlt, hstep _ (some (.request _ _)) hstart ?_⟩
    have hne := (offered_slice horder hlt).ne_nil
    simp only [claimStatement]
    rw [if_pos (by omega), asU64_eq (by omega), horder.racksInRange (by omega)]
    cases hslice : (order.drop (s.slots.length * config.racksPerBatch)).take
        config.racksPerBatch with
    | nil => exact absurd hslice hne
    | cons rack racks => rfl
  · refine ⟨_, answer_of_ge hinv horder identity (Nat.le_of_not_lt hlt), ?_⟩
    cases hreissues : s.job.settings.reissues with
    | false =>
      refine hstep _ none hstart ?_
      simp only [claimStatement, hreissues]
      rw [if_neg (by omega)]
      rfl
    | true =>
      have hsettings := hstep _ (some (.settings _)) hstart (by
        simp only [claimStatement, hreissues]
        rw [if_neg (by omega)]
        rfl)
      have hflight := hstep _ (some (.inFlight _ (inFlight config s))) hsettings rfl
      cases hracks : nextReissue config s identity (inFlight config s) with
      | nil =>
        refine hstep _ none hflight ?_
        simp only [claimStatement]
        rw [nextReissue_claim, hracks]
      | cons rack racks =>
        refine hstep _ (some (.request _ _)) hflight ?_
        simp only [claimStatement, if_true]
        rw [nextReissue_claim, hracks]

theorem Inv.settled_of_answer (h : Inv arithmetic config order s)
    (horder : Scattered config.index order) {identity : I}
    (hanswer : answer config s identity = .ok none)
    (hall : ∀ task ∈ s.tasks, task.state = .completed) :
    config.index.total ≤ s.slots.length * config.racksPerBatch ∧
      ∀ rack row, s.job.progress.get rack = some row → row.settled = true := by
  by_cases hlt : s.slots.length * config.racksPerBatch < config.index.total
  · rw [answer_of_lt h horder identity hlt] at hanswer
    cases hanswer
  · refine ⟨Nat.le_of_not_lt hlt, fun rack row hrow ↦ ?_⟩
    rw [answer_of_ge h horder identity (Nat.le_of_not_lt hlt), Except.ok.injEq] at hanswer
    by_contra hunsettled
    rw [Bool.not_eq_true] at hunsettled
    cases hreissues : s.job.settings.reissues with
    | true =>
      -- No task is open, so none holds the rack.
      have hflight : inFlight config s = [] := by
        rw [inFlight, List.flatMap_eq_nil_iff]
        intro task htask
        obtain ⟨hmem, hp⟩ := List.mem_filter.1 htask
        rw [hall task hmem] at hp
        cases hp
      rw [hreissues, hflight] at hanswer
      simp only [if_true] at hanswer
      rw [if_neg (nextReissue_ne_nil hrow hunsettled List.not_mem_nil)] at hanswer
      cases hanswer
    | false =>
      -- A rack needs only one analysis, and its row says that it has one.
      have hfew := h.sound.few rack
      have hanalyses := h.sound.analyses rack
      rw [h.sound.recorded.row rack] at hrow
      have hlength := length_lt_of_unsettled hrow (by omega) hunsettled
      have hmax := ConsensusSettings.not_reissues hreissues
      have hnil : plays s.job.analyses rack = [] := List.eq_nil_of_length_eq_zero (by omega)
      rw [firsts, hnil] at hrow
      cases hrow

omit [DecidableEq I] in
/-- Once the first pass is over and complete, every rack has a row. -/
theorem Inv.exists_row (h : Inv arithmetic config order s) (horder : Scattered config.index order)
    (hge : config.index.total ≤ s.slots.length * config.racksPerBatch)
    (hall : ∀ task ∈ s.tasks, task.state = .completed) {rack : Text} (hrack : rack ∈ order) :
    s.tasks ≠ [] ∧ ∃ row, s.job.progress.get rack = some row := by
  obtain ⟨j, hj⟩ := List.mem_iff_getElem?.1 hrack
  have hlt : j < config.index.total := horder.length ▸ (List.getElem?_eq_some_iff.1 hj).1
  -- The task of the first pass whose slice the rack is in.
  have hpos := config.racksPerBatch_le.1
  have hdiv := Nat.div_mul_le_self j config.racksPerBatch
  have hmod := Nat.lt_div_mul_add hpos (a := j)
  have hk : j / config.racksPerBatch < s.tasks.length := by
    rw [length_slots] at hge
    exact Nat.div_lt_of_lt_mul (by rw [Nat.mul_comm]; omega)
  obtain ⟨task, htask⟩ : ∃ task, s.tasks[j / config.racksPerBatch]? = some task :=
    ⟨_, List.getElem?_eq_getElem hk⟩
  have hmem := List.mem_of_getElem? htask
  have hfits := h.fits htask
  have hheld : rack ∈ racksOf config.index task.slot := by
    rw [(hfits.firstPass (by omega)).2]
    exact mem_batch.2 ⟨j, hdiv, by rw [Nat.succ_mul]; omega, hj⟩
  have hanalysed : 0 < analysed config.index s.slots rack := by
    refine List.countP_pos_iff.2 ⟨task.slot, List.mem_map_of_mem hmem, ?_⟩
    rw [decide_eq_true hheld, Task.slot, hall task hmem]
    rfl
  refine ⟨List.ne_nil_of_mem hmem, ?_⟩
  rw [h.sound.recorded.row rack, ← Option.isSome_iff_exists, standing_isSome, Bool.not_eq_true',
    List.isEmpty_eq_false_iff]
  intro hnil
  rw [firsts, List.map_eq_nil_iff, List.dedup_eq_nil] at hnil
  have hanalyses := h.sound.analyses rack
  rw [hnil, List.length_nil] at hanalyses
  omega

/-- A job with a rack to analyse is never stuck: where its next request is nothing and none of
its tasks is out, every rack of its space has a row that is settled, and the job is finished. -/
theorem finished_of_no_work (h : (machine arithmetic config).Reachable s)
    (hpos : 1 ≤ totalRacks config.index) {identity : I}
    (hanswer : answer config s identity = .ok none)
    (hall : ∀ task ∈ s.tasks, task.state = .completed) :
    (∀ rack ∈ config.index.racks, ∃ row, s.job.progress.get rack = some row ∧ row.settled = true) ∧
      totalRacks config.index ≤ s.job.racksSettled ∧ finished config s = true := by
  obtain ⟨order, horder⟩ := exists_order config.total_lt
  have hinv := inv_of_reachable h horder
  obtain ⟨hge, hsettled⟩ := hinv.settled_of_answer horder hanswer hall
  have hrows : ∀ rack ∈ config.index.racks, s.tasks ≠ [] ∧
      ∃ row, s.job.progress.get rack = some row ∧ row.settled = true := by
    intro rack hrack
    obtain ⟨hne, row, hrow⟩ := hinv.exists_row horder hge hall (horder.perm.mem_iff.2 hrack)
    exact ⟨hne, row, hrow, hsettled rack row hrow⟩
  have hlength := RackIndex.length_racks config.total_lt
  have hcount : config.index.racks.length ≤ s.job.progress.count (·.settled) :=
    Table.length_le_count (horder.perm.nodup_iff.1 horder.nodup)
      fun rack hrack ↦ (hrows rack hrack).2
  have htotal : totalRacks config.index ≤ s.job.racksSettled := by
    rw [totalRacks_eq config.total_lt, hinv.sound.recorded.racksSettled]
    omega
  rw [totalRacks_eq config.total_lt] at hpos
  obtain ⟨rack, hrack⟩ := List.exists_mem_of_length_pos (l := config.index.racks) (by omega)
  exact ⟨fun rack hrack ↦ (hrows rack hrack).2, htotal,
    decide_eq_true ⟨htotal, (hrows rack hrack).1, hall⟩⟩

end Finish

section Examples

def twoTiles : LetterDistribution where
  name := "two"
  bytes := ByteArray.empty
  tiles := [⟨'A', 1⟩, ⟨'B', 1⟩]
  letters := []
  unenumerable := none
  tiles_ne_nil := nofun
  length_tiles := by decide
  counts := by decide
  sorted := by decide

def configOf (rackSize : ℕ) (h : 1 ≤ rackSize ∧ rackSize ≤ Racks.rackSize) : OpeningRackConfig where
  distribution := twoTiles
  rackSize
  index := ⟨twoTiles.tiles, countsTable rackSize twoTiles.tiles, rackSize, twoTiles.sorted rfl, rfl⟩
  racksPerBatch := 1
  collation p q := p ≤ q
  index_eq := rfl
  rackSize_le := h
  racksPerBatch_le := by decide

def twoRacks : OpeningRackConfig := configOf 1 (by decide)

def noRacks : OpeningRackConfig := configOf 3 (by decide)

def fresh : State ℕ ℕ ℤ := ⟨⟨⟨100, 2, 2⟩, [], .empty, 0, 0, 0⟩, [], [], none⟩

theorem reachable_fresh (config : OpeningRackConfig) :
    (machine wholeNumbers config).Reachable fresh :=
  .start ⟨⟨rfl, rfl, rfl, rfl, rfl⟩, by decide, rfl, rfl⟩

def firstClaim (identity : ℕ) : List (Action ℕ ℕ ℤ) :=
  [.lock identity, .noneAvailable, .statement, .statement, .commit]

def reissueClaim (identity : ℕ) : List (Action ℕ ℕ ℤ) :=
  [.lock identity, .noneAvailable, .statement, .statement, .statement, .statement, .commit]

def reissuedRun : List (Action ℕ ℕ ℤ) :=
  firstClaim 0 ++ firstClaim 1 ++ [.submit 0 [(['B'], 5)], .submit 1 [(['A'], 5)]] ++ reissueClaim 0

theorem exists_seeds_disjoint : ∃ s : State ℕ ℕ ℤ, (machine wholeNumbers twoRacks).Reachable s ∧
    s.tasks.map (·.seed) = [0, 1, 2] ∧
    s.tasks.Pairwise fun task task' ↦
      Disjoint (seedsOf twoRacks.index task) (seedsOf twoRacks.index task') := by
  obtain ⟨s, hs, hp⟩ := (reachable_fresh twoRacks).follow_any reissuedRun
    (fun s ↦ s.tasks.map (·.seed) = [0, 1, 2]) (by decide)
  exact ⟨s, hs, of_decide_eq_true hp, (seeds_disjoint hs).2.1⟩

theorem exists_rack_out_once : ∃ s : State ℕ ℕ ℤ, (machine wholeNumbers twoRacks).Reachable s ∧
    s.tasks.map (·.request.racks) = [none, none, some [['A']]] ∧
    ∃ first ∈ s.tasks, first.request.racks = none ∧ first.state = .completed := by
  obtain ⟨s, hs, hp⟩ := (reachable_fresh twoRacks).follow_any reissuedRun
    (fun s ↦ s.tasks.map (·.request.racks) = [none, none, some [['A']]]) (by decide)
  have hracks := of_decide_eq_true hp
  obtain ⟨task, htask, hlisted⟩ : ∃ task ∈ s.tasks, task.request.racks = some [['A']] := by
    have hmem : some [['A']] ∈ s.tasks.map (·.request.racks) := by rw [hracks]; simp
    exact List.mem_map.1 hmem
  obtain ⟨first, hfirst, hnone, hcompleted, -⟩ :=
    (rack_out_once hs).2.2 _ (.inl ⟨task, htask, hlisted⟩) _ List.mem_cons_self
  exact ⟨s, hs, hracks, first, hfirst, hnone, hcompleted⟩

theorem exists_finished_of_no_work : ∃ s : State ℕ ℕ ℤ,
    (machine wholeNumbers twoRacks).Reachable s ∧ s.tasks.length = 4 ∧
    finished twoRacks s = true := by
  obtain ⟨s, hs, hp⟩ := (reachable_fresh twoRacks).follow_any
    (reissuedRun ++ [.submit 2 [(['A'], 5)]] ++ reissueClaim 0 ++ [.submit 3 [(['B'], 5)]])
    (fun s ↦ s.tasks.length = 4 ∧ (∀ task ∈ s.tasks, task.state = .completed) ∧
      answer twoRacks s 0 = .ok none) (by decide)
  obtain ⟨hlength, hall, hanswer⟩ := of_decide_eq_true hp
  exact ⟨s, hs, hlength, (finished_of_no_work hs (by decide) hanswer hall).2.2⟩

/-- Where the space has no rack, nothing is ever handed out, and the job is not finished. -/
theorem stuck_of_no_racks : (machine wholeNumbers noRacks).Reachable fresh ∧
    (∀ identity, answer noRacks fresh identity = .ok none) ∧
    (∀ task ∈ fresh.tasks, task.state = .completed) ∧ finished noRacks fresh = false := by
  refine ⟨reachable_fresh noRacks, fun identity ↦ ?_, nofun, by decide⟩
  obtain ⟨order, horder⟩ := exists_order noRacks.total_lt
  rw [answer_of_ge (inv_of_reachable (reachable_fresh noRacks) horder) horder identity (by decide)]
  rfl

end Examples

end Birdtest.Jobs.OpeningRack.Dispatch
