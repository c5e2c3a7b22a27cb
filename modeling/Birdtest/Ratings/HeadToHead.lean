import Birdtest.Jobs.Game.Samples
import Mathlib.Algebra.BigOperators.Fin
import Mathlib.Data.List.Sort
import Mathlib.Data.Prod.Lex

namespace Birdtest.Ratings

open Birdtest.Stats Birdtest.Stats.Exact

section Evidence

variable {F : Type} [Double F]

structure HeadToHeadEvidence (F : Type) where
  pentanomial : Pentanomial
  games : ℤ
  spreadSum : F

namespace HeadToHeadEvidence

def default : HeadToHeadEvidence F := ⟨⟨fun _ ↦ 0⟩, 0, 0.0⟩

def add (evidence : HeadToHeadEvidence F) (pentanomial : Fin 5 → ℕ) (games : ℤ) (spreadSum : F)
    (flipped : Bool) : HeadToHeadEvidence F where
  pentanomial := ⟨(List.finRange 5).foldl
    (fun counts bucket ↦
      let place := if flipped then bucket.rev else bucket
      Function.update counts place (counts place + pentanomial bucket))
    evidence.pentanomial.counts⟩
  games := evidence.games + games
  spreadSum := evidence.spreadSum + if flipped then -spreadSum else spreadSum

def scoreAndStderr (evidence : HeadToHeadEvidence F) : F × F :=
  let sample := Sample.fromPentanomial evidence.pentanomial
  if sample.n = 0 then (0.5, Double.infinity)
  else (sample.mean, Double.sqrt (Double.max sample.variance 0.0 / Double.ofNat sample.n))

def spread (evidence : HeadToHeadEvidence F) : F :=
  if evidence.games ≤ 0 then 0.0 else evidence.spreadSum / Double.ofNat evidence.games.toNat

end HeadToHeadEvidence

structure CrossCell (C F : Type) where
  row : C
  col : C
  pairs : F
  actual : F
  predicted : F
  stderr : F
  spread : F

namespace CrossCell

variable {C : Type}

def mirrored (cell : CrossCell C F) : CrossCell C F where
  row := cell.col
  col := cell.row
  pairs := cell.pairs
  actual := 1.0 - cell.actual
  predicted := 1.0 - cell.predicted
  stderr := cell.stderr
  spread := -cell.spread

structure Shows (cell : CrossCell C F) (evidence : HeadToHeadEvidence F) : Prop where
  actual : cell.actual = evidence.scoreAndStderr.1
  stderr : cell.stderr = evidence.scoreAndStderr.2
  spread : cell.spread = evidence.spread

end CrossCell

def bothSides {C : Type} [LinearOrder C] (cells : List (CrossCell C F)) : List (CrossCell C F) :=
  (cells.flatMap fun c ↦ [c, c.mirrored]).mergeSort
    fun c c' ↦ toLex (c.row, c.col) ≤ toLex (c'.row, c'.col)

theorem mem_bothSides {C : Type} [LinearOrder C] {cells : List (CrossCell C F)}
    {cell : CrossCell C F} :
    cell ∈ bothSides cells ↔ ∃ c ∈ cells, cell = c ∨ cell = c.mirrored := by
  rw [bothSides, (List.mergeSort_perm _ _).mem_iff, List.mem_flatMap]
  simp only [List.mem_cons, List.not_mem_nil, or_false]

theorem foldl_update_apply {ι κ : Type} [DecidableEq κ] (place : ι → κ) (added : ι → ℕ)
    (buckets : List ι) (counts : κ → ℕ) (k : κ) :
    buckets.foldl (fun counts bucket ↦
      Function.update counts (place bucket) (counts (place bucket) + added bucket)) counts k =
        counts k + (buckets.map fun bucket ↦ if place bucket = k then added bucket else 0).sum := by
  induction buckets generalizing counts with
  | nil => rfl
  | cons bucket buckets ih =>
    rw [List.foldl_cons, ih, List.map_cons, List.sum_cons, ← add_assoc, Function.update_apply]
    by_cases h : place bucket = k
    · rw [if_pos h, if_pos h.symm, h]
    · rw [if_neg h, if_neg (Ne.symm h), add_zero]

namespace HeadToHeadEvidence

theorem counts_add (evidence : HeadToHeadEvidence F) (pentanomial : Fin 5 → ℕ) (games : ℤ)
    (spreadSum : F) (flipped : Bool) (k : Fin 5) :
    (evidence.add pentanomial games spreadSum flipped).pentanomial.counts k =
      evidence.pentanomial.counts k + pentanomial (if flipped then k.rev else k) := by
  refine (foldl_update_apply (fun bucket ↦ if flipped then bucket.rev else bucket) pentanomial
    (List.finRange 5) _ k).trans ?_
  rw [← Fin.sum_univ_def, Fintype.sum_eq_single (if flipped then k.rev else k)]
  · cases flipped <;> simp
  · intro bucket hne
    refine if_neg fun heq ↦ hne ?_
    cases flipped with
    | false => exact heq
    | true => exact Fin.rev_eq_iff.1 heq

end HeadToHeadEvidence

end Evidence

structure Seated where
  pentanomial : Fin 5 → ℕ
  games : ℤ
  spreadSum : ℝ
  flipped : Bool

namespace Seated

variable (job : Seated)

def counts (k : Fin 5) : ℕ := job.pentanomial (if job.flipped then k.rev else k)

def spread : ℝ := if job.flipped then -job.spreadSum else job.spreadSum

def reseated : Seated := ⟨fun k ↦ job.pentanomial k.rev, job.games, -job.spreadSum, !job.flipped⟩

def seatedAs (flipped : Bool) : Seated := if job.flipped = flipped then job else job.reseated

def inverted : Seated := { job with flipped := !job.flipped }

@[simp] theorem games_inverted : job.inverted.games = job.games := rfl

theorem counts_inverted (k : Fin 5) : job.inverted.counts k = job.counts k.rev := by
  cases hflipped : job.flipped <;> simp [counts, inverted, hflipped]

theorem spread_inverted : job.inverted.spread = -job.spread := by
  cases hflipped : job.flipped <;> simp [spread, inverted, hflipped]

theorem counts_reseated (k : Fin 5) : job.reseated.counts k = job.counts k := by
  cases hflipped : job.flipped <;> simp [counts, reseated, hflipped]

theorem spread_reseated : job.reseated.spread = job.spread := by
  cases hflipped : job.flipped <;> simp [spread, reseated, hflipped]

end Seated

noncomputable def addAll (jobs : List Seated) : HeadToHeadEvidence Exact :=
  jobs.foldl (fun evidence job ↦ evidence.add job.pentanomial job.games job.spreadSum job.flipped)
    .default

structure AddsUp (evidence : HeadToHeadEvidence Exact) (counts : Fin 5 → ℕ) (games : ℤ)
    (spread : ℝ) : Prop where
  counts : evidence.pentanomial.counts = counts
  games : evidence.games = games
  spreadSum : evidence.spreadSum = spread

namespace AddsUp

variable {evidence evidence' : HeadToHeadEvidence Exact} {counts : Fin 5 → ℕ} {games : ℤ}
  {spread : ℝ}

theorem eq (h : AddsUp evidence counts games spread) (h' : AddsUp evidence' counts games spread) :
    evidence = evidence' := by
  obtain ⟨⟨_⟩, _, _⟩ := evidence
  obtain ⟨⟨_⟩, _, _⟩ := evidence'
  cases h.counts.trans h'.counts.symm
  cases h.games.trans h'.games.symm
  cases h.spreadSum.trans h'.spreadSum.symm
  rfl

theorem default : AddsUp .default (fun _ ↦ 0) 0 0 where
  counts := rfl
  games := rfl
  spreadSum := by
    rw [HeadToHeadEvidence.default, ofScientific_eq]
    norm_num

theorem add (h : AddsUp evidence counts games spread) (job : Seated) :
    AddsUp (evidence.add job.pentanomial job.games job.spreadSum job.flipped)
      (fun k ↦ counts k + job.counts k) (games + job.games) (spread + job.spread) where
  counts := by
    funext k
    rw [HeadToHeadEvidence.counts_add, h.counts]
    rfl
  games := by rw [HeadToHeadEvidence.add, h.games]
  spreadSum := by
    rw [HeadToHeadEvidence.add, h.spreadSum, Seated.spread]
    cases job.flipped <;> rfl

theorem foldl (h : AddsUp evidence counts games spread) (jobs : List Seated) :
    AddsUp (jobs.foldl (fun evidence job ↦
        evidence.add job.pentanomial job.games job.spreadSum job.flipped) evidence)
      (fun k ↦ counts k + (jobs.map (·.counts k)).sum) (games + (jobs.map (·.games)).sum)
      (spread + (jobs.map (·.spread)).sum) := by
  induction jobs generalizing evidence counts games spread with
  | nil => simpa using h
  | cons job jobs ih =>
    have := ih (h.add job)
    simpa only [List.foldl_cons, List.map_cons, List.sum_cons, ← add_assoc] using this

end AddsUp

theorem addsUp_addAll (jobs : List Seated) :
    AddsUp (addAll jobs) (fun k ↦ (jobs.map (·.counts k)).sum) (jobs.map (·.games)).sum
      (jobs.map (·.spread)).sum := by
  have := AddsUp.default.foldl jobs
  simpa only [zero_add, addAll] using this

theorem scoreAndStderr_exact (evidence : HeadToHeadEvidence Exact) :
    evidence.scoreAndStderr =
      if evidence.pentanomial.pairs = 0 then (((1 / 2 : ℝ) : Exact), Double.infinity)
      else ((evidence.pentanomial.mean : Exact),
        ((√(max evidence.pentanomial.variance 0 / evidence.pentanomial.pairs) : ℝ) : Exact)) := by
  have hhalf : (0.5 : ℝ) = 1 / 2 := by norm_num
  have hzero : (0.0 : ℝ) = 0 := by norm_num
  rw [HeadToHeadEvidence.scoreAndStderr]
  by_cases h : evidence.pentanomial.pairs = 0
  · rw [if_pos h, Sample.fromPentanomial, if_pos h]
    simp only [if_true, ofScientific_eq, hhalf]
  · have hpairs : (evidence.pentanomial.pairs : ℝ) ≠ 0 := Nat.cast_ne_zero.2 h
    have hroot : 0 ≤ max evidence.pentanomial.variance 0 / evidence.pentanomial.pairs :=
      div_nonneg (le_max_right _ _) (Nat.cast_nonneg _)
    rw [if_neg h, Pentanomial.fromPentanomial_exact h]
    simp only [if_neg h, ofScientific_eq, hzero, ofReal_max, ofNat_eq, ofReal_div hpairs,
      sqrt_ofReal hroot]

theorem spread_exact {evidence : HeadToHeadEvidence Exact} {counts : Fin 5 → ℕ} {games : ℤ}
    {spread : ℝ} (h : AddsUp evidence counts games spread) :
    evidence.spread = ((if games ≤ 0 then 0 else spread / games.toNat : ℝ) : Exact) := by
  have hzero : (0.0 : ℝ) = 0 := by norm_num
  rw [HeadToHeadEvidence.spread, h.games, h.spreadSum, ofScientific_eq, hzero, ofNat_eq]
  by_cases hgames : games ≤ 0
  · rw [if_pos hgames, if_pos hgames]
  · have : (games.toNat : ℝ) ≠ 0 := Nat.cast_ne_zero.2 (by omega)
    rw [if_neg hgames, if_neg hgames, ofReal_div this]

section Sides

variable (jobs : List Seated)

theorem addAll_perm {jobs jobs' : List Seated} (h : jobs.Perm jobs') :
    addAll jobs = addAll jobs' := by
  have hsum := addsUp_addAll jobs'
  rw [← (h.map (·.games)).sum_eq, ← (h.map (·.spread)).sum_eq] at hsum
  simp only [← (h.map (Seated.counts · _)).sum_eq] at hsum
  exact (addsUp_addAll jobs).eq hsum

theorem addAll_seatedAs (flipped : Bool) : addAll (jobs.map (·.seatedAs flipped)) =
    addAll jobs := by
  have hcounts (job : Seated) (k : Fin 5) : (job.seatedAs flipped).counts k = job.counts k := by
    rw [Seated.seatedAs]
    split
    · rfl
    · exact job.counts_reseated k
  have hgames (job : Seated) : (job.seatedAs flipped).games = job.games := by
    rw [Seated.seatedAs]
    split <;> rfl
  have hspread (job : Seated) : (job.seatedAs flipped).spread = job.spread := by
    rw [Seated.seatedAs]
    split
    · rfl
    · exact job.spread_reseated
  have hsum := addsUp_addAll (jobs.map (·.seatedAs flipped))
  simp only [List.map_map, Function.comp_def, hcounts, hgames, hspread] at hsum
  exact hsum.eq (addsUp_addAll jobs)

theorem addsUp_inverted :
    AddsUp (addAll (jobs.map Seated.inverted)) (fun k ↦ (jobs.map (·.counts k.rev)).sum)
      (jobs.map (·.games)).sum (-(jobs.map (·.spread)).sum) := by
  have hneg : (jobs.map fun job ↦ -job.spread).sum = -(jobs.map (·.spread)).sum := by
    rw [List.sum_neg, List.map_map]
    rfl
  have hsum := addsUp_addAll (jobs.map Seated.inverted)
  simp only [List.map_map, Function.comp_def, Seated.counts_inverted, Seated.games_inverted,
    Seated.spread_inverted, hneg] at hsum
  exact hsum

theorem pentanomial_inverted :
    (addAll (jobs.map Seated.inverted)).pentanomial = (addAll jobs).pentanomial.swapped := by
  rw [Pentanomial.swapped, (addsUp_addAll jobs).counts, ← (addsUp_inverted jobs).counts]

theorem score_inverted : ∃ score : ℝ, (addAll jobs).scoreAndStderr.1 = score ∧
    (addAll (jobs.map Seated.inverted)).scoreAndStderr.1 = ((1 - score : ℝ) : Exact) := by
  rw [scoreAndStderr_exact, scoreAndStderr_exact, pentanomial_inverted, Pentanomial.pairs_swapped]
  by_cases h : (addAll jobs).pentanomial.pairs = 0
  · rw [if_pos h, if_pos h]
    exact ⟨1 / 2, rfl, by norm_num⟩
  · rw [if_neg h, if_neg h, Pentanomial.mean_swapped h]
    exact ⟨_, rfl, rfl⟩

theorem stderr_inverted : (addAll (jobs.map Seated.inverted)).scoreAndStderr.2 =
    (addAll jobs).scoreAndStderr.2 := by
  rw [scoreAndStderr_exact, scoreAndStderr_exact, pentanomial_inverted, Pentanomial.pairs_swapped]
  by_cases h : (addAll jobs).pentanomial.pairs = 0
  · rw [if_pos h, if_pos h]
  · rw [if_neg h, if_neg h, Pentanomial.variance_swapped h]

theorem stderr_exact (h : (addAll jobs).pentanomial.pairs ≠ 0) :
    ∃ stderr : ℝ, (addAll jobs).scoreAndStderr.2 = stderr := by
  rw [scoreAndStderr_exact, if_neg h]
  exact ⟨_, rfl⟩

theorem spread_inverted : ∃ spread : ℝ, (addAll jobs).spread = spread ∧
    (addAll (jobs.map Seated.inverted)).spread = ((-spread : ℝ) : Exact) := by
  rw [spread_exact (addsUp_addAll jobs), spread_exact (addsUp_inverted jobs)]
  refine ⟨_, rfl, ?_⟩
  by_cases h : (jobs.map (·.games)).sum ≤ 0
  · rw [if_pos h, if_pos h, neg_zero]
  · rw [if_neg h, if_neg h, neg_div]

theorem CrossCell.Shows.mirrored {C : Type} {cell : CrossCell C Exact}
    (h : cell.Shows (addAll jobs)) :
    cell.mirrored.Shows (addAll (jobs.map Seated.inverted)) where
  actual := by
    obtain ⟨score, hscore, hother⟩ := score_inverted jobs
    have hone : (1.0 : ℝ) = 1 := by norm_num
    rw [hother, CrossCell.mirrored, h.actual, hscore, ofScientific_eq, hone, ofReal_sub]
  stderr := h.stderr.trans (stderr_inverted jobs).symm
  spread := by
    obtain ⟨spread, hspread, hother⟩ := spread_inverted jobs
    rw [hother, CrossCell.mirrored, h.spread, hspread, ofReal_neg]

end Sides

end Birdtest.Ratings
