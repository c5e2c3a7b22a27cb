import Birdtest.Stats.MatchTest
import Mathlib.Algebra.BigOperators.Group.Finset.Piecewise
import Mathlib.Algebra.BigOperators.Group.List.Basic
import Mathlib.Algebra.Order.BigOperators.Group.Finset
import Mathlib.Algebra.Order.BigOperators.Group.List
import Mathlib.Tactic.Ring

namespace Birdtest.Ratings

open Birdtest.Stats

structure Settings (C : Type) where
  /-- The job has the pool's variant, letter distribution and layout. -/
  inScope : Bool
  player1 : C
  player2 : C

structure Result where
  job : ℕ
  games : ℕ
  pentanomial : Pentanomial
  check : pentanomial.pairs * 2 = games

structure Head2Head where
  pairs : ℕ
  score : ℕ
  deriving DecidableEq

/-- What a fit reads. The matrix is by config, not by place in the list of members, and the
head-to-heads are the pentanomials of the cross table. -/
@[ext] structure Evidence (C : Type) where
  members : Finset C
  matrix : C → C → Head2Head
  pairsUsed : ℕ
  jobsUsed : ℕ
  headToHeads : C → C → Fin 5 → ℕ

section Build

variable {C : Type} [DecidableEq C] (settings : ℕ → Settings C) (members : Finset C)

def eligible (job : ℕ) : Bool :=
  (settings job).inScope ∧ (settings job).player1 ∈ members ∧ (settings job).player2 ∈ members

/-- `eligible_jobs JOIN game_results` -/
def jobResults (results : List Result) : List Result :=
  results.filter fun r ↦ eligible settings members r.job

variable (results : List Result)

def total (f : Result → ℕ) (job : ℕ) : ℕ := ((results.filter (·.job = job)).map f).sum

def summed (job : ℕ) : Pentanomial := ⟨fun k ↦ total results (·.pentanomial.counts k) job⟩

/-- The jobs whose row of sums is used: not those of a config against itself, nor those without a
pair. -/
def counted : Finset ℕ :=
  (((jobResults settings members results).map (·.job)).toFinset).filter fun job ↦
    (settings job).player1 ≠ (settings job).player2 ∧ 0 < (summed results job).pairs

/-- What a job's row adds to the cell of two configs: `p` where the first is player 1, `q` where
the second is. -/
def seated (a b : C) (job : ℕ) (p q : ℕ) : ℕ :=
  if (settings job).player1 = a ∧ (settings job).player2 = b then p
  else if (settings job).player1 = b ∧ (settings job).player2 = a then q
  else 0

def buildMatrix : Evidence C where
  members := members
  matrix a b :=
    ⟨∑ job ∈ counted settings members results,
      seated settings a b job (summed results job).pairs (summed results job).pairs,
    ∑ job ∈ counted settings members results,
      seated settings a b job (summed results job).halfPoints
        (4 * (summed results job).pairs - (summed results job).halfPoints)⟩
  pairsUsed := ∑ job ∈ counted settings members results, (summed results job).pairs
  jobsUsed := (counted settings members results).card
  headToHeads a b k := ∑ job ∈ counted settings members results,
    seated settings a b job ((summed results job).counts k) ((summed results job).counts k.rev)

end Build

section Total

variable {f g : Result → ℕ} {job : ℕ} {r : Result} {results results' : List Result}

theorem total_nil : total [] f job = 0 := rfl

theorem total_cons :
    total (r :: results) f job = (if r.job = job then f r else 0) + total results f job := by
  rw [total, List.filter_cons]
  by_cases h : r.job = job <;> simp [h, total]

theorem total_append :
    total (results ++ results') f job = total results f job + total results' f job := by
  rw [total, List.filter_append, List.map_append, List.sum_append, total, total]

theorem total_add : total results (fun r ↦ f r + g r) job =
    total results f job + total results g job := by
  induction results with
  | nil => rfl
  | cons r results ih =>
    rw [total_cons, total_cons, total_cons, ih]
    split <;> ring

theorem total_mul (n : ℕ) : total results (fun r ↦ n * f r) job = n * total results f job := by
  induction results with
  | nil => rfl
  | cons r results ih =>
    rw [total_cons, total_cons, ih]
    split <;> ring

theorem total_congr (h : ∀ r, r.job = job → f r = g r) :
    total results f job = total results g job :=
  congrArg List.sum (List.map_congr_left fun r hr ↦
    h r (of_decide_eq_true (List.mem_filter.1 hr).2))

theorem sum_total {jobs : Finset ℕ} :
    ∑ job ∈ jobs, total results f job = ((results.filter (·.job ∈ jobs)).map f).sum := by
  induction results with
  | nil => exact Finset.sum_eq_zero fun _ _ ↦ rfl
  | cons r results ih =>
    simp only [total_cons, Finset.sum_add_distrib, Finset.sum_ite_eq, ih]
    by_cases h : r.job ∈ jobs <;> simp [h]

def conceded (p : Pentanomial) : ℕ := 4 * p.counts 0 + 3 * p.counts 1 + 2 * p.counts 2 + p.counts 3

theorem four_mul_pairs_sub (p : Pentanomial) : 4 * p.pairs - p.halfPoints = conceded p := by
  simp only [Pentanomial.pairs, Pentanomial.halfPoints, conceded]
  omega

theorem counts_eq_zero {p : Pentanomial} (h : p.pairs = 0) (k : Fin 5) : p.counts k = 0 := by
  simp only [Pentanomial.pairs, Nat.add_eq_zero_iff] at h
  obtain ⟨⟨⟨⟨h₀, h₁⟩, h₂⟩, h₃⟩, h₄⟩ := h
  match k with
  | 0 => exact h₀
  | 1 => exact h₁
  | 2 => exact h₂
  | 3 => exact h₃
  | 4 => exact h₄

structure Sums (p : Pentanomial → ℕ) : Prop where
  summed : ∀ results job, p (summed results job) = total results (fun r ↦ p r.pentanomial) job
  zero : ∀ x : Pentanomial, x.pairs = 0 → p x = 0

theorem sums_counts (k : Fin 5) : Sums fun p ↦ p.counts k :=
  ⟨fun _ _ ↦ rfl, fun _ h ↦ counts_eq_zero h k⟩

theorem sums_pairs : Sums Pentanomial.pairs where
  summed _ _ := by simp only [Ratings.summed, Pentanomial.pairs, total_add]
  zero _ h := h

theorem sums_halfPoints : Sums Pentanomial.halfPoints where
  summed _ _ := by simp only [Ratings.summed, Pentanomial.halfPoints, total_add, total_mul]
  zero _ h := by simp [Pentanomial.halfPoints, counts_eq_zero h]

theorem sums_conceded : Sums conceded where
  summed _ _ := by simp only [Ratings.summed, conceded, total_add, total_mul]
  zero _ h := by simp [conceded, counts_eq_zero h]

end Total

section Relevant

variable {C : Type} [DecidableEq C] (settings : ℕ → Settings C) (members : Finset C)

def relevant (results : List Result) : List Result :=
  results.filter fun r ↦ eligible settings members r.job ∧
    (settings r.job).player1 ≠ (settings r.job).player2 ∧ 0 < r.pentanomial.pairs

variable {settings members} {results results' : List Result} {f : Result → ℕ} {a b : C} {job : ℕ}

theorem sum_map_filter {α : Type} {l : List α} {f : α → ℕ} {p : α → Bool}
    (h : ∀ x ∈ l, p x = false → f x = 0) : ((l.filter p).map f).sum = (l.map f).sum := by
  induction l with
  | nil => rfl
  | cons x l ih =>
    have hrest := ih fun y hy ↦ h y (List.mem_cons_of_mem _ hy)
    cases hp : p x with
    | true => simp [hp, hrest]
    | false => simp [hp, hrest, h x List.mem_cons_self hp]

theorem mem_counted : job ∈ counted settings members results ↔
    ∃ r ∈ relevant settings members results, r.job = job := by
  simp only [counted, jobResults, relevant, Finset.mem_filter, List.mem_toFinset, List.mem_map,
    List.mem_filter, decide_eq_true_eq]
  constructor
  · rintro ⟨⟨r, ⟨-, heligible⟩, rfl⟩, hplayers, hpairs⟩
    rw [sums_pairs.summed, total, List.sum_pos_iff_exists_pos_nat] at hpairs
    obtain ⟨n, hn, hpos⟩ := hpairs
    obtain ⟨r', hr', rfl⟩ := List.mem_map.1 hn
    obtain ⟨hmem, hjob⟩ := List.mem_filter.1 hr'
    have hjob := of_decide_eq_true hjob
    exact ⟨r', ⟨hmem, by rwa [hjob], by rwa [hjob], hpos⟩, hjob⟩
  · rintro ⟨r, ⟨hmem, heligible, hplayers, hpairs⟩, rfl⟩
    refine ⟨⟨r, ⟨hmem, heligible⟩, rfl⟩, hplayers, ?_⟩
    rw [sums_pairs.summed, total, List.sum_pos_iff_exists_pos_nat]
    exact ⟨_, List.mem_map_of_mem (List.mem_filter.2 ⟨hmem, decide_eq_true rfl⟩), hpairs⟩

theorem relevant_eq : relevant settings members results =
    (results.filter (·.job ∈ counted settings members results)).filter
      fun r ↦ decide (0 < r.pentanomial.pairs) := by
  rw [List.filter_filter]
  refine List.filter_congr fun r hr ↦ ?_
  rw [Bool.eq_iff_iff, decide_eq_true_iff, Bool.and_eq_true, decide_eq_true_iff, decide_eq_true_iff,
    mem_counted]
  constructor
  · intro h
    exact ⟨h.2.2, r, List.mem_filter.2 ⟨hr, decide_eq_true h⟩, rfl⟩
  · rintro ⟨hpairs, r', hr', hjob⟩
    obtain ⟨heligible, hplayers, -⟩ := of_decide_eq_true (List.mem_filter.1 hr').2
    rw [hjob] at heligible hplayers
    exact ⟨heligible, hplayers, hpairs⟩

theorem sum_counted (hf : ∀ r, r.pentanomial.pairs = 0 → f r = 0) :
    ∑ job ∈ counted settings members results, total results f job =
      ((relevant settings members results).map f).sum := by
  rw [sum_total, relevant_eq]
  exact (sum_map_filter fun r _ hpairs ↦
    hf r (Nat.eq_zero_of_not_pos (of_decide_eq_false hpairs))).symm

theorem sum_seated {p q : Pentanomial → ℕ} (hp : Sums p) (hq : Sums q) :
    ∑ job ∈ counted settings members results,
      seated settings a b job (p (summed results job)) (q (summed results job)) =
    ((relevant settings members results).map fun r ↦
      seated settings a b r.job (p r.pentanomial) (q r.pentanomial)).sum := by
  rw [← sum_counted fun r hr ↦ by simp [seated, hp.zero _ hr, hq.zero _ hr]]
  refine Finset.sum_congr rfl fun job _ ↦ ?_
  rw [hp.summed, hq.summed]
  unfold seated
  split
  · next h => exact total_congr fun r hr ↦ by rw [hr, if_pos h]
  · next h =>
    split
    · next h' => exact total_congr fun r hr ↦ by rw [hr, if_neg h, if_pos h']
    · next h' =>
      symm
      refine List.sum_eq_zero fun n hn ↦ ?_
      obtain ⟨r, hr, rfl⟩ := List.mem_map.1 hn
      rw [of_decide_eq_true (List.mem_filter.1 hr).2, if_neg h, if_neg h']

theorem pairsUsed_eq : (buildMatrix settings members results).pairsUsed =
    ((relevant settings members results).map (·.pentanomial.pairs)).sum := by
  simp only [buildMatrix, sums_pairs.summed]
  exact sum_counted fun r hr ↦ hr

theorem sum_seated_congr {p q : Pentanomial → ℕ} (hp : Sums p) (hq : Sums q)
    (h : relevant settings members results = relevant settings members results') :
    ∑ job ∈ counted settings members results,
      seated settings a b job (p (summed results job)) (q (summed results job)) =
    ∑ job ∈ counted settings members results',
      seated settings a b job (p (summed results' job)) (q (summed results' job)) := by
  rw [sum_seated hp hq, sum_seated hp hq, h]

theorem buildMatrix_congr
    (h : relevant settings members results = relevant settings members results') :
    buildMatrix settings members results = buildMatrix settings members results' := by
  have hcounted : counted settings members results = counted settings members results' := by
    ext job
    rw [mem_counted, mem_counted, h]
  refine Evidence.ext rfl (funext₂ fun a b ↦ ?_) ?_ (congrArg Finset.card hcounted)
    (funext fun a ↦ funext₂ fun b k ↦ sum_seated_congr (sums_counts k) (sums_counts k.rev) h)
  · simp only [buildMatrix, four_mul_pairs_sub, Head2Head.mk.injEq]
    exact ⟨sum_seated_congr sums_pairs sums_pairs h,
      sum_seated_congr sums_halfPoints sums_conceded h⟩
  · rw [pairsUsed_eq, pairsUsed_eq, h]

/-- Results added to those that counted, without a pair more in all, are none that count. -/
theorem relevant_eq_of_pairsUsed_eq {added : List Result}
    (h : relevant settings members results' = relevant settings members results ++ added)
    (hpairs : (buildMatrix settings members results').pairsUsed =
      (buildMatrix settings members results).pairsUsed) :
    relevant settings members results' = relevant settings members results := by
  cases added with
  | nil => rw [h, List.append_nil]
  | cons r added =>
    have hr : r ∈ relevant settings members results' := by
      rw [h]
      exact List.mem_append_right _ List.mem_cons_self
    have hpos := (of_decide_eq_true (List.mem_filter.1 hr).2).2.2
    rw [pairsUsed_eq, pairsUsed_eq, h, List.map_append, List.sum_append, List.map_cons,
      List.sum_cons] at hpairs
    omega

end Relevant

end Birdtest.Ratings
