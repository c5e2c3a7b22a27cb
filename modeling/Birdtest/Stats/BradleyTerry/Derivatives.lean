import Birdtest.Base.Ridge
import Birdtest.Stats.BradleyTerry.Cholesky
import Birdtest.Stats.BradleyTerry.Matrix
import Mathlib.Analysis.SpecialFunctions.Log.Basic

namespace Birdtest.Stats.BradleyTerry

open Birdtest.Base

scoped instance atLeastTwo_two : Nat.AtLeastTwo 2 := ⟨le_rfl⟩

noncomputable def priorGames : ℝ := 2

noncomputable def priorScale : ℝ := 2

noncomputable def priorFadeGames : ℝ := 200

noncomputable def priorFloorGames : ℝ := 0.2

noncomputable def winProbability (a b : ℝ) : ℝ := 1 / (1 + Real.exp (b - a))

noncomputable def logSumExp (a b : ℝ) : ℝ :=
  let high := max a b
  high + Real.log (1 + Real.exp (-|a - b|))

def bump {m : ℕ} (v : Fin m → ℝ) (slot : Option (Fin m)) (value : ℝ) : Fin m → ℝ :=
  match slot with
  | some a => Function.update v a (v a + value)
  | none => v

def addPair {m : ℕ} (matrix : Square m ℝ) (a b : Option (Fin m)) (value : ℝ) : Square m ℝ :=
  let matrix := match a with
    | some a => matrix.set a a (matrix.get a a + value)
    | none => matrix
  let matrix := match b with
    | some b => matrix.set b b (matrix.get b b + value)
    | none => matrix
  match a, b with
  | some a, some b =>
    let matrix := matrix.set a b (matrix.get a b - value)
    matrix.set b a (matrix.get b a - value)
  | _, _ => matrix

section Fit

variable {n : ℕ} (matrix : Matrix n ℝ) (anchor : ℕ)

noncomputable def played : List (Call n ℝ) :=
  (List.finRange n).flatMap fun i ↦ (above i).filterMap fun j ↦
    let cell := matrix.get i j
    if 0 < cell.games then some ⟨i, j, cell.games, cell.score⟩ else none

noncomputable def virtualGames (i : Fin n) : ℝ :=
  let faded := priorGames / (1 + matrix.gamesPlayed i / priorFadeGames)
  max faded priorFloorGames

noncomputable def slope : ℝ := 1 / priorScale

noncomputable def mean (theta : Fin n → ℝ) : ℝ := (∑ i, theta i) / n

def free (n anchor : ℕ) : List (Fin n) := (List.finRange n).filter fun i ↦ i.val ≠ anchor

def slot (anchor : ℕ) : Fin n → Option (Fin (free n anchor).length) :=
  (List.finRange (free n anchor).length).foldl
    (fun slot k ↦ Function.update slot ((free n anchor).get k) (some k)) fun _ ↦ none

noncomputable def objective (theta : Fin n → ℝ) : ℝ :=
  let real := ((played matrix).map fun c ↦
    let d := theta c.i - theta c.j
    c.score * d - c.games * logSumExp d 0).sum
  let centre := mean theta
  let prior := ∑ i,
    let d := slope * (theta i - centre)
    virtualGames matrix i * (d / 2 - logSumExp d 0)
  real + prior

noncomputable def pulls (theta : Fin n → ℝ) (i : Fin n) : ℝ :=
  let p := winProbability (slope * theta i) (slope * mean theta)
  slope * virtualGames matrix i * (1 / 2 - p)

noncomputable def weights (theta : Fin n → ℝ) (i : Fin n) : ℝ :=
  let p := winProbability (slope * theta i) (slope * mean theta)
  slope * slope * virtualGames matrix i * p * (1 - p)

abbrev Accumulated (n anchor : ℕ) : Type :=
  (Fin (free n anchor).length → ℝ) × Square (free n anchor).length ℝ

noncomputable def addPlayed (theta : Fin n → ℝ) (so : Accumulated n anchor) (c : Call n ℝ) :
    Accumulated n anchor :=
  let (gradient, curvature) := so
  let p := winProbability (theta c.i) (theta c.j)
  let surplus := c.score - c.games * p
  let gradient := bump gradient (slot anchor c.i) surplus
  let gradient := bump gradient (slot anchor c.j) (-surplus)
  (gradient, addPair curvature (slot anchor c.i) (slot anchor c.j) (c.games * p * (1 - p)))

noncomputable def derivatives (theta : Fin n → ℝ) : Accumulated n anchor :=
  let (gradient, curvature) :=
    (played matrix).foldl (addPlayed anchor theta) (fun _ ↦ 0, .filled 0)
  let share : ℝ := 1 / n
  let pullSum := ∑ i, pulls matrix theta i
  let weightSum := ∑ i, weights matrix theta i
  let config := (free n anchor).get
  (fun a ↦ gradient a + (pulls matrix theta (config a) - share * pullSum),
    .ofFn fun a b ↦
      let diagonal := if a = b then weights matrix theta (config a) else 0
      curvature.get a b + (diagonal -
        share * (weights matrix theta (config a) + weights matrix theta (config b)) +
        share * share * weightSum))

def unit (i : Fin n) (a : Fin (free n anchor).length) : ℝ :=
  if (free n anchor).get a = i then 1 else 0

noncomputable def difference (c : Call n ℝ) (a : Fin (free n anchor).length) : ℝ :=
  unit anchor c.i a - unit anchor c.j a

noncomputable def centred (i : Fin n) (a : Fin (free n anchor).length) : ℝ :=
  unit anchor i a - 1 / n

end Fit

section Slots

variable {n anchor : ℕ} {i : Fin n} {a b : Fin (free n anchor).length}

theorem foldl_slots {κ ι : Type} [DecidableEq ι] {place : κ → ι} (hplace : place.Injective)
    (l : List κ) (slot : ι → Option κ) (i : ι) (k : κ) :
    l.foldl (fun slot k ↦ Function.update slot (place k) (some k)) slot i = some k ↔
      k ∈ l ∧ place k = i ∨ (∀ k' ∈ l, place k' ≠ i) ∧ slot i = some k := by
  induction l generalizing slot with
  | nil => simp
  | cons k' l ih =>
    rw [List.foldl_cons, ih, Function.update_apply]
    by_cases h : i = place k'
    · subst h
      simp only [if_true, hplace.eq_iff, List.mem_cons, Option.some.injEq]
      grind
    · rw [if_neg h]
      grind

theorem nodup_free (n anchor : ℕ) : (free n anchor).Nodup := (List.nodup_finRange n).filter _

theorem get_free_inj : (free n anchor).get a = (free n anchor).get b ↔ a = b :=
  (nodup_free n anchor).injective_get.eq_iff

theorem slot_eq_some : slot anchor i = some a ↔ (free n anchor).get a = i := by
  rw [slot, foldl_slots (nodup_free n anchor).injective_get]
  simp [List.mem_finRange]

theorem ite_slot : (if slot anchor i = some a then (1 : ℝ) else 0) = unit anchor i a :=
  if_congr slot_eq_some rfl rfl

end Slots

section Accumulate

variable {m : ℕ} {a b : Fin m} {s t : Option (Fin m)}

theorem bump_apply (v : Fin m → ℝ) (value : ℝ) :
    bump v s value a = v a + value * if s = some a then 1 else 0 := by
  cases s with
  | none => simp [bump]
  | some c =>
    rw [bump, Function.update_apply]
    by_cases h : a = c
    · rw [if_pos h, if_pos (congrArg some h.symm), mul_one, h]
    · rw [if_neg h, if_neg fun heq ↦ h (Option.some.inj heq).symm, mul_zero, add_zero]

theorem get_set_add (matrix : Square m ℝ) (s t : Fin m) (value : ℝ) :
    (matrix.set s t (matrix.get s t + value)).get a b = matrix.get a b +
      value * (if some s = some a then 1 else 0) * if some t = some b then 1 else 0 := by
  rw [Square.get_set]
  by_cases ha : a = s
  · by_cases hb : b = t
    · simp [ha, hb]
    · simp [hb, Ne.symm hb]
  · simp [ha, Ne.symm ha]

theorem get_addPair (matrix : Square m ℝ) (value : ℝ) :
    (addPair matrix s t value).get a b = matrix.get a b + value *
      ((if s = some a then 1 else 0) - if t = some a then 1 else 0) *
      ((if s = some b then 1 else 0) - if t = some b then 1 else 0) := by
  have hnone (c : Fin m) : (if (none : Option (Fin m)) = some c then (1 : ℝ) else 0) = 0 :=
    if_neg nofun
  cases s with
  | none =>
    cases t with
    | none =>
      rw [addPair, hnone]
      ring
    | some t =>
      rw [addPair, hnone, hnone, get_set_add]
      ring
  | some s =>
    cases t with
    | none =>
      rw [addPair, hnone, hnone, get_set_add]
      ring
    | some t =>
      dsimp only [addPair]
      rw [sub_eq_add_neg, sub_eq_add_neg, get_set_add (a := a) (b := b),
        get_set_add (a := a) (b := b), get_set_add (a := a) (b := b),
        get_set_add (a := a) (b := b)]
      ring

end Accumulate

section Sums

variable {n anchor : ℕ} {a b : Fin (free n anchor).length} (theta : Fin n → ℝ)

noncomputable def surplus (c : Call n ℝ) : ℝ :=
  c.score - c.games * winProbability (theta c.i) (theta c.j)

noncomputable def information (c : Call n ℝ) : ℝ :=
  c.games * winProbability (theta c.i) (theta c.j) * (1 - winProbability (theta c.i) (theta c.j))

theorem addPlayed_fst (so : Accumulated n anchor) (c : Call n ℝ) :
    (addPlayed anchor theta so c).1 a = so.1 a + surplus theta c * difference anchor c a := by
  simp only [addPlayed, bump_apply, ite_slot, difference, surplus]
  ring

theorem get_addPlayed_snd (so : Accumulated n anchor) (c : Call n ℝ) :
    (addPlayed anchor theta so c).2.get a b = so.2.get a b +
      information theta c * difference anchor c a * difference anchor c b := by
  simp only [addPlayed, get_addPair, ite_slot, difference, information]

theorem foldl_addPlayed (l : List (Call n ℝ)) (so : Accumulated n anchor) :
    (l.foldl (addPlayed anchor theta) so).1 a =
        so.1 a + (l.map fun c ↦ surplus theta c * difference anchor c a).sum ∧
      (l.foldl (addPlayed anchor theta) so).2.get a b = so.2.get a b +
        (l.map fun c ↦ information theta c * difference anchor c a *
          difference anchor c b).sum := by
  induction l generalizing so with
  | nil => simp
  | cons c l ih =>
    obtain ⟨hgradient, hcurvature⟩ := ih (addPlayed anchor theta so c)
    rw [List.foldl_cons, hgradient, hcurvature, addPlayed_fst, get_addPlayed_snd]
    simp only [List.map_cons, List.sum_cons, add_assoc, and_self]

theorem sum_centred (f : Fin n → ℝ) :
    ∑ i, f i * centred anchor i a = f ((free n anchor).get a) - 1 / n * ∑ i, f i := by
  simp only [centred, unit, mul_sub, Finset.sum_sub_distrib, mul_ite, mul_one, mul_zero,
    Finset.sum_ite_eq, Finset.mem_univ, if_true, ← Finset.sum_mul]
  ring

theorem sum_centred_mul (f : Fin n → ℝ) :
    ∑ i, f i * centred anchor i a * centred anchor i b =
      (if a = b then f ((free n anchor).get a) else 0) -
        1 / n * (f ((free n anchor).get a) + f ((free n anchor).get b)) +
        1 / n * (1 / n) * ∑ i, f i := by
  have hterm (i : Fin n) : f i * centred anchor i a * centred anchor i b =
      f i * unit anchor i a * unit anchor i b - 1 / n * (f i * unit anchor i a) -
        1 / n * (f i * unit anchor i b) + 1 / n * (1 / n) * f i := by
    rw [centred, centred]
    ring
  have hunit (c : Fin (free n anchor).length) :
      ∑ i, f i * unit anchor i c = f ((free n anchor).get c) := by
    simp [unit]
  have hproduct : ∑ i, f i * unit anchor i a * unit anchor i b =
      if a = b then f ((free n anchor).get a) else 0 := by
    by_cases h : a = b
    · subst h
      simp [unit]
    · rw [if_neg h]
      refine Finset.sum_eq_zero fun i _ ↦ ?_
      by_cases ha : (free n anchor).get a = i
      · have hb : ¬(free n anchor).get b = i := fun hb ↦ h (get_free_inj.1 (ha.trans hb.symm))
        rw [unit, unit, if_neg hb, mul_zero]
      · rw [unit, if_neg ha, mul_zero, zero_mul]
  simp only [hterm, Finset.sum_add_distrib, Finset.sum_sub_distrib, ← Finset.mul_sum, hproduct,
    hunit]
  ring

variable (matrix : Matrix n ℝ)

theorem gradient_exact : (derivatives matrix anchor theta).1 a =
    ((played matrix).map fun c ↦ surplus theta c * difference anchor c a).sum +
      ∑ i, pulls matrix theta i * centred anchor i a := by
  have hgradient := (foldl_addPlayed (a := a) (b := a) theta (played matrix)
    (fun _ ↦ 0, .filled 0)).1
  rw [zero_add] at hgradient
  rw [sum_centred, ← hgradient]
  rfl

/-- The information of every head-to-head on its difference, and of every config's virtual games on
what they move along. -/
theorem curvature_exact : (derivatives matrix anchor theta).2.get a b =
    ((played matrix).map fun c ↦
        information theta c * difference anchor c a * difference anchor c b).sum +
      ∑ i, weights matrix theta i * centred anchor i a * centred anchor i b := by
  have hcurvature := (foldl_addPlayed (a := a) (b := b) theta (played matrix)
    (fun _ ↦ 0, .filled 0)).2
  rw [Square.get_filled, zero_add] at hcurvature
  rw [sum_centred_mul, ← hcurvature]
  simp only [derivatives, Square.get_ofFn]

end Sums

end Birdtest.Stats.BradleyTerry
