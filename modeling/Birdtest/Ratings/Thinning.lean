import Birdtest.Base.Windows
import Mathlib.Algebra.Order.Ring.Int
import Mathlib.Data.Prod.Lex

namespace Birdtest.Ratings.Thinning

open Birdtest.Base.Windows

variable {I P : Type} [LinearOrder I] [DecidableEq P]

/-- What the thinning reads of a `rating_runs` row, its time in microseconds. -/
structure Run (I P : Type) where
  id : I
  pool : P
  computedAt : ℤ
  deriving DecidableEq

def microsPerDay : ℤ := 24 * 60 * 60 * 1000000

def day (time : ℤ) : ℤ := time / microsPerDay

def runFullResolution : ℤ := 30 * microsPerDay

def Run.key (r : Run I P) : ℤ ×ₗ I := toLex (r.computedAt, r.id)

section Statement

variable (now : ℤ) (rows : Finset (Run I P))

def old : Finset (Run I P) := rows.filter fun r ↦ r.computedAt < now - runFullResolution

def nInDay : Run I P → ℕ :=
  rowNumber (old now rows) (fun r ↦ (r.pool, day r.computedAt)) fun r ↦ OrderDual.toDual r.key

def nInPool : Run I P → ℕ := rowNumber (old now rows) Run.pool Run.key

def surplus : Finset (Run I P) :=
  (old now rows).filter fun r ↦ 1 < nInDay now rows r ∧ 1 < nInPool now rows r

variable {limit : ℕ} (limited : Limit I limit)

/-- The loop from its `n`th statement on: the runs left, and how many were deleted. -/
def thinLoop : ℕ → ℕ → Finset (Run I P) → ℕ → Option (Finset (Run I P) × ℕ)
  | 0, _, _, _ => none
  | fuel + 1, n, rows, deleted =>
    let ids := limited.pick n ((surplus now rows).image Run.id)
    let batch := (rows.filter (·.id ∈ ids)).card
    let rows := rows.filter (·.id ∉ ids)
    if batch < limit then some (rows, deleted + batch)
    else thinLoop fuel (n + 1) rows (deleted + batch)

end Statement

structure RatingRuns (I P : Type) where
  rows : Finset (Run I P)
  ids : ∀ r ∈ rows, ∀ r' ∈ rows, r.id = r'.id → r = r'

section Keepers

def LastOfDay (now : ℤ) (rows : Finset (Run I P)) (r : Run I P) : Prop :=
  ∀ r' ∈ rows, r'.computedAt < now - runFullResolution → r'.pool = r.pool →
    day r'.computedAt = day r.computedAt → r'.key ≤ r.key

def FirstOfPool (now : ℤ) (rows : Finset (Run I P)) (r : Run I P) : Prop :=
  ∀ r' ∈ rows, r'.computedAt < now - runFullResolution → r'.pool = r.pool → r.key ≤ r'.key

variable {now : ℤ} {rows gone : Finset (Run I P)} {r : Run I P}

omit [LinearOrder I] [DecidableEq P] in
theorem mem_old : r ∈ old now rows ↔ r ∈ rows ∧ r.computedAt < now - runFullResolution :=
  Finset.mem_filter

theorem one_lt_nInDay : 1 < nInDay now rows r ↔ ¬LastOfDay now rows r := by
  rw [nInDay, one_lt_rowNumber, LastOfDay]
  push Not
  constructor
  · rintro ⟨r', hr', hpart, hlt⟩
    obtain ⟨hpool, hday⟩ := Prod.mk.inj hpart
    exact ⟨r', (mem_old.1 hr').1, (mem_old.1 hr').2, hpool, hday, OrderDual.toDual_lt_toDual.1 hlt⟩
  · rintro ⟨r', hr', hold, hpool, hday, hlt⟩
    exact ⟨r', mem_old.2 ⟨hr', hold⟩, Prod.ext hpool hday, OrderDual.toDual_lt_toDual.2 hlt⟩

theorem one_lt_nInPool : 1 < nInPool now rows r ↔ ¬FirstOfPool now rows r := by
  rw [nInPool, one_lt_rowNumber, FirstOfPool]
  push Not
  constructor
  · rintro ⟨r', hr', hpool, hlt⟩
    exact ⟨r', (mem_old.1 hr').1, (mem_old.1 hr').2, hpool, hlt⟩
  · rintro ⟨r', hr', hold, hpool, hlt⟩
    exact ⟨r', mem_old.2 ⟨hr', hold⟩, hpool, hlt⟩

theorem mem_surplus : r ∈ surplus now rows ↔ r ∈ rows ∧
    r.computedAt < now - runFullResolution ∧ ¬LastOfDay now rows r ∧ ¬FirstOfPool now rows r := by
  rw [surplus, Finset.mem_filter, mem_old, one_lt_nInDay, one_lt_nInPool, and_assoc]

theorem surplus_subset : surplus now rows ⊆ rows := fun _ h ↦ (mem_surplus.1 h).1

theorem old_sdiff : old now (rows \ gone) = old now rows \ gone := by
  ext r
  rw [mem_old, Finset.mem_sdiff, Finset.mem_sdiff, mem_old]
  tauto

theorem surplus_sdiff (h : gone ⊆ surplus now rows) :
    surplus now (rows \ gone) = surplus now rows \ gone := by
  have hday (r : Run I P) : 1 < nInDay now (rows \ gone) r ↔ 1 < nInDay now rows r := by
    rw [nInDay, nInDay, old_sdiff]
    exact one_lt_rowNumber_sdiff fun r hr ↦ (Finset.mem_filter.1 (h hr)).2.1
  have hpool (r : Run I P) : 1 < nInPool now (rows \ gone) r ↔ 1 < nInPool now rows r := by
    rw [nInPool, nInPool, old_sdiff]
    exact one_lt_rowNumber_sdiff fun r hr ↦ (Finset.mem_filter.1 (h hr)).2.2
  ext r
  rw [surplus, surplus, Finset.mem_filter, Finset.mem_sdiff, Finset.mem_filter, old_sdiff,
    Finset.mem_sdiff, hday, hpool]
  tauto

theorem sdiff_surplus_sdiff (h : gone ⊆ surplus now rows) :
    (rows \ gone) \ surplus now (rows \ gone) = rows \ surplus now rows := by
  ext r
  rw [surplus_sdiff h, Finset.mem_sdiff, Finset.mem_sdiff, Finset.mem_sdiff, Finset.mem_sdiff]
  have hmem := @h r
  tauto

theorem surplus_sdiff_self : surplus now (rows \ surplus now rows) = ∅ := by
  rw [surplus_sdiff subset_rfl, Finset.sdiff_self]

end Keepers

section Loop

variable {now : ℤ} {rows gone : Finset (Run I P)} {r : Run I P} {limit : ℕ}
  {limited : Limit I limit}

/-- What a statement deletes: surplus runs, as many of them as the limit lets it. -/
theorem deleted_spec (hids : ∀ r ∈ rows, ∀ r' ∈ rows, r.id = r'.id → r = r') (n : ℕ) :
    rows.filter (·.id ∈ limited.pick n ((surplus now rows).image Run.id)) ⊆ surplus now rows ∧
    (rows.filter (·.id ∈ limited.pick n ((surplus now rows).image Run.id))).card =
      min limit (surplus now rows).card := by
  have hsubset : rows.filter (·.id ∈ limited.pick n ((surplus now rows).image Run.id)) ⊆
      surplus now rows := by
    intro r hr
    obtain ⟨hmem, hpicked⟩ := Finset.mem_filter.1 hr
    obtain ⟨r', hr', hid⟩ := Finset.mem_image.1 (limited.subset n _ hpicked)
    rwa [hids r hmem r' (surplus_subset hr') hid.symm]
  have hinj : Set.InjOn Run.id (rows : Set (Run I P)) := fun r hr r' hr' ↦ hids r hr r' hr'
  have himage : (rows.filter (·.id ∈ limited.pick n ((surplus now rows).image Run.id))).image
      Run.id = limited.pick n ((surplus now rows).image Run.id) := by
    ext id
    rw [Finset.mem_image]
    constructor
    · rintro ⟨r, hr, rfl⟩
      exact (Finset.mem_filter.1 hr).2
    · intro hid
      obtain ⟨r, hr, rfl⟩ := Finset.mem_image.1 (limited.subset n _ hid)
      exact ⟨r, Finset.mem_filter.2 ⟨surplus_subset hr, hid⟩, rfl⟩
  refine ⟨hsubset, ?_⟩
  rw [← Finset.card_image_of_injOn (hinj.mono fun r hr ↦ (Finset.mem_filter.1 hr).1), himage,
    limited.card, Finset.card_image_of_injOn (hinj.mono fun r hr ↦ surplus_subset hr)]

theorem thinLoop_eq (hids : ∀ r ∈ rows, ∀ r' ∈ rows, r.id = r'.id → r = r') (hlimit : 1 ≤ limit)
    {fuel : ℕ} (hfuel : (surplus now rows).card < fuel) (n deleted : ℕ) :
    thinLoop now limited fuel n rows deleted =
      some (rows \ surplus now rows, deleted + (surplus now rows).card) := by
  induction fuel generalizing n rows deleted with
  | zero => omega
  | succ fuel ih =>
    obtain ⟨hsubset, hcard⟩ := @deleted_spec _ _ _ _ now rows limit limited hids n
    have hleft : rows.filter (·.id ∉ limited.pick n ((surplus now rows).image Run.id)) =
        rows \ rows.filter (·.id ∈ limited.pick n ((surplus now rows).image Run.id)) := by
      ext r
      rw [Finset.mem_filter, Finset.mem_sdiff, Finset.mem_filter]
      tauto
    rw [thinLoop, hleft]
    generalize rows.filter (·.id ∈ limited.pick n ((surplus now rows).image Run.id)) = gone
      at hsubset hcard
    split_ifs with hlast
    · have hall : gone = surplus now rows := Finset.eq_of_subset_of_card_le hsubset (by omega)
      rw [hall]
    · have hleast : limit ≤ (surplus now rows).card := by omega
      have hrest : (surplus now (rows \ gone)).card = (surplus now rows).card - gone.card := by
        rw [surplus_sdiff hsubset, Finset.card_sdiff_of_subset hsubset]
      rw [ih (fun r hr r' hr' ↦ hids r (Finset.sdiff_subset hr) r' (Finset.sdiff_subset hr'))
        (by omega), sdiff_surplus_sdiff hsubset]
      congr 2
      omega

end Loop

section Exactness

variable {limit : ℕ}

def kept (now : ℤ) (table : RatingRuns I P) : Finset (Run I P) :=
  table.rows \ surplus now table.rows

/-- Thinning ends, whichever rows its statements take, with the rows that one statement without a
limit would leave: all but the old runs that are neither the last of their day nor the first of
their pool. Every pool's newest and first runs are among them, and a second call deletes none. -/
theorem thin_old_runs_exact (hlimit : 1 ≤ limit) (limited limited' : Limit I limit) (now : ℤ)
    (table : RatingRuns I P) {fuel : ℕ} (hfuel : table.rows.card < fuel) :
    thinLoop now limited fuel 0 table.rows 0 =
      some (kept now table, (table.rows \ kept now table).card) ∧
    (∀ r ∈ table.rows, r ∉ kept now table ↔ r.computedAt < now - runFullResolution ∧
      ¬LastOfDay now table.rows r ∧ ¬FirstOfPool now table.rows r) ∧
    (∀ r ∈ table.rows, (∀ r' ∈ table.rows, r'.pool = r.pool → r'.key ≤ r.key) →
      r ∈ kept now table) ∧
    (∀ r ∈ table.rows, (∀ r' ∈ table.rows, r'.pool = r.pool → r.key ≤ r'.key) →
      r ∈ kept now table) ∧
    thinLoop now limited' fuel 0 (kept now table) 0 = some (kept now table, 0) := by
  have hmem (r : Run I P) (hr : r ∈ table.rows) : r ∉ kept now table ↔
      r.computedAt < now - runFullResolution ∧
        ¬LastOfDay now table.rows r ∧ ¬FirstOfPool now table.rows r := by
    rw [kept, Finset.mem_sdiff, mem_surplus]
    tauto
  have hle : (surplus now table.rows).card ≤ table.rows.card := Finset.card_le_card surplus_subset
  refine ⟨?_, hmem, fun r hr hnewest ↦ ?_, fun r hr hfirst ↦ ?_, ?_⟩
  · rw [thinLoop_eq table.ids hlimit (by omega), kept, Finset.sdiff_sdiff_eq_self surplus_subset,
      Nat.zero_add]
  · by_contra hnot
    exact ((hmem r hr).1 hnot).2.1 fun r' hr' _ hpool _ ↦ hnewest r' hr' hpool
  · by_contra hnot
    exact ((hmem r hr).1 hnot).2.2 fun r' hr' _ hpool ↦ hfirst r' hr' hpool
  · have hnone : surplus now (kept now table) = ∅ := surplus_sdiff_self
    have hids : ∀ r ∈ kept now table, ∀ r' ∈ kept now table, r.id = r'.id → r = r' :=
      fun r hr r' hr' ↦ table.ids r (Finset.sdiff_subset hr) r' (Finset.sdiff_subset hr')
    rw [thinLoop_eq hids hlimit (by rw [hnone, Finset.card_empty]; omega), hnone]
    simp

def threeRuns : RatingRuns ℕ ℕ where
  rows := {⟨1, 0, 5⟩, ⟨2, 0, 5⟩, ⟨3, 0, 6⟩}
  ids := by decide

theorem thin_old_runs_exact_three :
    thinLoop (60 * microsPerDay + 7) (Limit.least 1) 4 0 threeRuns.rows 0 =
      some ({⟨1, 0, 5⟩, ⟨3, 0, 6⟩}, 1) := by
  have hkept : kept (60 * microsPerDay + 7) threeRuns = {⟨1, 0, 5⟩, ⟨3, 0, 6⟩} := by
    decide +kernel
  have hexact := (thin_old_runs_exact (le_refl 1) (Limit.least 1) (Limit.least 1)
    (60 * microsPerDay + 7) threeRuns (show threeRuns.rows.card < 4 by decide)).1
  rw [hkept] at hexact
  exact hexact

end Exactness

end Birdtest.Ratings.Thinning
