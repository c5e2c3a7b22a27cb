import Mathlib.Data.Finset.Card
import Mathlib.Data.Finset.Max
import Mathlib.Data.Finset.Sort
import Mathlib.Order.OrderDual

namespace Birdtest.Base.Windows

variable {ρ κ o ι : Type} [DecidableEq κ] [LinearOrder o]
  {rows gone : Finset ρ} {part : ρ → κ} {key : ρ → o} {r : ρ}

def rowNumber (rows : Finset ρ) (part : ρ → κ) (key : ρ → o) (r : ρ) : ℕ :=
  (rows.filter fun r' ↦ part r' = part r ∧ key r' < key r).card + 1

theorem one_lt_rowNumber : 1 < rowNumber rows part key r ↔
    ∃ r' ∈ rows, part r' = part r ∧ key r' < key r := by
  rw [rowNumber, Nat.lt_add_left_iff_pos, Finset.card_pos]
  simp [Finset.Nonempty]

theorem exists_first (hr : r ∈ rows) : ∃ first ∈ rows, part first = part r ∧ key first ≤ key r ∧
    ¬1 < rowNumber rows part key first := by
  obtain ⟨first, hfirst, hmin⟩ :=
    Finset.exists_min_image (rows.filter fun r' ↦ part r' = part r) key
    ⟨r, Finset.mem_filter.2 ⟨hr, rfl⟩⟩
  obtain ⟨hmem, hpart⟩ := Finset.mem_filter.1 hfirst
  refine ⟨first, hmem, hpart, hmin r (Finset.mem_filter.2 ⟨hr, rfl⟩), ?_⟩
  rw [one_lt_rowNumber]
  rintro ⟨r', hr', hpart', hlt⟩
  exact absurd hlt (not_lt.2 (hmin r' (Finset.mem_filter.2 ⟨hr', hpart'.trans hpart⟩)))

/-- Where no row goes that is the first of its partition, a row is the first of what is left of its
own just where it was before. -/
theorem one_lt_rowNumber_sdiff [DecidableEq ρ] (hgone : ∀ r ∈ gone, 1 < rowNumber rows part key r) :
    1 < rowNumber (rows \ gone) part key r ↔ 1 < rowNumber rows part key r := by
  rw [one_lt_rowNumber, one_lt_rowNumber]
  constructor
  · rintro ⟨r', hr', h⟩
    exact ⟨r', (Finset.mem_sdiff.1 hr').1, h⟩
  · rintro ⟨r', hr', hpart, hlt⟩
    obtain ⟨first, hmem, hfirst, hle, hnot⟩ := @exists_first _ _ _ _ _ rows part key r' hr'
    exact ⟨first, Finset.mem_sdiff.2 ⟨hmem, fun h ↦ hnot (hgone first h)⟩, hfirst.trans hpart,
      lt_of_le_of_lt hle hlt⟩

/-- Which rows each of a run of statements takes with `LIMIT`: as many as there are, up to the
limit, and any of them. -/
structure Limit (ι : Type) (limit : ℕ) where
  pick : ℕ → Finset ι → Finset ι
  subset (n : ℕ) (found : Finset ι) : pick n found ⊆ found
  card (n : ℕ) (found : Finset ι) : (pick n found).card = min limit found.card

def Limit.least [LinearOrder ι] (limit : ℕ) : Limit ι limit where
  pick _ found := ((found.sort (· ≤ ·)).take limit).toFinset
  subset _ found i hi := (Finset.mem_sort _).1 (List.mem_of_mem_take (List.mem_toFinset.1 hi))
  card _ found := by
    rw [List.toFinset_card_of_nodup ((List.take_sublist _ _).nodup (found.sort_nodup _)),
      List.length_take, Finset.length_sort]

end Birdtest.Base.Windows
