import Mathlib.Algebra.Ring.Int.Defs
import Mathlib.Data.Int.Notation
import Mathlib.Data.List.Nodup
import Mathlib.Data.List.Perm.Subperm
import Mathlib.Logic.Function.Basic

namespace Birdtest.Base.Tables

variable {κ ρ : Type} [DecidableEq κ]

section Update

variable {rows : κ → Option ρ} {k k' : κ} {row row' : ρ}

theorem of_update_eq_some (h : Function.update rows k (some row) k' = some row') :
    k' = k ∧ row = row' ∨ k' ≠ k ∧ rows k' = some row' := by
  by_cases hk : k' = k
  · rw [hk, Function.update_self, Option.some.injEq] at h
    exact .inl ⟨hk, h⟩
  · rw [Function.update_of_ne hk] at h
    exact .inr ⟨hk, h⟩

theorem of_update_eq_none (h : Function.update rows k (some row) k' = none) :
    k' ≠ k ∧ rows k' = none := by
  by_cases hk : k' = k
  · rw [hk, Function.update_self] at h
    cases h
  · rw [Function.update_of_ne hk] at h
    exact ⟨hk, h⟩

theorem isSome_update (row : ρ) (h : (rows k').isSome) :
    (Function.update rows k (some row) k').isSome := by
  by_cases hk : k' = k
  · rw [hk, Function.update_self, Option.isSome_some]
  · rwa [Function.update_of_ne hk]

end Update

structure Table (κ ρ : Type) where
  rows : List (κ × ρ)
  nodup : (rows.map Prod.fst).Nodup

namespace Table

def empty : Table κ ρ := ⟨[], List.nodup_nil⟩

def get (t : Table κ ρ) (k : κ) : Option ρ := (t.rows.find? (·.1 = k)).map Prod.snd

def put (t : Table κ ρ) (k : κ) (r : ρ) : Table κ ρ where
  rows := (k, r) :: t.rows.filter (·.1 ≠ k)
  nodup := by
    rw [List.map_cons, List.nodup_cons]
    refine ⟨?_, (List.filter_sublist.map _).nodup t.nodup⟩
    simp

def putAll (t : Table κ ρ) (rows : List (κ × ρ)) : Table κ ρ :=
  rows.foldl (fun t p ↦ t.put p.1 p.2) t

def map (t : Table κ ρ) (f : ρ → ρ) : Table κ ρ where
  rows := t.rows.map fun p ↦ (p.1, f p.2)
  nodup := by
    rw [List.map_map]
    exact t.nodup

def select {ρ' : Type} (t : Table κ ρ) (f : ρ → ρ') : Table κ ρ' where
  rows := t.rows.map fun p ↦ (p.1, f p.2)
  nodup := by
    rw [List.map_map]
    exact t.nodup

def filter (t : Table κ ρ) (p : κ → Bool) : Table κ ρ where
  rows := t.rows.filter fun row ↦ p row.1
  nodup := (List.filter_sublist.map _).nodup t.nodup

def retain (t : Table κ ρ) (p : ρ → Bool) : Table κ ρ where
  rows := t.rows.filter fun row ↦ p row.2
  nodup := (List.filter_sublist.map _).nodup t.nodup

def update (t : Table κ ρ) (f : κ → ρ → ρ) : Table κ ρ where
  rows := t.rows.map fun p ↦ (p.1, f p.1 p.2)
  nodup := by
    rw [List.map_map]
    exact t.nodup

def count (t : Table κ ρ) (p : ρ → Bool) : ℕ := t.rows.countP fun row ↦ p row.2

variable {t : Table κ ρ} {k k' : κ} {r : ρ} {p : ρ → Bool}

theorem mem_rows : (k, r) ∈ t.rows ↔ t.get k = some r := by
  obtain ⟨rows, hnodup⟩ := t
  simp only [get]
  induction rows with
  | nil => simp
  | cons row rows ih =>
    rw [List.map_cons, List.nodup_cons] at hnodup
    rw [List.mem_cons, List.find?_cons]
    by_cases hk : row.1 = k
    · subst hk
      have hnot : (row.1, r) ∉ rows := fun h ↦ hnodup.1 (List.mem_map.2 ⟨_, h, rfl⟩)
      simp only [decide_true, Option.map_some, Option.some.injEq, hnot, or_false]
      exact ⟨fun h ↦ congrArg Prod.snd h.symm, fun h ↦ by rw [← h]⟩
    · have hne : (k, r) ≠ row := fun h ↦ hk (congrArg Prod.fst h.symm)
      simp only [hk, hne, decide_false, false_or]
      exact ih hnodup.2

@[simp] theorem get_empty : (empty : Table κ ρ).get k = none := rfl

theorem get_put_self : (t.put k r).get k = some r := by
  rw [← mem_rows]
  exact List.mem_cons_self

theorem get_put_of_ne (h : k' ≠ k) : (t.put k r).get k' = t.get k' := by
  ext r'
  rw [← mem_rows, ← mem_rows]
  simp [put, h]

theorem get_map {f : ρ → ρ} : (t.map f).get k = (t.get k).map f := by
  simp only [get, map, List.find?_map, Option.map_map]
  rfl

theorem get_select {ρ' : Type} {f : ρ → ρ'} : (t.select f).get k = (t.get k).map f := by
  simp only [get, select, List.find?_map, Option.map_map]
  rfl

theorem get_update {f : κ → ρ → ρ} : (t.update f).get k = (t.get k).map (f k) := by
  obtain ⟨rows, hnodup⟩ := t
  simp only [get, update]
  induction rows with
  | nil => rfl
  | cons row rows ih =>
    rw [List.map_cons, List.nodup_cons] at hnodup
    rw [List.map_cons, List.find?_cons, List.find?_cons]
    by_cases hk : row.1 = k
    · simp [hk]
    · simpa [hk] using ih hnodup.2

theorem get_filter {q : κ → Bool} : (t.filter q).get k = if q k then t.get k else none := by
  ext r
  rw [← mem_rows, filter, List.mem_filter, mem_rows]
  split <;> simp [*]

theorem get_retain : (t.retain p).get k = (t.get k).filter p := by
  ext r
  rw [← mem_rows, retain, List.mem_filter, mem_rows, Option.filter_eq_some_iff]

omit [DecidableEq κ] in
theorem count_map {f : ρ → ρ} : (t.map f).count p = t.count fun r ↦ p (f r) := by
  simp only [count, map, List.countP_map]
  rfl

omit [DecidableEq κ] in
theorem count_update {f : κ → ρ → ρ} (h : ∀ k r, p (f k r) = p r) :
    (t.update f).count p = t.count p := by
  simp only [count, update, List.countP_map]
  exact List.countP_congr fun row _ ↦ by simp [h]

omit [DecidableEq κ] in
theorem count_filter_le {q : κ → Bool} : (t.filter q).count p ≤ t.count p :=
  List.filter_sublist.countP_le

omit [DecidableEq κ] in
theorem count_retain_le {q : ρ → Bool} : (t.retain q).count p ≤ t.count p :=
  List.filter_sublist.countP_le

theorem countP_filter_ne (q : κ × ρ → Bool) : (t.rows.filter (·.1 ≠ k)).countP q +
    ((t.get k).any fun r ↦ q (k, r)).toNat = t.rows.countP q := by
  obtain ⟨rows, hnodup⟩ := t
  simp only [get]
  induction rows with
  | nil => simp
  | cons row rows ih =>
    rw [List.map_cons, List.nodup_cons] at hnodup
    by_cases hk : row.1 = k
    · subst hk
      have hrest : rows.filter (·.1 ≠ row.1) = rows := List.filter_eq_self.2 fun row' h ↦ by
        simp only [ne_eq, decide_not, Bool.not_eq_true', decide_eq_false_iff_not]
        exact fun he ↦ hnodup.1 (he ▸ List.mem_map_of_mem h)
      rw [List.filter_cons_of_neg (by simp), List.find?_cons_of_pos (by simp), hrest,
        List.countP_cons]
      cases h : q row <;> simp [h]
    · rw [List.filter_cons_of_pos (by simpa using hk), List.find?_cons_of_neg (by simpa using hk),
        List.countP_cons, List.countP_cons, ← ih hnodup.2]
      omega

theorem count_filter_ne : ((t.rows.filter (·.1 ≠ k)).countP fun row ↦ p row.2) +
    ((t.get k).any p).toNat = t.count p := countP_filter_ne fun row ↦ p row.2

theorem countP_put_lt {q : κ × ρ → Bool} {old : ρ} (hold : t.get k = some old)
    (hcounted : q (k, old) = true) (hnew : q (k, r) = false) :
    (t.put k r).rows.countP q < t.rows.countP q := by
  have hrest := countP_filter_ne (t := t) (k := k) q
  rw [hold, Option.any_some, hcounted] at hrest
  rw [put, List.countP_cons_of_neg (by rw [hnew]; exact Bool.false_ne_true), ← hrest]
  exact Nat.lt_succ_self _

theorem length_le_count {keys : List κ} (hnodup : keys.Nodup)
    (h : ∀ k ∈ keys, ∃ r, t.get k = some r ∧ p r = true) : keys.length ≤ t.count p := by
  have hsubset : keys ⊆ (t.rows.filter fun row ↦ p row.2).map Prod.fst := by
    intro k hk
    obtain ⟨r, hr, hp⟩ := h k hk
    exact List.mem_map.2 ⟨(k, r), List.mem_filter.2 ⟨mem_rows.2 hr, hp⟩, rfl⟩
  have hle := (hnodup.subperm hsubset).length_le
  rwa [List.length_map, ← List.countP_eq_length_filter] at hle

theorem count_put : (t.put k r).count p + ((t.get k).any p).toNat =
    t.count p + (p r).toNat := by
  have hrest := count_filter_ne (t := t) (k := k) (p := p)
  have hput : (t.put k r).count p =
      ((t.rows.filter (·.1 ≠ k)).countP fun row ↦ p row.2) + (p r).toNat := by
    rw [count, put, List.countP_cons]
    cases p r <;> rfl
  omega

section PutAll

variable {rows : List (κ × ρ)}

theorem putAll_cons (row : κ × ρ) : t.putAll (row :: rows) = (t.put row.1 row.2).putAll rows := rfl

theorem get_putAll_of_not_mem (h : k ∉ rows.map Prod.fst) : (t.putAll rows).get k = t.get k := by
  induction rows generalizing t with
  | nil => rfl
  | cons row rows ih =>
    rw [List.map_cons, List.mem_cons, not_or] at h
    rw [putAll_cons, ih h.2, get_put_of_ne h.1]

theorem get_putAll_of_mem (hnodup : (rows.map Prod.fst).Nodup) (h : (k, r) ∈ rows) :
    (t.putAll rows).get k = some r := by
  induction rows generalizing t with
  | nil => cases h
  | cons row rows ih =>
    rw [List.map_cons, List.nodup_cons] at hnodup
    rw [putAll_cons]
    rcases List.mem_cons.1 h with rfl | h
    · rw [get_putAll_of_not_mem hnodup.1, get_put_self]
    · exact ih hnodup.2 h

/-- What rows of distinct keys, written together, change of a count. -/
theorem count_putAll (hnodup : (rows.map Prod.fst).Nodup) : ((t.putAll rows).count p : ℤ) =
    t.count p + (rows.map fun row ↦
      ((p row.2).toNat : ℤ) - ((t.get row.1).any p).toNat).sum := by
  induction rows generalizing t with
  | nil => simp [putAll]
  | cons row rows ih =>
    rw [List.map_cons, List.nodup_cons] at hnodup
    have hput := count_put (t := t) (k := row.1) (r := row.2) (p := p)
    have hrest : (rows.map fun row' ↦ ((p row'.2).toNat : ℤ) -
        (((t.put row.1 row.2).get row'.1).any p).toNat) =
        rows.map fun row' ↦ ((p row'.2).toNat : ℤ) - ((t.get row'.1).any p).toNat :=
      List.map_congr_left fun row' h ↦ by
        rw [get_put_of_ne]
        rintro he
        exact hnodup.1 (he ▸ List.mem_map_of_mem h)
    rw [putAll_cons, ih hnodup.2, hrest, List.map_cons, List.sum_cons]
    omega

end PutAll

end Table

end Birdtest.Base.Tables
