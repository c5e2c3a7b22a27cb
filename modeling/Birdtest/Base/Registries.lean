import Birdtest.Base.Tables

namespace Birdtest.Base.Registries

open Birdtest.Base.Tables

variable {κ ρ : Type} [DecidableEq κ]

structure Registry (κ ρ : Type) where
  log : Table κ ρ
  deleted : List κ

namespace Registry

def empty : Registry κ ρ := ⟨Table.empty, []⟩

def live (r : Registry κ ρ) : Table κ ρ := r.log.filter (· ∉ r.deleted)

def get (r : Registry κ ρ) (k : κ) : Option ρ := r.live.get k

def view (r : Registry κ ρ) (unseen : List κ) (k : κ) : Option ρ :=
  if k ∈ unseen then none else r.log.get k

def insert (r : Registry κ ρ) (k : κ) (row : ρ) : Registry κ ρ := { r with log := r.log.put k row }

def delete (r : Registry κ ρ) (k : κ) : Registry κ ρ := { r with deleted := k :: r.deleted }

def Extends (r r' : Registry κ ρ) : Prop :=
  ∀ k row, r.log.get k = some row → r'.log.get k = some row

variable {r r' : Registry κ ρ} {k k' : κ} {row row' : ρ} {unseen : List κ}

theorem get_eq : r.get k = if k ∈ r.deleted then none else r.log.get k := by
  rw [get, live, Table.get_filter]
  by_cases hk : k ∈ r.deleted <;> simp [hk]

theorem log_of_get (h : r.get k = some row) : r.log.get k = some row := by
  rw [get_eq] at h
  exact (Option.ite_none_left_eq_some.1 h).2

theorem get_of_log (hlive : (r.get k).isSome) (h : r.log.get k = some row) :
    r.get k = some row := by
  obtain ⟨row', hrow'⟩ := Option.isSome_iff_exists.1 hlive
  rw [log_of_get hrow'] at h
  cases h
  exact hrow'

theorem log_of_view (h : r.view unseen k = some row) : r.log.get k = some row :=
  (Option.ite_none_left_eq_some.1 h).2

theorem Extends.refl (r : Registry κ ρ) : r.Extends r := fun _ _ h ↦ h

theorem extends_insert (hfresh : r.log.get k = none) : r.Extends (r.insert k row) := by
  intro k' row' h
  have hne : k' ≠ k := by
    rintro rfl
    rw [hfresh] at h
    cases h
  exact (Table.get_put_of_ne hne).trans h

theorem extends_delete : r.Extends (r.delete k) := fun _ _ h ↦ h

theorem Extends.get_eq (h : r.Extends r') (hrow : r.log.get k = some row)
    (hget : r'.get k = some row') :
    row' = row := by
  have hlog := log_of_get hget
  rw [h k row hrow] at hlog
  exact (Option.some.inj hlog).symm

theorem of_get_insert (h : (r.insert k row).get k' = some row') :
    k' = k ∧ row' = row ∨ r.get k' = some row' := by
  rw [Registry.get_eq] at h
  obtain ⟨hdeleted, h⟩ := Option.ite_none_left_eq_some.1 h
  by_cases hk : k' = k
  · subst hk
    exact .inl ⟨rfl, (Option.some.inj (Table.get_put_self.symm.trans h)).symm⟩
  · rw [← h, Registry.get_eq]
    exact .inr ((if_neg hdeleted).trans (Table.get_put_of_ne hk).symm)

theorem get_insert_of_get (hfresh : r.log.get k = none) (h : r.get k' = some row') :
    (r.insert k row).get k' = some row' := by
  have hlog : (r.insert k row).log.get k' = some row' :=
    extends_insert hfresh k' row' (log_of_get h)
  rw [Registry.get_eq] at h ⊢
  obtain ⟨hdeleted, -⟩ := Option.ite_none_left_eq_some.1 h
  exact (if_neg hdeleted).trans hlog

theorem of_get_delete (h : (r.delete k).get k' = some row') : k' ≠ k ∧ r.get k' = some row' := by
  rw [Registry.get_eq] at h
  obtain ⟨hdeleted, h⟩ := Option.ite_none_left_eq_some.1 h
  rw [delete, List.mem_cons, not_or] at hdeleted
  obtain ⟨hne, hnot⟩ := hdeleted
  refine ⟨hne, ?_⟩
  rw [Registry.get_eq, if_neg hnot]
  exact h

theorem get_delete_of_ne (hne : k' ≠ k) : (r.delete k).get k' = r.get k' := by
  rw [Registry.get_eq, Registry.get_eq]
  simp [delete, hne]

end Registry

end Birdtest.Base.Registries
