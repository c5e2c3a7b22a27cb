import Mathlib.Data.Fin.Basic
import Mathlib.Logic.Equiv.Fin.Basic

namespace Birdtest.Base

@[ext] structure Square (n : ℕ) (α : Type) where
  cells : Fin (n * n) → α

namespace Square

variable {n : ℕ} {α : Type}

/-- `i * n + j` -/
def place (i j : Fin n) : Fin (n * n) := finProdFinEquiv (i, j)

def filled (a : α) : Square n α := ⟨fun _ ↦ a⟩

def ofFn (f : Fin n → Fin n → α) : Square n α :=
  ⟨fun p ↦ f (finProdFinEquiv.symm p).1 (finProdFinEquiv.symm p).2⟩

def get (s : Square n α) (i j : Fin n) : α := s.cells (place i j)

def set (s : Square n α) (i j : Fin n) (a : α) : Square n α :=
  ⟨Function.update s.cells (place i j) a⟩

variable {s t : Square n α} {i j k l : Fin n} {a : α}

@[simp] theorem get_filled : (filled a).get i j = a := rfl

@[simp] theorem get_ofFn {f : Fin n → Fin n → α} : (ofFn f).get i j = f i j := by
  simp only [get, ofFn, place, Equiv.symm_apply_apply]

theorem get_set : (s.set i j a).get k l = if k = i ∧ l = j then a else s.get k l := by
  have hplace : place k l = place i j ↔ k = i ∧ l = j := by
    rw [place, place, finProdFinEquiv.injective.eq_iff, Prod.mk.injEq]
  calc (s.set i j a).get k l
      = if place k l = place i j then a else s.get k l := Function.update_apply _ _ _ _
    _ = if k = i ∧ l = j then a else s.get k l := if_congr hplace rfl rfl

theorem ext_get (h : ∀ i j, s.get i j = t.get i j) : s = t := by
  ext place
  obtain ⟨⟨i, j⟩, rfl⟩ := finProdFinEquiv.surjective place
  exact h i j

@[simp] theorem set_get : s.set i j (s.get i j) = s := by
  refine ext_get fun k l ↦ ?_
  rw [get_set]
  split
  · next h => rw [h.1, h.2]
  · rfl

end Square

end Birdtest.Base
