import Mathlib.Data.List.Nodup
import Mathlib.Data.Nat.Choose.Basic

namespace Birdtest.Base.Pairings

variable {α β : Type}

def inOrder : List α → List (α × α)
  | [] => []
  | a :: as => as.map (fun b ↦ (a, b)) ++ inOrder as

theorem flatMap_zipIdx (as : List α) (f : α → α → β) :
    (as.zipIdx.flatMap fun (a, i) ↦ (as.drop (i + 1)).map (f a)) =
      (inOrder as).map fun pair ↦ f pair.1 pair.2 := by
  induction as with
  | nil => rfl
  | cons a as ih =>
    rw [List.zipIdx_cons', List.flatMap_cons, List.flatMap_map, inOrder, List.map_append,
      List.map_map, ← ih]
    rfl

variable {a b : α} {as : List α}

theorem mem_inOrder : (a, b) ∈ inOrder as ↔ [a, b].Sublist as := by
  induction as with
  | nil => simp [inOrder]
  | cons c as ih =>
    rw [inOrder, List.mem_append, ih, List.cons_sublist_cons', List.singleton_sublist, List.mem_map]
    constructor
    · rintro (⟨d, hd, heq⟩ | h)
      · cases heq
        exact .inr ⟨rfl, hd⟩
      · exact .inl h
    · rintro (h | ⟨rfl, hb⟩)
      · exact .inr h
      · exact .inl ⟨b, hb, rfl⟩

theorem length_inOrder (as : List α) : (inOrder as).length = as.length.choose 2 := by
  induction as with
  | nil => rfl
  | cons a as ih =>
    rw [inOrder, List.length_append, List.length_map, ih, List.length_cons, Nat.choose_succ_succ,
      Nat.choose_one_right]

variable [DecidableEq α]

def meets (a b : α) (pair : α × α) : Bool := pair = (a, b) ∨ pair = (b, a)

theorem countP_meets_of_not_mem (h : a ∉ as) : (inOrder as).countP (meets a b) = 0 := by
  rw [List.countP_eq_zero]
  intro pair hpair hmeets
  have hsublist := mem_inOrder.1 hpair
  rw [meets, decide_eq_true_eq] at hmeets
  obtain rfl | rfl := hmeets
  · exact h (hsublist.subset List.mem_cons_self)
  · exact h (hsublist.subset (List.mem_cons_of_mem _ List.mem_cons_self))

theorem countP_meets_map (hnodup : as.Nodup) (hb : b ∈ as) (hne : a ≠ b) :
    (as.map fun c ↦ (a, c)).countP (meets a b) = 1 := by
  rw [List.countP_map, ← List.count_eq_one_of_mem hnodup hb, List.count]
  refine List.countP_congr fun c _ ↦ ?_
  simp only [Function.comp_apply, meets, Prod.mk.injEq, true_and, decide_eq_true_eq, beq_iff_eq]
  constructor
  · rintro (rfl | ⟨rfl, -⟩)
    · rfl
    · exact absurd rfl hne
  · exact .inl

theorem meets_comm : meets a b = meets b a := by
  funext pair
  simp only [meets, or_comm]

/-- Any two elements of a list make one pair. -/
theorem countP_meets (hnodup : as.Nodup) (ha : a ∈ as) (hb : b ∈ as) (hne : a ≠ b) :
    (inOrder as).countP (meets a b) = 1 := by
  induction as with
  | nil => cases ha
  | cons c as ih =>
    obtain ⟨hc, hnodup⟩ := List.nodup_cons.1 hnodup
    rw [inOrder, List.countP_append]
    by_cases hca : c = a
    · subst hca
      rw [countP_meets_map hnodup ((List.mem_cons.1 hb).resolve_left hne.symm) hne,
        countP_meets_of_not_mem hc]
    by_cases hcb : c = b
    · subst hcb
      rw [meets_comm, countP_meets_map hnodup ((List.mem_cons.1 ha).resolve_left hne) hne.symm,
        countP_meets_of_not_mem hc]
    rw [ih hnodup ((List.mem_cons.1 ha).resolve_left (Ne.symm hca))
      ((List.mem_cons.1 hb).resolve_left (Ne.symm hcb)), List.countP_eq_zero.2]
    intro pair hpair hmeets
    obtain ⟨d, -, rfl⟩ := List.mem_map.1 hpair
    simp only [meets, Prod.mk.injEq, decide_eq_true_eq] at hmeets
    exact hmeets.elim (fun h ↦ hca h.1) fun h ↦ hcb h.1

end Birdtest.Base.Pairings
