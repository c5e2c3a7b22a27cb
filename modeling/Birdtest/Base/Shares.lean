import Mathlib.Algebra.Order.BigOperators.Group.Finset

namespace Birdtest.Base.Shares

variable {ι K : Type} [AddCommGroup K] [LinearOrder K]

/-- Flow `i` has run past no other flow by more than one claim of that flow. A claim of flow `k`
moves its virtual time `r k` on by `w k`. -/
def Turn (w r : ι → K) (i : ι) : Prop := ∀ j, j ≠ i → r i ≤ r j + w j

/-- Any two flows are at most a claim of each apart. -/
def Level (w r : ι → K) : Prop := ∀ i j, r i ≤ r j + w i + w j

variable [IsOrderedAddMonoid K] {w r : ι → K} {i : ι} {level : K}

theorem Turn.mono {r' : ι → K} (h : Turn w r i) (hi : r' i = r i) (hr : ∀ j, r j ≤ r' j) :
    Turn w r' i := by
  intro j hj
  rw [hi]
  exact (h j hj).trans (add_le_add_left (hr j) (w j))

theorem le_update [DecidableEq ι] (hw : ∀ k, 0 < w k) (hle : r i ≤ level) (j : ι) :
    r j ≤ Function.update r i (level + w i) j := by
  by_cases hj : j = i
  · subst hj
    rw [Function.update_self]
    exact hle.trans (le_add_of_nonneg_right (hw j).le)
  · rw [Function.update_of_ne hj]

/-- A claim of flow `i`, lifted to `level` before it. -/
theorem Level.update [DecidableEq ι] (h : Level w r) (hw : ∀ k, 0 < w k) (hturn : Turn w r i)
    (hle : r i ≤ level) (hlevel : ∀ j, j ≠ i → level ≤ r j + w j) :
    Level w (Function.update r i (level + w i)) := by
  intro a b
  have hb := le_update hw hle b
  by_cases ha : a = i
  · subst ha
    by_cases hab : b = a
    · subst hab
      exact (le_add_of_nonneg_right (hw b).le).trans (le_add_of_nonneg_right (hw b).le)
    · rw [Function.update_self, Function.update_of_ne hab, add_right_comm]
      exact add_le_add_left (hlevel b hab) (w a)
  · rw [Function.update_of_ne ha]
    exact (h a b).trans (add_le_add_left (add_le_add_left hb (w a)) (w b))

section Stacked

variable [Fintype ι]

/-- Above a claim past any flow no stretch is longer than the claims of the flows beyond it: the
flows ahead of the turn stand on one another's claims. -/
def Stacked (w r : ι → K) : Prop :=
  ∀ j x, r j + w j ≤ x → ∀ i, r i ≤ x + ∑ k with x < r k, w k

theorem Level.stacked (h : Level w r) (hw : ∀ k, 0 < w k) : Stacked w r := by
  intro j x hx i
  by_cases hi : x < r i
  · have hmem : i ∈ Finset.univ.filter fun k ↦ x < r k := by simpa using hi
    have hsum := Finset.single_le_sum (f := w) (fun k _ ↦ (hw k).le) hmem
    calc r i ≤ r j + w j + w i := by rw [add_right_comm]; exact h i j
      _ ≤ x + w i := add_le_add_left hx (w i)
      _ ≤ x + ∑ k with x < r k, w k := add_le_add_right hsum x
  · have hsum := Finset.sum_nonneg fun k (_ : k ∈ Finset.univ.filter fun k ↦ x < r k) ↦ (hw k).le
    exact (not_lt.1 hi).trans (le_add_of_nonneg_right hsum)

theorem Stacked.le_add_sum (h : Stacked w r) (hw : ∀ k, 0 < w k) (i j : ι) :
    r i ≤ r j + ∑ k, w k := by
  classical
  have hahead : Finset.univ.filter (fun k ↦ r j + w j < r k) ⊆ Finset.univ.erase j := by
    intro k hk
    rw [Finset.mem_filter] at hk
    rw [Finset.mem_erase]
    refine ⟨?_, Finset.mem_univ k⟩
    rintro rfl
    exact absurd hk.2 (not_lt.2 (le_add_of_nonneg_right (hw k).le))
  have hsum := Finset.sum_le_sum_of_subset_of_nonneg hahead fun k _ _ ↦ (hw k).le
  calc r i ≤ r j + w j + ∑ k with r j + w j < r k, w k := h j _ le_rfl i
    _ ≤ r j + w j + ∑ k ∈ Finset.univ.erase j, w k := add_le_add_right hsum _
    _ = r j + ∑ k, w k := by
      rw [add_assoc, Finset.add_sum_erase _ _ (Finset.mem_univ j)]

theorem Stacked.update [DecidableEq ι] (h : Stacked w r) (hw : ∀ k, 0 < w k)
    (hturn : Turn w r i) (hle : r i ≤ level) (hlevel : ∃ k, level ≤ r k) :
    Stacked w (Function.update r i (level + w i)) := by
  intro j x hx
  obtain ⟨k, hk⟩ := hlevel
  -- A claim past `j` is still one past it, and now also past `i`, which had its turn.
  have hxj : r j + w j ≤ x := (add_le_add_left (le_update hw hle j) (w j)).trans hx
  have hxi : r i ≤ x := by
    by_cases hji : j = i
    · subst hji
      exact (le_add_of_nonneg_right (hw j).le).trans hxj
    · exact (hturn j hji).trans hxj
  have hnew (hlt : x < level + w i) :
      ∑ k with x < Function.update r i (level + w i) k, w k =
        w i + ∑ k with x < r k, w k := by
    have hins : (Finset.univ.filter fun k ↦ x < Function.update r i (level + w i) k) =
        insert i (Finset.univ.filter fun k ↦ x < r k) := by
      ext k
      by_cases hki : k = i
      · subst hki
        simpa using hlt
      · simp [hki]
    rw [hins, Finset.sum_insert]
    simpa using hxi
  have hmono : ∑ k with x < r k, w k ≤
      ∑ k with x < Function.update r i (level + w i) k, w k := by
    apply Finset.sum_le_sum_of_subset_of_nonneg
    · intro k
      rw [Finset.mem_filter, Finset.mem_filter]
      exact fun hk ↦ ⟨hk.1, hk.2.trans_le (le_update hw hle k)⟩
    · exact fun k _ _ ↦ (hw k).le
  intro a
  by_cases ha : a = i
  · subst ha
    rw [Function.update_self]
    by_cases hlt : x < level + w a
    · have hk := hk.trans (h j x hxj k)
      rw [hnew hlt, add_left_comm, add_comm (w a)]
      exact add_le_add_left hk (w a)
    · have hsum := Finset.sum_nonneg fun k
        (_ : k ∈ Finset.univ.filter fun k ↦ x < Function.update r a (level + w a) k) ↦ (hw k).le
      exact (not_lt.1 hlt).trans (le_add_of_nonneg_right hsum)
  · rw [Function.update_of_ne ha]
    exact (h j x hxj a).trans (add_le_add_right hmono x)

end Stacked

end Birdtest.Base.Shares
