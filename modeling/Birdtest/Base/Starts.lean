import Mathlib.Order.Lattice.Nat

namespace Birdtest.Base.Starts

variable {α : Type}

def countFrom (p : ℕ → Bool) : ℕ → ℕ → ℕ
  | 0, k => k
  | n + 1, k => if p k then countFrom p n (k + 1) else k

theorem le_countFrom_iff {p : ℕ → Bool} {n k i : ℕ} :
    i ≤ countFrom p n k ↔ i ≤ k + n ∧ ∀ j, k ≤ j → j < i → p j := by
  induction n generalizing k with
  | zero =>
    simp only [countFrom]
    refine ⟨fun h ↦ ⟨by omega, fun j hkj hji ↦ by omega⟩, fun h ↦ by omega⟩
  | succ n ih =>
    rw [countFrom]
    split
    · next hk =>
      rw [ih]
      constructor
      · intro ⟨hle, h⟩
        refine ⟨by omega, fun j hkj hji ↦ ?_⟩
        obtain rfl | hlt := Nat.eq_or_lt_of_le hkj
        · exact hk
        · exact h j hlt hji
      · intro ⟨hle, h⟩
        exact ⟨by omega, fun j hkj hji ↦ h j (by omega) hji⟩
    · next hk =>
      constructor
      · intro hle
        exact ⟨by omega, fun j hkj hji ↦ by omega⟩
      · intro ⟨_, h⟩
        by_contra hlt
        exact hk (h k le_rfl (by omega))

theorem take_eq_take_iff {s t : List α} {k : ℕ} :
    t.take k = s.take k ↔ ∀ i < k, t[i]? = s[i]? := by
  constructor
  · intro h i hi
    rw [← List.getElem?_take_of_lt hi, h, List.getElem?_take_of_lt hi]
  · intro h
    refine List.ext_getElem? fun i ↦ ?_
    rw [List.getElem?_take, List.getElem?_take]
    split
    · next hi => exact h i hi
    · rfl

/-- A list that ends before another differs from it there. -/
theorem le_length_of_same {s t : List α} {k : ℕ} (hlt : s.length < t.length)
    (h : ∀ i < k, s[i]? = t[i]?) : k ≤ s.length := by
  by_contra hlong
  have hend := h s.length (not_le.1 hlong)
  rw [List.getElem?_eq_none le_rfl, List.getElem?_eq_getElem hlt] at hend
  cases hend

theorem eq_append_cons_iff {l s t : List α} {a : α} :
    l = s ++ a :: t ↔ l.take s.length = s ∧ l[s.length]? = some a ∧ l.drop (s.length + 1) = t := by
  constructor
  · rintro rfl
    refine ⟨List.take_left, ?_, ?_⟩
    · rw [List.getElem?_append_right le_rfl, Nat.sub_self, List.getElem?_cons_zero]
    · rw [List.drop_length_add_append, List.drop_succ_cons, List.drop_zero]
  · intro ⟨hs, ha, ht⟩
    obtain ⟨hlt, ha⟩ := List.getElem?_eq_some_iff.1 ha
    calc l = l.take s.length ++ l.drop s.length := (List.take_append_drop _ _).symm
      _ = s ++ a :: t := by rw [List.drop_eq_getElem_cons hlt, hs, ha, ht]

/-- In how many of its first `n` places all of `others` are as `s` is, before one is not. -/
noncomputable def shared (others : Set (List α)) (s : List α) (n : ℕ) : ℕ :=
  sSup {k | k ≤ n ∧ ∀ t ∈ others, t.take k = s.take k}

variable {others : Set (List α)} {s : List α} {n k : ℕ}

theorem le_shared_iff : k ≤ shared others s n ↔ k ≤ n ∧ ∀ t ∈ others, t.take k = s.take k := by
  have hne : {k | k ≤ n ∧ ∀ t ∈ others, t.take k = s.take k}.Nonempty :=
    ⟨0, Nat.zero_le n, fun _ _ ↦ rfl⟩
  have hbdd : BddAbove {k | k ≤ n ∧ ∀ t ∈ others, t.take k = s.take k} := ⟨n, fun k hk ↦ hk.1⟩
  constructor
  · intro hle
    obtain ⟨hshared, h⟩ := Nat.sSup_mem hne hbdd
    refine ⟨hle.trans hshared, fun t ht ↦ take_eq_take_iff.2 fun i hi ↦ ?_⟩
    exact take_eq_take_iff.1 (h t ht) i (hi.trans_le hle)
  · exact fun h ↦ le_csSup hbdd h

/-- The loop that stops at the first place where one of them is not as `s` is. -/
theorem countFrom_eq_shared {p : ℕ → Bool} (hp : ∀ k, p k ↔ ∀ t ∈ others, t[k]? = s[k]?) :
    countFrom p n 0 = shared others s n := by
  refine eq_of_forall_le_iff fun k ↦ ?_
  rw [le_countFrom_iff, le_shared_iff, Nat.zero_add]
  refine and_congr_right fun _ ↦ ⟨fun h t ht ↦ ?_, fun h j _ hj ↦ ?_⟩
  · exact take_eq_take_iff.2 fun i hi ↦ (hp i).1 (h i (Nat.zero_le i) hi) t ht
  · exact (hp j).2 fun t ht ↦ take_eq_take_iff.1 (h t ht) j hj

end Birdtest.Base.Starts
