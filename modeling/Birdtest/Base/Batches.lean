import Mathlib.Data.List.Nodup

namespace Birdtest.Base.Batches

variable {α κ : Type}

theorem flatMap_batches (l : List α) (b n : ℕ) :
    (List.range n).flatMap (fun i ↦ (l.drop (i * b)).take b) = l.take (n * b) := by
  induction n with
  | zero => simp
  | succ n ih => rw [List.range_succ, List.flatMap_append, ih, Nat.succ_mul, List.take_add]; simp

theorem mem_batch {l : List α} {b i : ℕ} {a : α} :
    a ∈ (l.drop (i * b)).take b ↔ ∃ j : ℕ, i * b ≤ j ∧ j < (i + 1) * b ∧ l[j]? = some a := by
  simp only [List.mem_iff_getElem?, List.getElem?_take, List.getElem?_drop]
  constructor
  · rintro ⟨j, hj⟩
    split at hj
    · next hlt => exact ⟨i * b + j, by omega, by rw [Nat.succ_mul]; omega, hj⟩
    · cases hj
  · rintro ⟨j, hge, hlt, hj⟩
    rw [Nat.succ_mul] at hlt
    refine ⟨j - i * b, ?_⟩
    rw [if_pos (by omega), Nat.add_sub_cancel' hge]
    exact hj

theorem eq_of_mem_batch {l : List α} (h : l.Nodup) {b i i' : ℕ} {a : α}
    (ha : a ∈ (l.drop (i * b)).take b) (ha' : a ∈ (l.drop (i' * b)).take b) : i = i' := by
  obtain ⟨j, hge, hlt, hj⟩ := mem_batch.1 ha
  obtain ⟨j', hge', hlt', hj'⟩ := mem_batch.1 ha'
  have hjj : j = j' := (List.getElem?_inj (List.getElem?_eq_some_iff.1 hj).1 h).1
    (hj.trans hj'.symm)
  subst hjj
  have h₁ := Nat.lt_of_mul_lt_mul_right (Nat.lt_of_le_of_lt hge hlt')
  have h₂ := Nat.lt_of_mul_lt_mul_right (Nat.lt_of_le_of_lt hge' hlt)
  omega

theorem length_le_mul_of_countP_le {l : List α} {keys : List κ} {p : α → κ → Bool} {c : ℕ}
    (hsome : ∀ a ∈ l, ∃ k ∈ keys, p a k = true) (hle : ∀ k ∈ keys, l.countP (p · k) ≤ c) :
    l.length ≤ c * keys.length := by
  induction keys generalizing l with
  | nil =>
    cases l with
    | nil => simp
    | cons a l =>
      obtain ⟨k, hk, -⟩ := hsome a List.mem_cons_self
      cases hk
  | cons k keys ih =>
    -- Those that meet the first key, and the rest, which meet another.
    have hsplit := List.length_eq_countP_add_countP (p · k) (l := l)
    have hrest : (l.filter fun a ↦ !p a k).length ≤ c * keys.length := by
      refine ih (fun a ha ↦ ?_) fun k' hk' ↦ ?_
      · obtain ⟨hmem, hnot⟩ := List.mem_filter.1 ha
        obtain ⟨k', hk', hp⟩ := hsome a hmem
        rcases List.mem_cons.1 hk' with rfl | hk'
        · simp [hp] at hnot
        · exact ⟨k', hk', hp⟩
      · exact Nat.le_trans List.filter_sublist.countP_le (hle k' (List.mem_cons_of_mem _ hk'))
    have hfirst := hle k List.mem_cons_self
    rw [← List.countP_eq_length_filter] at hrest
    have hcongr : l.countP (fun a ↦ decide ¬p a k = true) = l.countP fun a ↦ !p a k := by
      congr 1
      funext a
      cases p a k <;> rfl
    rw [List.length_cons, Nat.mul_succ]
    omega

theorem eq_of_countP_le_one {l : List α} {p : α → Bool} (h : l.countP p ≤ 1) {i j : ℕ} {a b : α}
    (hi : l[i]? = some a) (hj : l[j]? = some b) (ha : p a = true) (hb : p b = true) : i = j := by
  have hnot {i j : ℕ} {a b : α} (hi : l[i]? = some a) (hj : l[j]? = some b) (ha : p a = true)
      (hb : p b = true) : ¬ i < j := by
    intro hlt
    have hbefore : 0 < (l.take j).countP p := List.countP_pos_iff.2
      ⟨a, List.mem_iff_getElem?.2 ⟨i, by rw [List.getElem?_take, if_pos hlt, hi]⟩, ha⟩
    have hafter : 0 < (l.drop j).countP p := List.countP_pos_iff.2
      ⟨b, List.mem_iff_getElem?.2 ⟨0, by rw [List.getElem?_drop, Nat.add_zero, hj]⟩, hb⟩
    have hsum : (l.take j).countP p + (l.drop j).countP p = l.countP p := by
      rw [← List.countP_append, List.take_append_drop]
    omega
  exact Nat.le_antisymm (Nat.le_of_not_lt (hnot hj hi hb ha)) (Nat.le_of_not_lt (hnot hi hj ha hb))

end Birdtest.Base.Batches
