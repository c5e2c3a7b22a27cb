import Mathlib.Algebra.Order.BigOperators.Group.List
import Mathlib.Data.List.Flatten
import Mathlib.Data.Multiset.Filter
import Mathlib.Data.Set.Card

namespace Birdtest.Base.Bags

variable {α β γ : Type}

/-- Every way to draw `k` tiles from a bag that lists, for each letter, how many it holds: by
ascending number of the first letter, then of the second, and so on. -/
def draws : List (α × ℕ) → ℕ → List (List α)
  | [], k => if k = 0 then [[]] else []
  | (a, n) :: bag, k =>
    (List.range (min n k + 1)).flatMap fun take ↦
      (draws bag (k - take)).map (List.replicate take a ++ ·)

section Draws

variable {bag : List (α × ℕ)} {l : List α} {a : α} {k n : ℕ}

theorem mem_draws_nil : l ∈ draws ([] : List (α × ℕ)) k ↔ k = 0 ∧ l = [] := by
  rw [draws]
  split
  · next hk => simp only [List.mem_singleton, hk, true_and]
  · next hk => simp only [List.not_mem_nil, hk, false_and]

theorem mem_draws_cons : l ∈ draws ((a, n) :: bag) k ↔
    ∃ take, take ≤ n ∧ take ≤ k ∧ ∃ l' ∈ draws bag (k - take), List.replicate take a ++ l' = l := by
  simp only [draws, List.mem_flatMap, List.mem_range, List.mem_map, Nat.lt_succ_iff, le_min_iff,
    and_assoc]

theorem length_of_mem_draws (h : l ∈ draws bag k) : l.length = k := by
  induction bag generalizing l k with
  | nil =>
    obtain ⟨rfl, rfl⟩ := mem_draws_nil.1 h
    rfl
  | cons p bag ih =>
    obtain ⟨take, -, hk, l', hl', rfl⟩ := mem_draws_cons.1 h
    rw [List.length_append, List.length_replicate, ih hl']
    omega

theorem mem_of_mem_draws (h : l ∈ draws bag k) {x : α} (hx : x ∈ l) :
    x ∈ bag.map Prod.fst := by
  induction bag generalizing l k with
  | nil =>
    obtain ⟨-, rfl⟩ := mem_draws_nil.1 h
    exact absurd hx List.not_mem_nil
  | cons p bag ih =>
    obtain ⟨take, -, -, l', hl', rfl⟩ := mem_draws_cons.1 h
    rcases List.mem_append.1 hx with hx | hx
    · simp [(List.mem_replicate.1 hx).2]
    · exact List.mem_cons_of_mem _ (ih hl' hx)

theorem pairwise_of_mem_draws {r : α → α → Prop} (hr : ∀ x, r x x)
    (hbag : (bag.map Prod.fst).Pairwise r) (h : l ∈ draws bag k) : l.Pairwise r := by
  induction bag generalizing l k with
  | nil =>
    obtain ⟨-, rfl⟩ := mem_draws_nil.1 h
    exact .nil
  | cons p bag ih =>
    rw [List.map_cons, List.pairwise_cons] at hbag
    obtain ⟨take, -, -, l', hl', rfl⟩ := mem_draws_cons.1 h
    refine List.pairwise_append.2 ⟨List.pairwise_replicate.2 (.inr (hr _)), ih hbag.2 hl', ?_⟩
    intro x hx y hy
    rw [(List.mem_replicate.1 hx).2]
    exact hbag.1 y (mem_of_mem_draws hl' hy)

end Draws

section Counting

variable {bag : List (α × ℕ)} {a : α} {k n : ℕ}

theorem length_draws_cons : (draws ((a, n) :: bag) k).length =
    ((List.range (min n k + 1)).map fun take ↦ (draws bag (k - take)).length).sum := by
  simp [draws, List.length_flatMap]

theorem draws_zero : draws bag 0 = [[]] := by
  induction bag with
  | nil => rfl
  | cons p bag ih => simp [draws, ih]

theorem draws_eq_nil (h : (bag.map Prod.snd).sum < k) : draws bag k = [] := by
  refine List.eq_nil_iff_forall_not_mem.2 fun l hl ↦ ?_
  induction bag generalizing l k with
  | nil =>
    rw [List.map_nil, List.sum_nil] at h
    simp [draws, h.ne'] at hl
  | cons p bag ih =>
    rw [List.map_cons, List.sum_cons] at h
    obtain ⟨take, htake, -, l', hl', -⟩ := mem_draws_cons.1 hl
    exact ih (by omega) l' hl'

theorem reverse_draws_cons : (draws ((a, n) :: bag) k).reverse =
    (List.range (min n k + 1)).reverse.flatMap fun take ↦
      (draws bag (k - take)).reverse.map (List.replicate take a ++ ·) := by
  rw [draws, List.reverse_flatMap]
  congr 1
  funext take
  exact List.map_reverse.symm

theorem sum_pow_le (b k : ℕ) :
    ((List.range (k + 1)).map fun i ↦ b ^ (k - i)).sum ≤ (b + 1) ^ k := by
  induction k with
  | zero => simp
  | succ k ih =>
    have hpow : b ^ (k + 1) ≤ b * (b + 1) ^ k := by
      rw [pow_succ']
      exact Nat.mul_le_mul_left b (Nat.pow_le_pow_left (Nat.le_succ b) k)
    rw [List.range_succ_eq_map, List.map_cons, List.sum_cons, List.map_map]
    simp only [Function.comp_def, Nat.succ_eq_add_one, Nat.add_sub_add_right, Nat.sub_zero]
    calc _ ≤ b * (b + 1) ^ k + (b + 1) ^ k := Nat.add_le_add hpow ih
      _ = (b + 1) ^ (k + 1) := by rw [pow_succ', Nat.add_mul, Nat.one_mul]

theorem length_draws_le : (draws bag k).length ≤ (bag.length + 1) ^ k := by
  induction bag generalizing k with
  | nil =>
    simp only [draws]
    split <;> simp
  | cons p bag ih =>
    obtain ⟨a, n⟩ := p
    rw [length_draws_cons, List.length_cons]
    calc _ ≤ ((List.range (min n k + 1)).map fun take ↦ (bag.length + 1) ^ (k - take)).sum :=
          List.sum_le_sum fun take _ ↦ ih
      _ ≤ ((List.range (k + 1)).map fun take ↦ (bag.length + 1) ^ (k - take)).sum :=
          ((List.range_sublist.2 (by omega)).map _).sum_le_sum fun _ _ ↦ Nat.zero_le _
      _ ≤ (bag.length + 1 + 1) ^ k := sum_pow_le _ _

end Counting

section Locate

def locate (size : β → ℕ) : List β → ℕ → Option (β × ℕ)
  | [], _ => none
  | b :: bs, i => if i < size b then some (b, i) else locate size bs (i - size b)

theorem getElem?_flatMap (f : β → List γ) (bs : List β) (i : ℕ) :
    (bs.flatMap f)[i]? = (locate (fun b ↦ (f b).length) bs i).bind fun p ↦ (f p.1)[p.2]? := by
  induction bs generalizing i with
  | nil => rfl
  | cons b bs ih =>
    rw [List.flatMap_cons, locate]
    split
    · next hi => rw [List.getElem?_append_left hi, Option.bind_some]
    · next hi => rw [List.getElem?_append_right (Nat.le_of_not_lt hi), ih]

theorem mem_of_locate {size : β → ℕ} {bs : List β} {i : ℕ} {p : β × ℕ}
    (h : locate size bs i = some p) : p.1 ∈ bs := by
  induction bs generalizing i with
  | nil => cases h
  | cons b bs ih =>
    rw [locate] at h
    split at h
    · cases h
      exact List.mem_cons_self
    · exact List.mem_cons_of_mem _ (ih h)

end Locate

section Bounds

variable [DecidableEq α] {bag : List (α × ℕ)} {l : List α} {m : Multiset α} {a : α} {k n : ℕ}

def bound (bag : List (α × ℕ)) (a : α) : ℕ := ((bag.filter (·.1 = a)).map Prod.snd).sum

@[simp] theorem bound_nil : bound [] a = 0 := rfl

theorem bound_cons (p : α × ℕ) : bound (p :: bag) a = (if p.1 = a then p.2 else 0) +
    bound bag a := by
  by_cases h : p.1 = a <;> simp [bound, h]

theorem bound_eq_zero (h : a ∉ bag.map Prod.fst) : bound bag a = 0 := by
  rw [bound, List.filter_eq_nil_iff.2]
  · rfl
  · intro p hp
    simp only [decide_eq_true_eq]
    rintro rfl
    exact h (List.mem_map_of_mem hp)

def within (bag : List (α × ℕ)) (k : ℕ) : Set (Multiset α) :=
  {m | m.card = k ∧ ∀ a, m.count a ≤ bound bag a}

theorem count_of_mem_draws (h : l ∈ draws bag k) (x : α) : l.count x ≤ bound bag x := by
  induction bag generalizing l k with
  | nil =>
    obtain ⟨-, rfl⟩ := mem_draws_nil.1 h
    exact Nat.zero_le _
  | cons p bag ih =>
    obtain ⟨take, htake, -, l', hl', rfl⟩ := mem_draws_cons.1 h
    rw [List.count_append, List.count_replicate, bound_cons]
    refine Nat.add_le_add ?_ (ih hl')
    by_cases hx : p.1 = x <;> simp [hx, htake]

theorem exists_draw_of_mem_within (hbag : (bag.map Prod.fst).Nodup) (h : m ∈ within bag k) :
    ∃ l ∈ draws bag k, (l : Multiset α) = m := by
  induction bag generalizing m k with
  | nil =>
    obtain ⟨hcard, hcount⟩ := h
    have hm : m = 0 := Multiset.eq_zero_of_forall_notMem fun a ha ↦ by
      have := hcount a
      rw [bound_nil, Nat.le_zero, Multiset.count_eq_zero] at this
      exact this ha
    subst hm
    exact ⟨[], by simp [draws, ← hcard], rfl⟩
  | cons p bag ih =>
    obtain ⟨a, n⟩ := p
    obtain ⟨hcard, hcount⟩ := h
    rw [List.map_cons, List.nodup_cons] at hbag
    -- The draw takes what `m` holds of the first letter, and draws the rest.
    have hsplit : Multiset.replicate (m.count a) a + m.filter (¬a = ·) = m := by
      rw [← Multiset.filter_eq, Multiset.filter_add_not]
    have hrest : m.filter (¬a = ·) ∈ within bag (k - m.count a) := by
      refine ⟨?_, fun b ↦ ?_⟩
      · have := congrArg Multiset.card hsplit
        rw [Multiset.card_add, Multiset.card_replicate] at this
        omega
      · have := hcount b
        rw [bound_cons] at this
        by_cases hb : a = b
        · simp [hb]
        · simpa [hb] using this
    obtain ⟨l, hl, hlm⟩ := ih hbag.2 hrest
    refine ⟨List.replicate (m.count a) a ++ l, mem_draws_cons.2 ⟨m.count a, ?_, ?_, l, hl, rfl⟩, ?_⟩
    · have := hcount a
      rwa [bound_cons, if_pos rfl, bound_eq_zero hbag.1, Nat.add_zero] at this
    · exact hcard ▸ Multiset.count_le_card a m
    · rw [← Multiset.coe_add, Multiset.coe_replicate, hlm, hsplit]

theorem mem_map_draws (hbag : (bag.map Prod.fst).Nodup) :
    m ∈ (draws bag k).map Multiset.ofList ↔ m ∈ within bag k := by
  rw [List.mem_map]
  refine ⟨?_, exists_draw_of_mem_within hbag⟩
  rintro ⟨l, hl, rfl⟩
  exact ⟨length_of_mem_draws hl, fun a ↦ by simpa using count_of_mem_draws hl a⟩

/-- No two draws are of the same tiles. -/
theorem nodup_draws (hbag : (bag.map Prod.fst).Nodup) :
    ((draws bag k).map Multiset.ofList).Nodup := by
  induction bag generalizing k with
  | nil =>
    simp only [draws]
    split <;> simp
  | cons p bag ih =>
    obtain ⟨a, n⟩ := p
    rw [List.map_cons, List.nodup_cons] at hbag
    have hcount : ∀ take, ∀ l ∈ draws bag (k - take),
        (List.replicate take a ++ l).count a = take := by
      intro take l hl
      rw [List.count_append, List.count_replicate_self, List.count_eq_zero.2]
      · rfl
      · exact fun ha ↦ hbag.1 (mem_of_mem_draws hl ha)
    rw [draws, List.map_flatMap, List.nodup_flatMap]
    refine ⟨fun take _ ↦ ?_, ?_⟩
    · rw [List.map_map]
      have hfun : Multiset.ofList ∘ (List.replicate take a ++ ·) =
          (Multiset.replicate take a + ·) ∘ Multiset.ofList := by
        funext l
        rfl
      rw [hfun, ← List.map_map]
      exact (ih hbag.2).map (add_right_injective _)
    · refine List.pairwise_lt_range.imp_of_mem ?_
      intro take take' _ _ hlt m hm hm'
      simp only [List.mem_map] at hm hm'
      obtain ⟨_, ⟨l, hl, rfl⟩, rfl⟩ := hm
      obtain ⟨_, ⟨l', hl', rfl⟩, heq⟩ := hm'
      have := (Multiset.coe_eq_coe.1 heq).count_eq a
      rw [hcount _ _ hl, hcount _ _ hl'] at this
      omega

theorem ncard_within (hbag : (bag.map Prod.fst).Nodup) :
    (within bag k).ncard = (draws bag k).length := by
  have hset : within bag k = ((draws bag k).map Multiset.ofList).toFinset := by
    ext m
    rw [Finset.mem_coe, List.mem_toFinset, mem_map_draws hbag]
  rw [hset, Set.ncard_coe_finset, List.toFinset_card_of_nodup (nodup_draws hbag), List.length_map]

end Bounds

end Birdtest.Base.Bags
