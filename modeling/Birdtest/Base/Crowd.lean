import Mathlib.Algebra.BigOperators.Group.Multiset.Basic
import Mathlib.Algebra.Order.BigOperators.Group.Multiset

namespace Birdtest.Base.Crowd

variable {S : Type} {crowd : Multiset S} {f : S → ℕ}

theorem sum_eq_zero (h : ∀ x ∈ crowd, f x = 0) : (crowd.map f).sum = 0 :=
  Multiset.sum_eq_zero fun y hy ↦ by
    obtain ⟨x, hx, rfl⟩ := Multiset.mem_map.1 hy
    exact h x hx

theorem sum_le_mul_countP {p : S → Prop} [DecidablePred p] {n : ℕ}
    (h : ∀ x, f x ≤ if p x then n else 0) : (crowd.map f).sum ≤ n * crowd.countP p := by
  induction crowd using Multiset.induction_on with
  | empty => simp
  | cons x crowd ih =>
    have hx := h x
    rw [Multiset.map_cons, Multiset.sum_cons, Multiset.countP_cons, Nat.mul_add]
    split at hx
    · next hp =>
      rw [if_pos hp]
      omega
    · next hp =>
      rw [if_neg hp]
      omega

variable [DecidableEq S] {s : S} {s' : Option S}

def move (crowd : Multiset S) (s : S) (s' : Option S) : Multiset S :=
  s'.elim 0 ({·}) + crowd.erase s

theorem mem_move {x : S} (h : x ∈ move crowd s s') : s' = some x ∨ x ∈ crowd.erase s := by
  rcases Multiset.mem_add.1 h with h | h
  · cases s' with
    | none => exact absurd h (Multiset.notMem_zero _)
    | some y => exact .inl (congrArg some (Multiset.mem_singleton.1 h).symm)
  · exact .inr h

theorem forall_move {P : S → Prop} (h : ∀ x ∈ crowd, P x) (hs' : ∀ x ∈ s', P x) :
    ∀ x ∈ move crowd s s', P x := by
  intro x hx
  rcases mem_move hx with rfl | hx
  · exact hs' x rfl
  · exact h x (Multiset.mem_of_mem_erase hx)

theorem sum_erase (hs : s ∈ crowd) : f s + ((crowd.erase s).map f).sum = (crowd.map f).sum := by
  rw [← Multiset.sum_cons, ← Multiset.map_cons, Multiset.cons_erase hs]

theorem sum_move (hs : s ∈ crowd) (s' : Option S) :
    ((move crowd s s').map f).sum + f s = (crowd.map f).sum + s'.elim 0 f := by
  rw [← sum_erase hs, move, Multiset.map_add, Multiset.sum_add]
  cases s' with
  | none =>
    rw [Option.elim_none, Option.elim_none, Multiset.map_zero, Multiset.sum_zero]
    omega
  | some x =>
    rw [Option.elim_some, Option.elim_some, Multiset.map_singleton, Multiset.sum_singleton]
    omega

section Count

variable {p : S → Prop} [DecidablePred p]

theorem countP_erase (hs : s ∈ crowd) :
    (crowd.erase s).countP p + (if p s then 1 else 0) = crowd.countP p := by
  rw [← Multiset.countP_cons, Multiset.cons_erase hs]

theorem countP_move (hs : s ∈ crowd) (s' : Option S) :
    (move crowd s s').countP p + (if p s then 1 else 0) =
    crowd.countP p + s'.elim 0 fun x ↦ if p x then 1 else 0 := by
  rw [← countP_erase hs, move, Multiset.countP_add]
  cases s' with
  | none =>
    rw [Option.elim_none, Option.elim_none, Multiset.countP_zero]
    omega
  | some x =>
    have hone : Multiset.countP p {x} = if p x then 1 else 0 := by
      rw [← Multiset.cons_zero, Multiset.countP_cons, Multiset.countP_zero, Nat.zero_add]
    rw [Option.elim_some, Option.elim_some, hone]
    omega

theorem not_of_mem_erase {x : S} (hs : s ∈ crowd) (hone : crowd.countP p ≤ 1) (hp : p s)
    (hx : x ∈ crowd.erase s) : ¬p x := by
  intro hpx
  have hcount := countP_erase (p := p) hs
  have hpos : 0 < (crowd.erase s).countP p := Multiset.countP_pos.2 ⟨x, hx, hpx⟩
  rw [if_pos hp] at hcount
  omega

theorem countP_move_le_one (hs : s ∈ crowd) (hone : crowd.countP p ≤ 1)
    (h : ∀ x ∈ s', p x → p s ∨ ∀ y ∈ crowd.erase s, ¬p y) : (move crowd s s').countP p ≤ 1 := by
  have herase := countP_erase (p := p) hs
  have hmove := countP_move (p := p) hs s'
  cases s' with
  | none =>
    rw [Option.elim_none] at hmove
    omega
  | some x =>
    rw [Option.elim_some] at hmove
    by_cases hx : p x
    · rw [if_pos hx] at hmove
      rcases h x rfl hx with hps | hnone
      · rw [if_pos hps] at hmove
        omega
      · have hzero : (crowd.erase s).countP p = 0 := Multiset.countP_eq_zero.2 hnone
        omega
    · rw [if_neg hx] at hmove
      omega

end Count

theorem le_sum (hs : s ∈ crowd) : f s ≤ (crowd.map f).sum := by
  rw [← sum_erase hs]
  exact Nat.le_add_right ..

theorem eq_zero_of_sum_le_one (hs : s ∈ crowd) (hone : (crowd.map f).sum ≤ 1) (hpos : 0 < f s) :
    ∀ x ∈ crowd.erase s, f x = 0 := by
  intro x hx
  have hx := le_sum (f := f) hx
  have hall := sum_erase (f := f) hs
  omega

end Birdtest.Base.Crowd
