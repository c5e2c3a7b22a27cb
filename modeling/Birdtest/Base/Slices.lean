import Mathlib.Data.Nat.Notation
import Mathlib.Order.Basic

namespace Birdtest.Base.Slices

variable {K A : Type} (f : K → A → A) (slice : ℕ → K → Bool)

def applySlice (f : K → A → A) (slice : K → Bool) (t : K → A) (k : K) : A :=
  if slice k then f k (t k) else t k

def applySlices : ℕ → (K → A) → K → A
  | 0, t => t
  | n + 1, t => applySlice f (slice n) (applySlices n t)

variable {f slice} {n : ℕ} {t : K → A} {k : K}

theorem applySlices_of_not_mem (h : ∀ p < n, slice p k = false) :
    applySlices f slice n t k = t k := by
  induction n with
  | zero => rfl
  | succ n ih =>
    simp only [applySlices, applySlice, h n (Nat.lt_succ_self n), Bool.false_eq_true, if_false]
    exact ih fun p hp ↦ h p (Nat.lt_succ_of_lt hp)

theorem applySlices_of_mem {p : ℕ} (hp : p < n) (hk : slice p k = true)
    (hunique : ∀ q < n, slice q k = true → q = p) : applySlices f slice n t k = f k (t k) := by
  induction n with
  | zero => omega
  | succ n ih =>
    rcases Nat.lt_succ_iff_lt_or_eq.1 hp with hpn | rfl
    · have hn : slice n k = false := by
        by_contra hne
        have := hunique n (Nat.lt_succ_self n) (by simpa using hne)
        omega
      simp only [applySlices, applySlice, hn, Bool.false_eq_true, if_false]
      exact ih hpn fun q hq ↦ hunique q (Nat.lt_succ_of_lt hq)
    · have hbefore : applySlices f slice p t k = t k := by
        refine applySlices_of_not_mem fun q hq ↦ ?_
        by_contra hne
        have := hunique q (Nat.lt_succ_of_lt hq) (by simpa using hne)
        omega
      simp only [applySlices, applySlice, hk, if_true, hbefore]

/-- Slices that split the keys add up to one update of every entry. -/
theorem applySlices_eq (h : ∀ k, ∃ p < n, slice p k = true ∧ ∀ q < n, slice q k = true → q = p) :
    applySlices f slice n t = fun k ↦ f k (t k) := by
  funext k
  obtain ⟨p, hp, hk, hunique⟩ := h k
  exact applySlices_of_mem hp hk hunique

end Birdtest.Base.Slices
