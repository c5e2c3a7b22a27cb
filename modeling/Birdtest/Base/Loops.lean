import Mathlib.Algebra.BigOperators.Fin
import Mathlib.Data.List.FinRange
import Mathlib.Logic.Function.Basic

namespace Birdtest.Base.Loops

variable {α β ε : Type}

/-- A computation ends in a value or in an error of which this holds. -/
def Ends (I : β → Prop) (E : ε → Prop) : Except ε β → Prop
  | .ok b => I b
  | .error e => E e

variable {I : β → Prop} {E : ε → Prop}

@[simp] theorem ends_ok {b : β} : Ends I E (.ok b) ↔ I b := Iff.rfl
@[simp] theorem ends_error {e : ε} : Ends I E (.error e : Except ε β) ↔ E e := Iff.rfl

theorem Ends.bind {J : α → Prop} {x : Except ε α} {f : α → Except ε β} (h : Ends J E x)
    (hf : ∀ a, J a → Ends I E (f a)) : Ends I E (x >>= f) := by
  cases x with
  | ok a => exact hf a h
  | error e => exact h

theorem Ends.mono {I' : β → Prop} {E' : ε → Prop} {x : Except ε β} (h : Ends I E x)
    (hI : ∀ b, I b → I' b) (hE : ∀ e, E e → E' e) : Ends I' E' x := by
  cases x with
  | ok b => exact hI b h
  | error e => exact hE e h

theorem Ends.exists_ok {x : Except ε β} (h : Ends I (fun _ ↦ False) x) : ∃ b, x = .ok b ∧ I b := by
  cases x with
  | ok b => exact ⟨b, rfl, h⟩
  | error e => exact absurd h id

section Fold

variable {f : β → α → Except ε β} {l : List α} {b : β}

theorem Ends.foldlM (I : List α → β → Prop) (hnil : I [] b)
    (hstep : ∀ before a after, l = before ++ a :: after → ∀ b, I before b →
      Ends (I (before ++ [a])) E (f b a)) :
    Ends (I l) E (l.foldlM f b) := by
  suffices hrest : ∀ (after before : List α) (b : β), l = before ++ after → I before b →
      Ends (I l) E (after.foldlM f b) from hrest l [] b rfl hnil
  intro after
  induction after with
  | nil =>
    intro before b hl hb
    rw [List.append_nil] at hl
    exact hl ▸ hb
  | cons a after ih =>
    intro before b hl hb
    rw [List.foldlM_cons]
    refine (hstep before a after hl b hb).bind fun b' hb' ↦ ?_
    exact ih (before ++ [a]) b' (by rw [hl, List.append_assoc, List.singleton_append]) hb'

end Fold

theorem Ends.finRange {n : ℕ} {f : β → Fin n → Except ε β} {b : β} (I : ℕ → β → Prop)
    (hzero : I 0 b) (hstep : ∀ (k : Fin n) (b : β), I k b → Ends (I (k + 1)) E (f b k)) :
    Ends (I n) E ((List.finRange n).foldlM f b) := by
  have hends : Ends (I (List.finRange n).length) E ((List.finRange n).foldlM f b) := by
    refine Ends.foldlM (fun before ↦ I before.length) hzero fun before k after hl b hb ↦ ?_
    have hk : (k : ℕ) = before.length := by
      have hget : (List.finRange n)[before.length]? = some k := by
        rw [hl, List.getElem?_append_right le_rfl, Nat.sub_self, List.getElem?_cons_zero]
      obtain ⟨hlt, hget⟩ := List.getElem?_eq_some_iff.1 hget
      rw [← hget, List.getElem_finRange]
      rfl
    have := hstep k b (hk ▸ hb)
    rwa [hk, ← List.length_singleton (a := k), ← List.length_append] at this
  rwa [List.length_finRange] at hends

section Sums

variable {M : Type} [AddCommGroup M] {n : ℕ}

theorem sum_map_filter (p : α → Prop) [DecidablePred p] (f : α → M) (l : List α) :
    ((l.filter p).map f).sum = (l.map fun a ↦ if p a then f a else 0).sum := by
  induction l with
  | nil => rfl
  | cons a l ih =>
    rw [List.filter_cons, List.map_cons, List.sum_cons, ← ih]
    by_cases h : p a
    · rw [if_pos (decide_eq_true h), if_pos h, List.map_cons, List.sum_cons]
    · rw [if_neg (by simpa using h), if_neg h, zero_add]

theorem sum_filter_finRange (p : Fin n → Prop) [DecidablePred p] (f : Fin n → M) :
    (((List.finRange n).filter p).map f).sum = ∑ k with p k, f k := by
  rw [sum_map_filter, ← Fin.sum_univ_def, Finset.sum_filter]

theorem foldl_sub (f : α → M) (l : List α) (a : M) :
    l.foldl (fun a k ↦ a - f k) a = a - (l.map f).sum := by
  induction l generalizing a with
  | nil => simp
  | cons k l ih => rw [List.foldl_cons, ih, List.map_cons, List.sum_cons, sub_sub]

end Sums

end Birdtest.Base.Loops
