import Mathlib.Algebra.Group.Nat.Defs
import Mathlib.Data.List.Basic

namespace Birdtest.Base.Checked

inductive Panic
  | overflow | outOfBounds | divideByZero
  deriving DecidableEq

variable {α β ε : Type} {w a b : ℕ}

def checkedMul (w a b : ℕ) : Except Panic ℕ :=
  if a * b < 2 ^ w then .ok (a * b) else .error .overflow
def checkedSub (a b : ℕ) : Except Panic ℕ := if b ≤ a then .ok (a - b) else .error .overflow
def checkedMod (a b : ℕ) : Except Panic ℕ := if b = 0 then .error .divideByZero else .ok (a % b)

def entry (l : List α) (i : ℕ) : Except Panic α := (l[i]?).elim (.error .outOfBounds) .ok

def saturatingAdd (w a b : ℕ) : ℕ := min (a + b) (2 ^ w - 1)

theorem checkedMul_eq_ok (h : a * b < 2 ^ w) : checkedMul w a b = .ok (a * b) := if_pos h
theorem checkedSub_eq_ok (h : b ≤ a) : checkedSub a b = .ok (a - b) := if_pos h
theorem checkedMod_eq_ok (h : b ≠ 0) : checkedMod a b = .ok (a % b) := if_neg h

theorem entry_eq_ok {l : List α} {i : ℕ} {x : α} (h : l[i]? = some x) : entry l i = .ok x := by
  simp [entry, h]

def ensure (condition : Prop) [Decidable condition] (error : ε) : Except ε Unit :=
  if condition then .ok () else .error error

theorem of_ensure_eq_ok {condition : Prop} [Decidable condition] {error : ε}
    (h : ensure condition error = .ok ()) : condition := by
  unfold ensure at h
  split at h
  · next hcondition => exact hcondition
  · cases h

theorem bind_eq_ok {x : Except ε α} {f : α → Except ε β} {b : β} (h : (x >>= f) = .ok b) :
    ∃ a, x = .ok a ∧ f a = .ok b := by
  cases x with
  | error e => cases h
  | ok a => exact ⟨a, rfl, h⟩

theorem ok_bind (a : α) (f : α → Except ε β) : (.ok a >>= f) = f a := rfl

theorem ensure_eq_ok {condition : Prop} [Decidable condition] {error : ε} :
    ensure condition error = .ok () ↔ condition :=
  ⟨of_ensure_eq_ok, fun h ↦ if_pos h⟩

theorem ensure_bind_eq_ok {condition : Prop} [Decidable condition] {error : ε}
    {f : Unit → Except ε β} {b : β} :
    (ensure condition error >>= f) = .ok b ↔ condition ∧ f () = .ok b := by
  refine ⟨fun h ↦ ?_, fun ⟨hcondition, h⟩ ↦ by rwa [ensure_eq_ok.2 hcondition]⟩
  obtain ⟨⟨⟩, hensure, h⟩ := bind_eq_ok h
  exact ⟨of_ensure_eq_ok hensure, h⟩

def each (f : α → Except ε Unit) : List α → Except ε Unit
  | [] => .ok ()
  | a :: as => do
    f a
    each f as

theorem each_eq_ok {f : α → Except ε Unit} {as : List α} :
    each f as = .ok () ↔ ∀ a ∈ as, f a = .ok () := by
  induction as with
  | nil => simp [each]
  | cons a as ih =>
    rw [each, List.forall_mem_cons, ← ih]
    cases f a with
    | error e => exact iff_of_false (by simp [bind, Except.bind]) (by simp)
    | ok u => exact ⟨fun h ↦ ⟨rfl, h⟩, And.right⟩

def mapWhile (f : β → Except ε (Option α)) : List β → Except ε (List α)
  | [] => .ok []
  | b :: bs => do
    match ← f b with
    | none => .ok []
    | some a => do
      let as ← mapWhile f bs
      .ok (a :: as)

theorem mapWhile_getElem? {f : ℕ → Except ε (Option α)} {l : List α} {start count : ℕ}
    (h : ∀ i : ℕ, start ≤ i → i < start + count → f i = .ok l[i]?) :
    mapWhile f (List.range' start count) = .ok ((l.drop start).take count) := by
  induction count generalizing start with
  | zero => rfl
  | succ count ih =>
    rw [List.range'_succ, mapWhile, h start (Nat.le_refl _) (by omega)]
    cases hl : l[start]? with
    | none =>
      rw [List.getElem?_eq_none_iff] at hl
      simp only [List.drop_eq_nil_of_le hl, List.take_nil]
      rfl
    | some a =>
      obtain ⟨hlt, rfl⟩ := List.getElem?_eq_some_iff.1 hl
      have hrest := @ih (start + 1) fun i hi hi' ↦ h i (by omega) (by omega)
      simp only [bind, Except.bind, hrest]
      rw [List.drop_eq_getElem_cons hlt, List.take_succ_cons]

theorem mapWhile_saturatingAdd {f : ℕ → Except ε (Option α)} {l : List α} (hl : l.length < 2 ^ w)
    (h : ∀ i : ℕ, f i = .ok l[i]?) {start : ℕ} (hstart : start < 2 ^ w) (count : ℕ) :
    mapWhile f (List.range' start (saturatingAdd w start count - start)) =
      .ok ((l.drop start).take count) := by
  rw [mapWhile_getElem? fun i _ _ ↦ h i]
  congr 1
  rcases Nat.lt_or_ge (start + count) (2 ^ w) with hlt | hge
  · rw [saturatingAdd, Nat.min_eq_left (by omega), Nat.add_sub_cancel_left]
  · rw [saturatingAdd, List.take_of_length_le, List.take_of_length_le]
    · rw [List.length_drop]
      omega
    · rw [List.length_drop]
      omega

end Birdtest.Base.Checked
