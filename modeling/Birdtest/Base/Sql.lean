import Mathlib.Data.List.Basic

namespace Birdtest.Base.Sql

abbrev Truth : Type := Option Bool

variable {α β : Type} {s t : Truth} {a : Option α} {b : Option β} {relates : α → β → Bool}

def and : Truth → Truth → Truth
  | some false, _ => some false
  | some true, t => t
  | none, some false => some false
  | none, _ => none

def or : Truth → Truth → Truth
  | some true, _ => some true
  | some false, t => t
  | none, some true => some true
  | none, _ => none

/-- A comparison, unknown where either side is. -/
def compare (relates : α → β → Bool) : Option α → Option β → Truth
  | some a, some b => some (relates a b)
  | _, _ => none

def between [LE α] [DecidableLE α] (a low high : Option α) : Truth :=
  and (compare (fun a low ↦ decide (low ≤ a)) a low)
    (compare (fun a high ↦ decide (a ≤ high)) a high)

def isIn [DecidableEq α] (a : Option α) (values : List α) : Truth :=
  compare (fun a (values : List α) ↦ decide (a ∈ values)) a (some values)

def isNull (a : Option α) : Truth := some a.isNone

def isNotNull (a : Option α) : Truth := some a.isSome

def isTrue (t : Truth) : Truth := some (t = some true)

/-- A CHECK refuses a row only where its condition is false. -/
def check (t : Truth) : Prop := t ≠ some false

instance : DecidablePred check := fun t ↦ inferInstanceAs (Decidable (t ≠ some false))

theorem check_and : check (and s t) ↔ check s ∧ check t := by
  rcases s with _ | _ | _ <;> rcases t with _ | _ | _ <;> simp [check, and]

theorem check_or : check (or s t) ↔ check s ∨ check t := by
  rcases s with _ | _ | _ <;> rcases t with _ | _ | _ <;> simp [check, or]

def all (conditions : List Truth) : Truth := conditions.foldr and (some true)

theorem check_all {conditions : List Truth} :
    check (all conditions) ↔ ∀ t ∈ conditions, check t := by
  induction conditions with
  | nil => simp [all, check]
  | cons t conditions ih =>
    rw [List.forall_mem_cons, ← ih]
    exact check_and

theorem check_some {b : Bool} : check (some b) ↔ b = true := by
  cases b <;> simp [check]

theorem check_compare {a : α} {b : β} :
    check (compare relates (some a) (some b)) ↔ relates a b = true := by
  simp [check, compare]

theorem check_isNull : check (isNull a) ↔ a = none := by
  cases a <;> simp [check, isNull]

theorem check_isNotNull : check (isNotNull a) ↔ a.isSome = true := by
  cases a <;> simp [check, isNotNull]

end Birdtest.Base.Sql
