import Mathlib.Data.List.Basic

namespace Birdtest.Base.Histories

variable {E : Type} {law : List E → E → Prop} {log newer older : List E} {e : E}

/-- A log, its newest event first, each of whose events the law allows after those before it. -/
def Lawful (law : List E → E → Prop) : List E → Prop
  | [] => True
  | e :: past => law past e ∧ Lawful law past

theorem Lawful.of_append (h : Lawful law (newer ++ older)) : Lawful law older := by
  induction newer with
  | nil => exact h
  | cons e newer ih => exact ih h.2

theorem Lawful.law_of_eq_append (h : Lawful law log) (newer : List E)
    (hlog : log = newer ++ e :: older) : law older e := by
  rw [hlog] at h
  exact h.of_append.1

end Birdtest.Base.Histories
