import Mathlib.Data.Option.Basic

namespace Birdtest.Base.Runs

variable {σ α : Type}

/-- A guarded machine: `next s a` is `none` where action `a` cannot be taken in state `s`. -/
structure Machine (σ α : Type) where
  start : σ → Prop
  next : σ → α → Option σ

namespace Machine

variable (m : Machine σ α) (ok : σ → α → Prop)

/-- The states of those runs every step of which meets `ok`. -/
inductive ReachableBy : σ → Prop
  | start {s : σ} (h : m.start s) : ReachableBy s
  | step {s t : σ} {a : α} (h : ReachableBy s) (hok : ok s a) (hs : m.next s a = some t) :
      ReachableBy t

abbrev Reachable : σ → Prop := m.ReachableBy fun _ _ ↦ True

def startingAt (s : σ) : Machine σ α := ⟨(· = s), m.next⟩

variable {m ok} {s t : σ}

theorem ReachableBy.invariant {I : σ → Prop} (h : m.ReachableBy ok s)
    (h₀ : ∀ s, m.start s → I s)
    (hI : ∀ s a t, I s → ok s a → m.next s a = some t → I t) : I s := by
  induction h with
  | start h => exact h₀ _ h
  | step _ hok hs ih => exact hI _ _ _ ih hok hs

theorem ReachableBy.mono {ok' : σ → α → Prop} (h : m.ReachableBy ok s)
    (hok : ∀ s a, ok s a → ok' s a) : m.ReachableBy ok' s := by
  induction h with
  | start h => exact .start h
  | step _ ha hs ih => exact .step ih (hok _ _ ha) hs

theorem ReachableBy.reachable (h : m.ReachableBy ok s) : m.Reachable s := h.mono fun _ _ _ ↦ trivial

/-- An invariant whose preservation may rest on one already proved of every run. -/
theorem ReachableBy.invariant_of {I J : σ → Prop} (h : m.ReachableBy ok s)
    (hJ : ∀ s, m.Reachable s → J s) (h₀ : ∀ s, m.start s → I s)
    (hI : ∀ s a t, J s → I s → ok s a → m.next s a = some t → I t) : I s := by
  induction h with
  | start h => exact h₀ _ h
  | step hr hok hs ih => exact hI _ _ _ (hJ _ hr.reachable) ih hok hs

theorem ReachableBy.trans (h : m.Reachable s) (ht : (m.startingAt s).Reachable t) :
    m.Reachable t := by
  induction ht with
  | start hs => exact hs ▸ h
  | step _ _ hs ih => exact .step ih trivial hs

theorem ReachableBy.exists_start (h : m.Reachable s) :
    ∃ s₀, m.start s₀ ∧ (m.startingAt s₀).Reachable s := by
  induction h with
  | start h => exact ⟨_, h, .start rfl⟩
  | step _ _ hs ih =>
    obtain ⟨s₀, h₀, h⟩ := ih
    exact ⟨s₀, h₀, .step h trivial hs⟩

section Follow

variable (m ok) [∀ s a, Decidable (ok s a)]

def follow : σ → List α → Option σ
  | s, [] => some s
  | s, a :: as => if ok s a then (m.next s a).bind (follow · as) else none

variable {m ok}

theorem ReachableBy.follow {as : List α} (h : m.ReachableBy ok s)
    (hs : m.follow ok s as = some t) : m.ReachableBy ok t := by
  induction as generalizing s with
  | nil =>
    simp only [Machine.follow, Option.some.injEq] at hs
    exact hs ▸ h
  | cons a as ih =>
    simp only [Machine.follow, Option.ite_none_right_eq_some, Option.bind_eq_some_iff] at hs
    obtain ⟨hok, u, hu, hs⟩ := hs
    exact ih (.step h hok hu) hs

/-- A run found by evaluating it: its last state is reached and passes the test `p`. -/
theorem ReachableBy.follow_any (h : m.ReachableBy ok s) (as : List α) (p : σ → Bool)
    (hp : (m.follow ok s as).any p = true) : ∃ t, m.ReachableBy ok t ∧ p t = true := by
  cases hf : m.follow ok s as with
  | none => simp [hf] at hp
  | some t => exact ⟨t, h.follow hf, by simpa [hf] using hp⟩

end Follow

end Machine

end Birdtest.Base.Runs
