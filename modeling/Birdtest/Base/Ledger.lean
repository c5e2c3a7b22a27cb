import Mathlib.Algebra.BigOperators.Group.Multiset.Basic

namespace Birdtest.Base

variable {M : Type} [AddCommMonoid M]

/-- Accepted entries, each of which is pending until it is posted, once, to a running
total. -/
structure Ledger (M : Type) [AddCommMonoid M] where
  posted : M
  pending : Multiset M
  accepted : Multiset M
  balanced : posted + pending.sum = accepted.sum

namespace Ledger

def empty : Ledger M := ⟨0, 0, 0, by simp⟩

def accept (l : Ledger M) (m : M) : Ledger M where
  posted := l.posted
  pending := m ::ₘ l.pending
  accepted := m ::ₘ l.accepted
  balanced := by rw [Multiset.sum_cons, Multiset.sum_cons, add_left_comm, l.balanced]

def post (l : Ledger M) (batch rest : Multiset M) (h : l.pending = batch + rest) : Ledger M where
  posted := l.posted + batch.sum
  pending := rest
  accepted := l.accepted
  balanced := by rw [add_assoc, ← Multiset.sum_add, ← h, l.balanced]

theorem posted_of_pending_eq_zero (l : Ledger M) (h : l.pending = 0) :
    l.posted = l.accepted.sum := by
  simpa [h] using l.balanced

end Ledger

end Birdtest.Base
