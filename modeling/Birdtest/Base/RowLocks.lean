import Birdtest.Base.Runs
import Mathlib.Data.Nat.Notation
import Mathlib.Logic.Function.Basic

namespace Birdtest.Base.RowLocks

open Birdtest.Base.Runs

variable {K : Type} {V : K → Type} {O : Type}

abbrev Store (V : K → Type) : Type := (k : K) → V k

/-- A transaction's statements: each locks a row, goes on only if the row as it then is
passes `guard`, writes it, and chooses what follows from what it read. -/
inductive Program (V : K → Type)
  | commit
  | row (k : K) (guard : V k → Bool) (write : V k → V k) (next : V k → Program V)

variable [DecidableEq K]

def Program.exec : Program V → Store V → Option (Store V)
  | .commit, st => some st
  | .row k guard write next, st =>
    if guard (st k) then (next (st k)).exec (Function.update st k (write (st k))) else none

theorem Program.exec_row_eq_some {k : K} {guard : V k → Bool} {write : V k → V k}
    {next : V k → Program V} {st st' : Store V} :
    (Program.row k guard write next).exec st = some st' ↔ guard (st k) = true ∧
      (next (st k)).exec (Function.update st k (write (st k))) = some st' := by
  simp only [Program.exec, Option.ite_none_right_eq_some]

def Program.Ensures (p : Program V) (Q : Store V → Prop) (st : Store V) : Prop :=
  ∀ st', p.exec st = some st' → Q st'

theorem Program.ensures_commit {Q : Store V → Prop} {st : Store V} (h : Q st) :
    (Program.commit (V := V)).Ensures Q st := by
  rintro _ ⟨⟩
  exact h

theorem Program.ensures_row {k : K} {guard : V k → Bool} {write : V k → V k}
    {next : V k → Program V} {Q : Store V → Prop} {st : Store V}
    (h : guard (st k) = true →
      (next (st k)).Ensures Q (Function.update st k (write (st k)))) :
    (Program.row k guard write next).Ensures Q st := by
  intro st' hst'
  obtain ⟨hguard, hst'⟩ := Program.exec_row_eq_some.1 hst'
  exact h hguard st' hst'

def Program.Agrees (p q : Program V) (Q : Store V → Prop) (st : Store V) : Prop :=
  p.exec st = q.exec st ∧ p.Ensures Q st

theorem Program.Ensures.agrees {p : Program V} {Q : Store V → Prop} {st : Store V}
    (h : p.Ensures Q st) : p.Agrees p Q st := ⟨rfl, h⟩

theorem Program.agrees_row {k : K} {guard : V k → Bool} {write write' : V k → V k}
    {next next' : V k → Program V} {Q : Store V → Prop} {st : Store V}
    (h : guard (st k) = true → write' (st k) = write (st k) ∧
      (next (st k)).Agrees (next' (st k)) Q (Function.update st k (write (st k)))) :
    (Program.row k guard write next).Agrees (.row k guard write' next') Q st := by
  refine ⟨?_, Program.ensures_row fun hguard ↦ (h hguard).2.2⟩
  simp only [Program.exec]
  split
  · next hguard =>
    obtain ⟨hwrite, hnext⟩ := h hguard
    rw [hwrite]
    exact hnext.1
  · rfl

theorem Program.agrees_read {k : K} {guard : V k → Bool} {next next' : V k → Program V}
    {Q : Store V → Prop} {st : Store V} (h : (next (st k)).Agrees (next' (st k)) Q st) :
    (Program.row k guard id next).Agrees (.row k guard id next') Q st := by
  refine Program.agrees_row fun _ ↦ ⟨rfl, ?_⟩
  rwa [id_eq, Function.update_eq_self]

structure Transaction (V : K → Type) (O : Type) where
  op : O
  rest : Program V
  own : (k : K) → Option (V k)

def Transaction.view (t : Transaction V O) (st : Store V) : Store V :=
  fun k ↦ (t.own k).getD (st k)

/-- The committed rows, which transaction holds each row's lock, and the running
transactions, whose writes nobody else sees. -/
structure Database (V : K → Type) (O : Type) where
  rows : Store V
  holder : K → Option ℕ
  running : ℕ → Option (Transaction V O)

inductive Action (O : Type)
  | begin (i : ℕ) (op : O)
  | access (i : ℕ)
  | commit (i : ℕ)
  | abort (i : ℕ)

variable (program : O → Program V) (start : Store V → Prop)

def finish (d : Database V O) (i : ℕ) (rows : Store V) : Database V O where
  rows := rows
  holder k := if d.holder k = some i then none else d.holder k
  running := Function.update d.running i none

def access (d : Database V O) (i : ℕ) : Option (Database V O) :=
  match d.running i with
  | some ⟨op, .row k guard write next, own⟩ =>
    let v := (own k).getD (d.rows k)
    if (d.holder k = none ∨ d.holder k = some i) ∧ guard v then
      some { d with
        holder := Function.update d.holder k (some i)
        running := Function.update d.running i
          (some ⟨op, next v, Function.update own k (some (write v))⟩) }
    else none
  | _ => none

def next (d : Database V O) : Action O → Option (Database V O)
  | .begin i op =>
    if (d.running i).isNone then
      some { d with
        running := Function.update d.running i (some ⟨op, program op, fun _ ↦ none⟩) }
    else none
  | .access i => access d i
  | .commit i =>
    match d.running i with
    | some ⟨op, .commit, own⟩ => some (finish d i ((Transaction.mk op .commit own).view d.rows))
    | _ => none
  | .abort i => (d.running i).map fun _ ↦ finish d i d.rows

/-- Any number of transactions, interleaved statement by statement. -/
def interleaved : Machine (Database V O) (Action O) where
  start d := start d.rows ∧ (∀ k, d.holder k = none) ∧ ∀ i, d.running i = none
  next := next program

def serial : Machine (Store V) O where
  start := start
  next st op := (program op).exec st

/-- A transaction holds the lock of each row it has written, and what it has left to do is
what it would do alone on any store that has the rows it holds as they were read. -/
structure Sound (program : O → Program V) (d : Database V O) : Prop where
  holder {i : ℕ} {t : Transaction V O} {k : K} : d.running i = some t → t.own k ≠ none →
    d.holder k = some i
  exec {i : ℕ} {t : Transaction V O} {st : Store V} : d.running i = some t →
    (∀ k, d.holder k = some i → st k = d.rows k) → (program t.op).exec st = t.rest.exec (t.view st)

variable {program start} {d d' : Database V O}

theorem Sound.finish (h : Sound program d) {i : ℕ} {rows : Store V}
    (hrows : ∀ k, d.holder k ≠ some i → rows k = d.rows k) : Sound program (finish d i rows) := by
  constructor
  · intro j t k hj hk
    rcases eq_or_ne j i with rfl | hji
    · simp [RowLocks.finish] at hj
    · simp only [RowLocks.finish, Function.update_of_ne hji] at hj ⊢
      have := h.holder hj hk
      simp [this, hji]
  · intro j t st hj hst
    rcases eq_or_ne j i with rfl | hji
    · simp [RowLocks.finish] at hj
    · simp only [RowLocks.finish, Function.update_of_ne hji] at hj hst
      refine h.exec hj fun k hk ↦ ?_
      have hki : d.holder k ≠ some i := by simp [hk, hji]
      rw [hst k (by simp [hk, hji]), hrows k hki]

theorem Sound.access (h : Sound program d) {i : ℕ} (hs : access d i = some d') :
    Sound program d' := by
  unfold RowLocks.access at hs
  split at hs
  case h_2 => cases hs
  case h_1 op k guard write next own hi =>
  obtain ⟨⟨hfree, hguard⟩, hs⟩ := Option.ite_none_right_eq_some.1 hs
  cases hs
  -- The lock taken was free or already this transaction's.
  have hheld {j : ℕ} {k' : K} (hk' : d.holder k' = some j) :
      Function.update d.holder k (some i) k' = some j := by
    rcases eq_or_ne k' k with rfl | hkk
    · rw [Function.update_self]
      rcases hfree with hfree | hfree
      · cases hfree.symm.trans hk'
      · exact hfree.symm.trans hk'
    · rwa [Function.update_of_ne hkk]
  constructor
  · intro j t k' hj hk'
    simp only at hj ⊢
    rcases eq_or_ne j i with rfl | hji
    · simp only [Function.update_self, Option.some.injEq] at hj
      subst hj
      rcases eq_or_ne k' k with rfl | hkk
      · rw [Function.update_self]
      · simp only [Function.update_of_ne hkk] at hk'
        exact hheld (h.holder hi hk')
    · rw [Function.update_of_ne hji] at hj
      exact hheld (h.holder hj hk')
  · intro j t st hj hst
    simp only at hj hst
    rcases eq_or_ne j i with rfl | hji
    · simp only [Function.update_self, Option.some.injEq] at hj
      subst hj
      have hrest := h.exec hi fun k' hk' ↦ hst k' (hheld hk')
      have hv : (Transaction.mk op (.row k guard write next) own).view st k =
          (own k).getD (d.rows k) := by
        simp [Transaction.view, hst k (Function.update_self ..)]
      simp only [hrest, Program.exec, hv, hguard, if_true]
      congr 1
      funext k'
      rcases eq_or_ne k' k with rfl | hkk
      · simp [Transaction.view]
      · simp [Transaction.view, Function.update_of_ne hkk]
    · rw [Function.update_of_ne hji] at hj
      exact h.exec hj fun k' hk' ↦ hst k' (hheld hk')

theorem Sound.begin (h : Sound program d) (i : ℕ) (op : O) : Sound program { d with
    running := Function.update d.running i (some ⟨op, program op, fun _ ↦ none⟩) } := by
  constructor
  · intro j t k hj hk
    simp only at hj
    rcases eq_or_ne j i with rfl | hji
    · simp only [Function.update_self, Option.some.injEq] at hj
      subst hj
      exact absurd rfl hk
    · rw [Function.update_of_ne hji] at hj
      exact h.holder hj hk
  · intro j t st hj hst
    simp only at hj hst
    rcases eq_or_ne j i with rfl | hji
    · simp only [Function.update_self, Option.some.injEq] at hj
      subst hj
      rfl
    · rw [Function.update_of_ne hji] at hj
      exact h.exec hj hst

theorem Sound.of_next (h : Sound program d) {a : Action O}
    (hs : next program d a = some d') : Sound program d' := by
  cases a with
  | begin i op =>
    obtain ⟨-, hs⟩ := Option.ite_none_right_eq_some.1 hs
    exact Option.some.inj hs ▸ h.begin i op
  | access i => exact h.access hs
  | commit i =>
    simp only [RowLocks.next] at hs
    split at hs <;> cases hs
    next op own hi =>
    refine h.finish fun k hk ↦ ?_
    have hown : own k = none := not_not.1 fun hne ↦ hk (h.holder hi hne)
    simp [Transaction.view, hown]
  | abort i =>
    obtain ⟨t, -, rfl⟩ := Option.map_eq_some_iff.1 hs
    exact h.finish fun _ _ ↦ rfl

theorem Sound.rows_next (h : Sound program d) {a : Action O}
    (hs : next program d a = some d') :
    d'.rows = d.rows ∨ ∃ op, (program op).exec d.rows = some d'.rows := by
  cases a with
  | begin i op =>
    obtain ⟨-, hs⟩ := Option.ite_none_right_eq_some.1 hs
    cases hs
    exact .inl rfl
  | access i =>
    simp only [RowLocks.next, RowLocks.access] at hs
    split at hs
    · obtain ⟨-, hs⟩ := Option.ite_none_right_eq_some.1 hs
      cases hs
      exact .inl rfl
    · cases hs
  | commit i =>
    simp only [RowLocks.next] at hs
    split at hs <;> cases hs
    next op own hi => exact .inr ⟨op, h.exec hi fun _ _ ↦ rfl⟩
  | abort i =>
    obtain ⟨t, -, rfl⟩ := Option.map_eq_some_iff.1 hs
    exact .inl rfl

theorem sound_of_start (h : (interleaved program start).start d) : Sound program d := by
  obtain ⟨-, -, hnone⟩ := h
  constructor <;> intro i t <;> intros <;> simp_all

theorem serial_of_startingAt (h : Sound program d)
    (hd : ((interleaved program start).startingAt d).Reachable d') :
    Sound program d' ∧ ((serial program start).startingAt d.rows).Reachable d'.rows := by
  induction hd with
  | start hs =>
    cases hs
    exact ⟨h, .start rfl⟩
  | step _ _ hs ih =>
    refine ⟨ih.1.of_next hs, ?_⟩
    rcases ih.1.rows_next hs with hrows | ⟨op, hop⟩
    · exact hrows ▸ ih.2
    · exact .step ih.2 trivial hop

/-- The committed rows of any interleaving are those of a serial run. -/
theorem serial_of_reachable (h : (interleaved program start).Reachable d) :
    Sound program d ∧ (serial program start).Reachable d.rows := by
  obtain ⟨d₀, h₀, hd⟩ := h.exists_start
  obtain ⟨hsound, hserial⟩ := serial_of_startingAt (sound_of_start h₀) hd
  exact ⟨hsound, .trans (.start h₀.1) hserial⟩

def CommitsBy (ok : Store V → O → Prop) (d : Database V O) : Action O → Prop
  | .commit i => ∀ t ∈ d.running i, ok d.rows t.op
  | _ => True

instance {ok : Store V → O → Prop} [∀ st op, Decidable (ok st op)] :
    ∀ (d : Database V O) a, Decidable (CommitsBy ok d a)
  | d, .commit i => inferInstanceAs (Decidable (∀ t ∈ d.running i, ok d.rows t.op))
  | _, .begin _ _ | _, .access _ | _, .abort _ => inferInstanceAs (Decidable True)

theorem serial_of_reachableBy {ok : Store V → O → Prop}
    (h : (interleaved program start).ReachableBy (CommitsBy ok) d) :
    Sound program d ∧ (serial program start).ReachableBy ok d.rows := by
  induction h with
  | start h => exact ⟨sound_of_start h, .start h.1⟩
  | @step d d' a _ hok hs ih =>
    refine ⟨ih.1.of_next hs, ?_⟩
    cases a with
    | commit i =>
      simp only [interleaved, RowLocks.next] at hs
      split at hs <;> cases hs
      next op own hi =>
      exact .step ih.2 (hok _ hi) (ih.1.exec hi fun _ _ ↦ rfl)
    | begin i op =>
      obtain ⟨-, hs⟩ := Option.ite_none_right_eq_some.1 hs
      cases hs
      exact ih.2
    | access i =>
      simp only [interleaved, RowLocks.next, RowLocks.access] at hs
      split at hs
      · obtain ⟨-, hs⟩ := Option.ite_none_right_eq_some.1 hs
        cases hs
        exact ih.2
      · exact nomatch hs
    | abort i =>
      obtain ⟨t, -, rfl⟩ := Option.map_eq_some_iff.1 hs
      exact ih.2

end Birdtest.Base.RowLocks
