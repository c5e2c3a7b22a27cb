import Birdtest.Base.Components
import Birdtest.Base.Square
import Mathlib.Algebra.BigOperators.Fin
import Mathlib.Algebra.Order.BigOperators.Group.Finset
import Mathlib.Algebra.Order.Group.Defs
import Mathlib.Algebra.Order.Ring.Int

namespace Birdtest.Stats.BradleyTerry

open Birdtest.Base Birdtest.Base.Components

variable {K : Type} [AddCommGroup K] [LinearOrder K] {n : ℕ}

@[ext] structure Head2Head (K : Type) where
  games : K
  score : K

/-- The players' results: `get i j` holds the games and the score of `i` against `j`. -/
abbrev Matrix (n : ℕ) (K : Type) : Type := Square n (Head2Head K)

namespace Matrix

variable (matrix : Matrix n K)

def new : Matrix n K := .filled ⟨0, 0⟩

def add (i j : Fin n) (games score : K) : Matrix n K :=
  if i = j ∨ games ≤ 0 then matrix
  else
    let forward := matrix.get i j
    let matrix := matrix.set i j ⟨forward.games + games, forward.score + score⟩
    let backward := matrix.get j i
    matrix.set j i ⟨backward.games + games, backward.score + (games - score)⟩

def gamesPlayed (i : Fin n) : K := ∑ j, (matrix.get i j).games

def Played (i j : Fin n) : Prop := 0 < (matrix.get i j).games

instance : DecidableRel matrix.Played := fun _ _ ↦ inferInstanceAs (Decidable (0 < _))

def components : Option (Search (Fin n)) := search (List.finRange n) matrix.Played (n + 1)

end Matrix

structure Call (n : ℕ) (K : Type) where
  i : Fin n
  j : Fin n
  games : K
  score : K

def Matrix.addAll (calls : List (Call n K)) : Matrix n K :=
  calls.foldl (fun matrix call ↦ matrix.add call.i call.j call.games call.score) .new

structure Rated (K : Type) where
  games : K
  component : ℕ

structure Fit (n : ℕ) (K : Type) where
  ratings : Fin n → Rated K
  anchorComponent : ℕ

def fitOf (matrix : Matrix n K) (anchor : ℕ) : Option (Fit n K) :=
  matrix.components.map fun s ↦
    let component (i : Fin n) : ℕ := (s.component i).getD 0
    { ratings := fun i ↦ ⟨matrix.gamesPlayed i, component i⟩
      anchorComponent := if h : anchor < n then component ⟨anchor, h⟩ else 0 }

def Fit.isRateable (fit : Fit n K) (index : Fin n) : Prop :=
  (fit.ratings index).component = fit.anchorComponent ∧ 0 < (fit.ratings index).games

section Cells

variable {matrix : Matrix n K} {i j k l : Fin n} {games score : K}

def share (i j : Fin n) (games score : K) (k l : Fin n) : Head2Head K :=
  if i = j ∨ games ≤ 0 then ⟨0, 0⟩
  else if k = i ∧ l = j then ⟨games, score⟩
  else if k = j ∧ l = i then ⟨games, games - score⟩
  else ⟨0, 0⟩

theorem Matrix.get_add : (matrix.add i j games score).get k l =
    ⟨(matrix.get k l).games + (share i j games score k l).games,
      (matrix.get k l).score + (share i j games score k l).score⟩ := by
  rw [Matrix.add, share]
  split_ifs with hnone hforward hbackward
  · simp
  · obtain ⟨rfl, rfl⟩ := hforward
    have hne : ¬(k = l ∧ l = k) := fun h ↦ hnone (.inl h.1)
    simp [Square.get_set, hne]
  · obtain ⟨rfl, rfl⟩ := hbackward
    simp [Square.get_set, hforward]
  · simp [Square.get_set, hforward, hbackward]

theorem Matrix.add_comm (call call' : Call n K) :
    (matrix.add call.i call.j call.games call.score).add call'.i call'.j call'.games call'.score =
      (matrix.add call'.i call'.j call'.games call'.score).add call.i call.j call.games
        call.score := by
  refine Square.ext_get fun k l ↦ ?_
  simp only [Matrix.get_add]
  congr 1 <;> exact add_right_comm _ _ _

theorem Matrix.addAll_perm {calls calls' : List (Call n K)} (h : calls.Perm calls') :
    addAll calls = addAll calls' :=
  h.foldl_eq' (fun call _ call' _ _ ↦ Matrix.add_comm call call') _

structure Mirrored (matrix : Matrix n K) (k l : Fin n) : Prop where
  games : (matrix.get k l).games = (matrix.get l k).games
  score : (matrix.get k l).score + (matrix.get l k).score = (matrix.get k l).games
  nonneg : 0 ≤ (matrix.get k l).games
  self : k = l → matrix.get k l = ⟨0, 0⟩

theorem share_mirrored (i j : Fin n) (games score : K) (k l : Fin n) :
    (share i j games score k l).games = (share i j games score l k).games ∧
    (share i j games score k l).score + (share i j games score l k).score =
      (share i j games score k l).games ∧
    0 ≤ (share i j games score k l).games ∧
    (k = l → share i j games score k l = ⟨0, 0⟩) := by
  by_cases hnone : i = j ∨ games ≤ 0
  · simp [share, hnone]
  have hne : i ≠ j := fun h ↦ hnone (.inl h)
  have hgames : ¬games ≤ 0 := fun h ↦ hnone (.inr h)
  have hpos : 0 ≤ games := (lt_of_not_ge hgames).le
  by_cases hforward : k = i ∧ l = j
  · obtain ⟨rfl, rfl⟩ := hforward
    simp [share, hne, hgames, hpos]
  by_cases hbackward : k = j ∧ l = i
  · obtain ⟨rfl, rfl⟩ := hbackward
    simp [share, hne, hne.symm, hgames, hpos]
  · have hforward' : ¬(l = i ∧ k = j) := fun h ↦ hbackward ⟨h.2, h.1⟩
    have hbackward' : ¬(l = j ∧ k = i) := fun h ↦ hforward ⟨h.2, h.1⟩
    simp [share, hforward, hbackward, hforward', hbackward']

variable [IsOrderedAddMonoid K]

theorem Mirrored.add (h : Mirrored matrix k l) (i j : Fin n) (games score : K) :
    Mirrored (matrix.add i j games score) k l := by
  obtain ⟨hgames, hscore, hnonneg, hself⟩ := share_mirrored i j games score k l
  refine ⟨?_, ?_, ?_, fun hkl ↦ ?_⟩
  · rw [Matrix.get_add, Matrix.get_add, h.games, hgames]
  · rw [Matrix.get_add, Matrix.get_add, add_add_add_comm, h.score, hscore]
  · rw [Matrix.get_add]
    exact add_nonneg h.nonneg hnonneg
  · rw [Matrix.get_add, h.self hkl, hself hkl]
    simp

theorem mirrored_addAll (calls : List (Call n K)) (k l : Fin n) :
    Mirrored (Matrix.addAll calls) k l := by
  refine List.foldlRecOn calls _ (motive := fun matrix ↦ Mirrored matrix k l) ?_ ?_
  · exact ⟨rfl, add_zero 0, le_rfl, fun _ ↦ rfl⟩
  · exact fun matrix h call _ ↦ h.add call.i call.j call.games call.score

end Cells

section Rateable

variable [IsOrderedAddMonoid K] {calls : List (Call n K)} {i j : Fin n}

theorem played_symm (h : (Matrix.addAll calls).Played i j) : (Matrix.addAll calls).Played j i :=
  lt_of_lt_of_eq h (mirrored_addAll calls i j).games

theorem exists_components (calls : List (Call n K)) : ∃ s,
    (Matrix.addAll calls).components = some s ∧
      Found (List.finRange n) (Matrix.addAll calls).Played s :=
  exists_search (List.nodup_finRange n) List.mem_finRange (fun _ _ ↦ played_symm)
    (by rw [List.length_finRange]; exact Nat.lt_succ_self n)

/-- Whatever is added and in whatever order: a cell mirrors the one across, two players share a
component where a chain of head-to-heads joins them, and the rateable are the players with games
that are joined to the anchor. -/
theorem rateable_exact (calls : List (Call n K)) :
    (∀ i j, ((Matrix.addAll calls).get i j).games = ((Matrix.addAll calls).get j i).games ∧
      ((Matrix.addAll calls).get i j).score + ((Matrix.addAll calls).get j i).score =
        ((Matrix.addAll calls).get i j).games) ∧
    (∀ calls', calls.Perm calls' → Matrix.addAll calls = Matrix.addAll calls') ∧
    (∃ s, (Matrix.addAll calls).components = some s ∧ s.visited.Perm (List.finRange n) ∧
      (∀ i, ∃ c < s.next, s.component i = some c) ∧ (∀ c < s.next, ∃ i, s.component i = some c) ∧
      ∀ i j, s.component i = s.component j ↔
        Relation.ReflTransGen (Matrix.addAll calls).Played i j) ∧
    ∀ anchor : Fin n, ∃ fit, fitOf (Matrix.addAll calls) anchor = some fit ∧
      ∀ i, fit.isRateable i ↔ 0 < (Matrix.addAll calls).gamesPlayed i ∧
        Relation.ReflTransGen (Matrix.addAll calls).Played i anchor := by
  obtain ⟨s, hs, hfound⟩ := exists_components calls
  refine ⟨fun i j ↦ ⟨(mirrored_addAll calls i j).games, (mirrored_addAll calls i j).score⟩,
    fun calls' ↦ Matrix.addAll_perm,
    ⟨s, hs, hfound.visited, hfound.numbered, fun c ↦ hfound.used, hfound.joined_iff⟩,
    fun anchor ↦ ?_⟩
  refine ⟨_, congrArg (Option.map _) hs, fun i ↦ ?_⟩
  obtain ⟨c, -, hc⟩ := hfound.numbered i
  obtain ⟨d, -, hd⟩ := hfound.numbered anchor
  rw [← hfound.joined_iff, Fit.isRateable, and_comm]
  refine and_congr_right fun _ ↦ ?_
  dsimp only
  rw [dif_pos anchor.isLt, hc, hd]
  simp

def twoOfThree : List (Call 3 ℤ) := [⟨0, 1, 2, 1⟩, ⟨1, 2, 0, 1⟩]

theorem rateable_exact_three : ∃ fit, fitOf (Matrix.addAll twoOfThree) (1 : Fin 3) = some fit ∧
    fit.isRateable 0 ∧ ¬fit.isRateable 2 := by
  obtain ⟨fit, hfit, hrateable⟩ := (rateable_exact twoOfThree).2.2.2 1
  refine ⟨fit, hfit, (hrateable 0).2 ⟨by decide +kernel, .single ?_⟩, fun h ↦ ?_⟩
  · change 0 < ((Matrix.addAll twoOfThree).get 0 1).games
    decide +kernel
  · have hpos := ((hrateable 2).1 h).1
    revert hpos
    decide +kernel

end Rateable

end Birdtest.Stats.BradleyTerry
