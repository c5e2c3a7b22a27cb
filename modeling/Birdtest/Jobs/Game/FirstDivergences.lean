import Birdtest.Base.Tables
import Birdtest.Jobs.Game.Results

namespace Birdtest.Jobs.Game

open Birdtest.Base.Checked Birdtest.Base.Tables

structure CapturedPosition (P : Type) where
  gameIndex : ℤ
  turnNumber : ℤ
  player : ℤ
  rack : String
  position : String
  /-- The moves, the analysis and the inference. -/
  rest : P

structure PositionAnalysis where
  rack : String
  position : Option String
  gameIndex : Option ℤ
  turnNumber : Option ℤ
  deriving DecidableEq

def CapturedPosition.analysis {P : Type} (captured : CapturedPosition P) : PositionAnalysis :=
  ⟨captured.rack, some captured.position, some captured.gameIndex, some captured.turnNumber⟩

def maxTurnsPerGame : ℤ := 400

/-- `validate_positions`, where `checkTexts` has the checks of a position's texts and moves. -/
def validatePositions {P : Type} (checkTexts : CapturedPosition P → Except String Unit)
    (gamesInBatch : ℤ) :
    List (ℤ × ℤ) → List (CapturedPosition P) → Except String (List PositionAnalysis)
  | _, [] => .ok []
  | seen, captured :: positions => do
    ensure ((captured.gameIndex, captured.turnNumber) ∉ seen)
      s!"two captured positions for turn {captured.turnNumber} of game {captured.gameIndex}"
    ensure (0 ≤ captured.gameIndex ∧ captured.gameIndex < gamesInBatch)
      s!"captured position names game {captured.gameIndex} but the batch has {gamesInBatch}"
    ensure (captured.player = 1 ∨ captured.player = 2)
      s!"captured position names player {captured.player}; a position is player 1's or player 2's"
    ensure (0 ≤ captured.turnNumber ∧ captured.turnNumber ≤ maxTurnsPerGame)
      s!"captured position has an implausible turn number {captured.turnNumber}"
    checkTexts captured
    let out ← validatePositions checkTexts gamesInBatch
      ((captured.gameIndex, captured.turnNumber) :: seen) positions
    .ok (captured.analysis :: out)

def boardOf (position : Option String) : Option (List Char) :=
  position.map fun cgp ↦ cgp.toList.takeWhile (· ≠ ' ')

/-- Each pair's first position seen, and the number of pairs with both. -/
structure Kept where
  first : Table ℤ PositionAnalysis
  complete : ℕ

def keepPosition (kept : Kept) (position : PositionAnalysis) : Except String Kept :=
  match position.gameIndex, position.turnNumber with
  | some game, some turn =>
    let pair := game.tdiv 2
    match kept.first.get pair with
    | none => .ok { kept with first := kept.first.put pair position }
    | some other => do
      ensure (other.gameIndex ≠ some game)
        s!"game {game} has two first-divergence positions; a pair keeps one turn"
      ensure (other.turnNumber = some turn)
        (s!"pair {pair}'s first-divergence positions are at turns {other.turnNumber.getD 0} and " ++
          s!"{turn}, not one turn")
      ensure (boardOf other.position = boardOf position.position ∧ other.rack = position.rack)
        (s!"pair {pair}'s first-divergence positions are different positions: before they " ++
          "diverge the two games are one game, with the same board and tiles")
      .ok { kept with complete := kept.complete + 1 }
  | _, _ => .error "a captured position names no game and turn"

def checkFirstDivergences (positions : List PositionAnalysis)
    (divergentGames : Option GameAggregate) : Except String Unit :=
  match divergentGames with
  | none => .error ("a result that keeps first divergences must report divergent_games, which " ++
      "says how many pairs diverged")
  | some divergent => do
    let kept ← positions.foldlM keepPosition ⟨.empty, 0⟩
    ensure (kept.first.rows.length = kept.complete)
      "a pair kept one first-divergence position; it keeps both games' or neither"
    ensure ((kept.complete * 2 : ℤ) = divergent.games)
      (s!"{kept.complete} pairs kept a first divergence, and divergent_games says " ++
        s!"{divergent.games.tdiv 2} diverged")

structure Diverges (a b : PositionAnalysis) : Prop where
  game : a.gameIndex ≠ b.gameIndex
  turn : a.turnNumber = b.turnNumber
  board : boardOf a.position = boardOf b.position
  rack : a.rack = b.rack

def InPair (pair : ℤ) (position : PositionAnalysis) : Prop :=
  position.gameIndex = some (2 * pair) ∨ position.gameIndex = some (2 * pair + 1)

instance (pair : ℤ) : DecidablePred (InPair pair) := fun _ ↦ inferInstanceAs (Decidable (_ ∨ _))

/-- `pairs` are those with positions, each with exactly two: one of each of its games, at one turn,
of one board and rack. -/
structure Grouped (positions : List PositionAnalysis) (pairs : List ℤ) : Prop where
  nodup : pairs.Nodup
  mem : ∀ position ∈ positions, ∃ pair ∈ pairs, InPair pair position
  group : ∀ pair ∈ pairs, ∃ a b, (positions.filter (InPair pair)).Perm [a, b] ∧
    a.gameIndex = some (2 * pair) ∧ b.gameIndex = some (2 * pair + 1) ∧
      a.turnNumber = b.turnNumber ∧ boardOf a.position = boardOf b.position ∧ a.rack = b.rack

structure Named (position : PositionAnalysis) (game turn : ℤ) : Prop where
  gameIndex : position.gameIndex = some game
  turnNumber : position.turnNumber = some turn
  nonneg : 0 ≤ game

section Kept

variable {positions seen rest : List PositionAnalysis} {position : PositionAnalysis}
  {kept kept' : Kept} {pair game turn : ℤ} {pairs : List ℤ}

theorem inPair_iff (h : Named position game turn) : InPair pair position ↔ pair = game.tdiv 2 := by
  have hnonneg := h.nonneg
  rw [InPair, h.gameIndex, Option.some_inj, Option.some_inj, Int.tdiv_eq_ediv_of_nonneg hnonneg]
  omega

theorem keepPosition_eq_ok (h : Named position game turn) :
    keepPosition kept position = .ok kept' ↔
      (kept.first.get (game.tdiv 2) = none ∧
        kept' = { kept with first := kept.first.put (game.tdiv 2) position }) ∨
      ∃ other, kept.first.get (game.tdiv 2) = some other ∧ Diverges other position ∧
        kept' = { kept with complete := kept.complete + 1 } := by
  simp only [keepPosition, h.gameIndex, h.turnNumber]
  cases hfirst : kept.first.get (game.tdiv 2) with
  | none => simp [eq_comm]
  | some other =>
    simp only [ensure_bind_eq_ok, Except.ok.injEq, reduceCtorEq, false_and, false_or,
      Option.some_inj, exists_eq_left']
    constructor
    · rintro ⟨hgame, hturn, ⟨hboard, hrack⟩, rfl⟩
      exact ⟨⟨by rwa [h.gameIndex], by rw [hturn, h.turnNumber], hboard, hrack⟩, rfl⟩
    · rintro ⟨⟨hgame, hturn, hboard, hrack⟩, rfl⟩
      exact ⟨by rwa [h.gameIndex] at hgame, by rw [hturn, h.turnNumber], ⟨hboard, hrack⟩, rfl⟩

structure Split (seen : List PositionAnalysis) (kept : Kept) (second : Table ℤ PositionAnalysis) :
    Prop where
  group : ∀ pair, seen.filter (InPair pair) =
    (kept.first.get pair).toList ++ (second.get pair).toList
  diverges : ∀ pair b, second.get pair = some b → ∃ a, kept.first.get pair = some a ∧ Diverges a b
  complete : kept.complete = second.rows.length

theorem split_nil : Split [] ⟨.empty, 0⟩ .empty where
  group _ := rfl
  diverges _ _ h := nomatch h
  complete := rfl

theorem length_put {t : Table ℤ PositionAnalysis} (h : t.get pair = none) :
    (t.put pair position).rows.length = t.rows.length + 1 := by
  have hcount := Table.count_put (t := t) (k := pair) (r := position) (p := fun _ ↦ true)
  simpa [Table.count, h] using hcount

theorem Split.mem_group {second : Table ℤ PositionAnalysis} (hsplit : Split seen kept second)
    {a : PositionAnalysis} (ha : kept.first.get pair = some a ∨ second.get pair = some a) :
    a ∈ seen ∧ InPair pair a := by
  have hmem : a ∈ seen.filter (InPair pair) := by
    rw [hsplit.group pair, List.mem_append, Option.mem_toList, Option.mem_toList]
    exact ha
  simpa using hmem

theorem Split.step {second : Table ℤ PositionAnalysis} (hsplit : Split seen kept second)
    (h : Named position game turn)
    (hnew : ∀ other ∈ seen, other.gameIndex ≠ some game ∨ other.turnNumber ≠ some turn)
    (hkeep : keepPosition kept position = .ok kept') :
    ∃ second', Split (seen ++ [position]) kept' second' := by
  have hgroup (pair : ℤ) : (seen ++ [position]).filter (InPair pair) =
      seen.filter (InPair pair) ++ if pair = game.tdiv 2 then [position] else [] := by
    rw [List.filter_append, List.filter_singleton]
    by_cases hpair : pair = game.tdiv 2
    · simp [inPair_iff h, hpair]
    · simp [inPair_iff h, hpair]
  rcases (keepPosition_eq_ok h).1 hkeep with ⟨hfirst, rfl⟩ | ⟨other, hfirst, hdiverges, rfl⟩
  · have hsecond : second.get (game.tdiv 2) = none := by
      refine Option.eq_none_iff_forall_ne_some.2 fun b hb ↦ ?_
      obtain ⟨a, ha, -⟩ := hsplit.diverges _ b hb
      rw [hfirst] at ha
      cases ha
    refine ⟨second, fun pair ↦ ?_, fun pair b hb ↦ ?_, hsplit.complete⟩
    · rw [hgroup, hsplit.group]
      by_cases hpair : pair = game.tdiv 2
      · subst hpair
        simp [Table.get_put_self, hfirst, hsecond]
      · simp [Table.get_put_of_ne hpair, hpair]
    · obtain ⟨a, ha, hab⟩ := hsplit.diverges pair b hb
      have hpair : pair ≠ game.tdiv 2 := by
        rintro rfl
        rw [hfirst] at ha
        cases ha
      exact ⟨a, by rwa [Table.get_put_of_ne hpair], hab⟩
  · have hsecond : second.get (game.tdiv 2) = none := by
      refine Option.eq_none_iff_forall_ne_some.2 fun b hb ↦ ?_
      -- Both are of the game that the first is not of, and at its turn.
      obtain ⟨a, ha, hab⟩ := hsplit.diverges _ b hb
      rw [hfirst] at ha
      cases ha
      obtain ⟨hmem, hpair⟩ := hsplit.mem_group (.inr hb)
      obtain ⟨-, hpair'⟩ := hsplit.mem_group (.inl hfirst)
      have hgame := hab.game
      have hgame' := hdiverges.game
      rw [h.gameIndex] at hgame'
      have hturn : b.turnNumber = some turn := by rw [← hab.turn, hdiverges.turn, h.turnNumber]
      have hsame : b.gameIndex = some game := by
        have hposition := (inPair_iff h).2 rfl
        rw [InPair, h.gameIndex] at hposition
        rw [InPair] at hpair hpair'
        grind
      rcases hnew b hmem with hne | hne
      · exact hne hsame
      · exact hne hturn
    refine ⟨second.put (game.tdiv 2) position, fun pair ↦ ?_, fun pair b hb ↦ ?_, ?_⟩
    · rw [hgroup, hsplit.group]
      by_cases hpair : pair = game.tdiv 2
      · subst hpair
        simp [Table.get_put_self, hfirst, hsecond]
      · simp [Table.get_put_of_ne hpair, hpair]
    · by_cases hpair : pair = game.tdiv 2
      · subst hpair
        rw [Table.get_put_self] at hb
        cases hb
        exact ⟨other, hfirst, hdiverges⟩
      · rw [Table.get_put_of_ne hpair] at hb
        exact hsplit.diverges pair b hb
    · rw [length_put hsecond, hsplit.complete]

theorem eq_or_swap_of_perm {a b c d : PositionAnalysis} (h : [a, b].Perm [c, d]) :
    (a = c ∧ b = d) ∨ (a = d ∧ b = c) := by
  have ha : a ∈ [c, d] := h.subset List.mem_cons_self
  rcases List.mem_pair.1 ha with rfl | rfl
  · exact .inl ⟨rfl, List.singleton_perm_singleton.1 (List.perm_cons a |>.1 h)⟩
  · exact .inr ⟨rfl, List.singleton_perm_singleton.1
      (List.perm_cons a |>.1 (h.trans (List.Perm.swap a c [])))⟩

theorem Split.exists_keepPosition {second : Table ℤ PositionAnalysis}
    (hsplit : Split seen kept second) (h : Named position game turn)
    (hgrouped : Grouped (seen ++ position :: rest) pairs) :
    ∃ kept', keepPosition kept position = .ok kept' := by
  cases hfirst : kept.first.get (game.tdiv 2) with
  | none => exact ⟨_, (keepPosition_eq_ok h).2 (.inl ⟨hfirst, rfl⟩)⟩
  | some other =>
    obtain ⟨pair, hmem, hpair⟩ := hgrouped.mem position (by simp)
    cases (inPair_iff h).1 hpair
    obtain ⟨a, b, hperm, hgame, hgame', hturn, hboard, hrack⟩ := hgrouped.group _ hmem
    have hboth : [other, position].Perm [a, b] := by
      have hcons : (position :: rest).filter (InPair (game.tdiv 2)) =
          position :: rest.filter (InPair (game.tdiv 2)) :=
        List.filter_cons_of_pos (decide_eq_true hpair)
      rw [List.filter_append, hsplit.group, hfirst, hcons] at hperm
      have hlength := hperm.length_eq
      simp only [Option.toList_some, List.length_append, List.length_cons, List.length_nil]
        at hlength
      have hsecond : (second.get (game.tdiv 2)).toList = [] := List.length_eq_zero_iff.1 (by omega)
      have hrest : rest.filter (InPair (game.tdiv 2)) = [] := List.length_eq_zero_iff.1 (by omega)
      rwa [hsecond, hrest] at hperm
    have hne : a.gameIndex ≠ b.gameIndex := by
      rw [hgame, hgame']
      intro hsame
      have := Option.some_inj.1 hsame
      omega
    refine ⟨_, (keepPosition_eq_ok h).2 (.inr ⟨other, hfirst, ?_, rfl⟩)⟩
    rcases eq_or_swap_of_perm hboth with ⟨rfl, rfl⟩ | ⟨rfl, rfl⟩
    · exact ⟨hne, hturn, hboard, hrack⟩
    · exact ⟨hne.symm, hturn.symm, hboard.symm, hrack.symm⟩

theorem mem_keys {t : Table ℤ PositionAnalysis} :
    pair ∈ t.rows.map Prod.fst ↔ ∃ row, t.get pair = some row := by
  simp [← Table.mem_rows]

theorem Split.keys_subset {second : Table ℤ PositionAnalysis}
    (hsplit : Split positions kept second) :
    second.rows.map Prod.fst ⊆ kept.first.rows.map Prod.fst := by
  intro pair hpair
  obtain ⟨b, hb⟩ := mem_keys.1 hpair
  obtain ⟨a, ha, -⟩ := hsplit.diverges pair b hb
  exact mem_keys.2 ⟨a, ha⟩

theorem Split.grouped {second : Table ℤ PositionAnalysis} (hsplit : Split positions kept second)
    (hnamed : ∀ position ∈ positions, ∃ game turn, Named position game turn)
    (hlength : kept.first.rows.length = kept.complete) :
    Grouped positions (kept.first.rows.map Prod.fst) := by
  have hkeys : kept.first.rows.map Prod.fst ⊆ second.rows.map Prod.fst := by
    refine ((second.nodup.subperm hsplit.keys_subset).perm_of_length_le ?_).symm.subset
    rw [List.length_map, List.length_map, hlength, hsplit.complete]
  refine ⟨kept.first.nodup, ?_, ?_⟩
  · intro position hposition
    obtain ⟨game, turn, hname⟩ := hnamed position hposition
    have hin : InPair (game.tdiv 2) position := (inPair_iff hname).2 rfl
    refine ⟨game.tdiv 2, ?_, hin⟩
    have hgroup : position ∈ positions.filter (InPair (game.tdiv 2)) :=
      List.mem_filter.2 ⟨hposition, decide_eq_true hin⟩
    rw [hsplit.group, List.mem_append, Option.mem_toList, Option.mem_toList] at hgroup
    rcases hgroup with hfirst | hsecond
    · exact mem_keys.2 ⟨position, hfirst⟩
    · exact hsplit.keys_subset (mem_keys.2 ⟨position, hsecond⟩)
  · intro pair hpair
    obtain ⟨b, hb⟩ := mem_keys.1 (hkeys hpair)
    obtain ⟨a, ha, hgame, hturn, hboard, hrack⟩ := hsplit.diverges pair b hb
    have hgroup := hsplit.group pair
    rw [ha, hb] at hgroup
    obtain ⟨-, hinA⟩ := hsplit.mem_group (.inl ha)
    obtain ⟨-, hinB⟩ := hsplit.mem_group (.inr hb)
    rcases hinA with hinA | hinA <;> rcases hinB with hinB | hinB
    · exact absurd (hinA.trans hinB.symm) hgame
    · exact ⟨a, b, .of_eq hgroup, hinA, hinB, hturn, hboard, hrack⟩
    · refine ⟨b, a, ?_, hinB, hinA, hturn.symm, hboard.symm, hrack.symm⟩
      rw [hgroup]
      exact .swap b a []
    · exact absurd (hinA.trans hinB.symm) hgame

theorem Split.length_of_grouped {second : Table ℤ PositionAnalysis}
    (hsplit : Split positions kept second)
    (hnamed : ∀ position ∈ positions, ∃ game turn, Named position game turn)
    (hgrouped : Grouped positions pairs) :
    kept.first.rows.length = kept.complete ∧ pairs.length = kept.complete := by
  have hfirst : kept.first.rows.map Prod.fst ⊆ pairs := by
    intro pair hpair
    obtain ⟨a, ha⟩ := mem_keys.1 hpair
    obtain ⟨hmem, hin⟩ := hsplit.mem_group (.inl ha)
    obtain ⟨pair', hpair', hin'⟩ := hgrouped.mem a hmem
    obtain ⟨game, turn, hname⟩ := hnamed a hmem
    rwa [(inPair_iff hname).1 hin, ← (inPair_iff hname).1 hin']
  have hsecond : pairs ⊆ second.rows.map Prod.fst := by
    intro pair hpair
    obtain ⟨a, b, hperm, -⟩ := hgrouped.group pair hpair
    have hlength := hperm.length_eq
    rw [hsplit.group, List.length_append] at hlength
    refine mem_keys.2 (Option.isSome_iff_exists.1 ?_)
    cases hfirst : kept.first.get pair <;> cases hsecond : second.get pair
    case some.some => rfl
    all_goals
      rw [hfirst, hsecond] at hlength
      simp at hlength
  have hle := (kept.first.nodup.subperm hfirst).length_le
  have hle' := (hgrouped.nodup.subperm hsecond).length_le
  have hle'' := (second.nodup.subperm hsplit.keys_subset).length_le
  have hcomplete := hsplit.complete
  simp only [List.length_map] at hle hle' hle''
  omega

theorem ne_of_nodup (hdistinct : ((seen ++ position :: rest).map fun position ↦
      (position.gameIndex, position.turnNumber)).Nodup) (h : Named position game turn) :
    ∀ other ∈ seen, other.gameIndex ≠ some game ∨ other.turnNumber ≠ some turn := by
  intro other hother
  rw [List.map_append, List.nodup_append] at hdistinct
  have hne := hdistinct.2.2 _ (List.mem_map_of_mem hother) _
    (List.mem_map_of_mem (List.mem_cons_self (a := position)))
  rw [h.gameIndex, h.turnNumber] at hne
  by_contra! hsame
  exact hne (Prod.ext hsame.1 hsame.2)

/-- A loop that does not stop has grouped the positions. -/
theorem exists_split_of_run {second : Table ℤ PositionAnalysis} (hsplit : Split seen kept second)
    (hnamed : ∀ position ∈ rest, ∃ game turn, Named position game turn)
    (hdistinct : ((seen ++ rest).map fun position ↦
      (position.gameIndex, position.turnNumber)).Nodup)
    (h : rest.foldlM keepPosition kept = .ok kept') :
    ∃ second, Split (seen ++ rest) kept' second := by
  induction rest generalizing seen kept second with
  | nil =>
    cases h
    rw [List.append_nil]
    exact ⟨second, hsplit⟩
  | cons position rest ih =>
    obtain ⟨kept₁, hkeep, h⟩ := bind_eq_ok h
    obtain ⟨game, turn, hname⟩ := hnamed position List.mem_cons_self
    obtain ⟨second', hsplit'⟩ := hsplit.step hname (ne_of_nodup hdistinct hname) hkeep
    rw [List.append_cons] at hdistinct ⊢
    exact ih hsplit' (fun other hother ↦ hnamed other (List.mem_cons_of_mem _ hother)) hdistinct h

/-- And it does not stop at positions that are of whole pairs. -/
theorem exists_run {second : Table ℤ PositionAnalysis} (hsplit : Split seen kept second)
    (hnamed : ∀ position ∈ rest, ∃ game turn, Named position game turn)
    (hdistinct : ((seen ++ rest).map fun position ↦
      (position.gameIndex, position.turnNumber)).Nodup)
    (hgrouped : Grouped (seen ++ rest) pairs) :
    ∃ kept', rest.foldlM keepPosition kept = .ok kept' := by
  induction rest generalizing seen kept second with
  | nil => exact ⟨kept, rfl⟩
  | cons position rest ih =>
    obtain ⟨game, turn, hname⟩ := hnamed position List.mem_cons_self
    obtain ⟨kept₁, hkeep⟩ := hsplit.exists_keepPosition hname hgrouped
    obtain ⟨second', hsplit'⟩ := hsplit.step hname (ne_of_nodup hdistinct hname) hkeep
    rw [List.append_cons] at hdistinct hgrouped
    rw [List.foldlM_cons, hkeep]
    exact ih hsplit' (fun other hother ↦ hnamed other (List.mem_cons_of_mem _ hother)) hdistinct
      hgrouped

/-- The check passes exactly the positions that are two of each of as many pairs as diverged. -/
theorem checkFirstDivergences_exact {divergentGames : Option GameAggregate}
    (hnamed : ∀ position ∈ positions, ∃ game turn, Named position game turn)
    (hdistinct : (positions.map fun position ↦
      (position.gameIndex, position.turnNumber)).Nodup) :
    checkFirstDivergences positions divergentGames = .ok () ↔
      ∃ divergent pairs, divergentGames = some divergent ∧ Grouped positions pairs ∧
        2 * (pairs.length : ℤ) = divergent.games := by
  cases divergentGames with
  | none => simp [checkFirstDivergences]
  | some divergent =>
    simp only [checkFirstDivergences, Option.some_inj]
    constructor
    · intro h
      obtain ⟨kept, hrun, h⟩ := bind_eq_ok h
      obtain ⟨second, hsplit⟩ := exists_split_of_run split_nil hnamed hdistinct hrun
      rw [ensure_bind_eq_ok, ensure_eq_ok] at h
      obtain ⟨hlength, hgames⟩ := h
      refine ⟨divergent, _, rfl, hsplit.grouped hnamed hlength, ?_⟩
      rw [List.length_map]
      omega
    · rintro ⟨_, pairs, rfl, hgrouped, hgames⟩
      obtain ⟨kept, hrun⟩ := exists_run split_nil hnamed hdistinct hgrouped
      obtain ⟨second, hsplit⟩ := exists_split_of_run split_nil hnamed hdistinct hrun
      obtain ⟨hlength, hpairs⟩ := hsplit.length_of_grouped hnamed hgrouped
      rw [hrun, ok_bind, ensure_bind_eq_ok, ensure_eq_ok]
      exact ⟨hlength, by omega⟩

/-- Two pairs, the second's positions the other way round. -/
theorem checkFirstDivergences_exact_two :
    checkFirstDivergences [⟨"AEINRST", some "15/7CAT5 AEINRST/DOG", some 0, some 3⟩,
      ⟨"EEIOUUV", some "15/15 x", some 5, some 0⟩,
      ⟨"AEINRST", some "15/7CAT5 DOG/AEINRST", some 1, some 3⟩,
      ⟨"EEIOUUV", some "15/15 y", some 4, some 0⟩] (some ⟨4, 2, 2, 0⟩) = .ok () := by
  refine (checkFirstDivergences_exact (fun position hposition ↦ ?_) (by decide)).2
    ⟨⟨4, 2, 2, 0⟩, [0, 2], rfl, ⟨by decide, by decide, fun pair hpair ↦ ?_⟩, by decide⟩
  · simp only [List.mem_cons, List.not_mem_nil, or_false] at hposition
    rcases hposition with rfl | rfl | rfl | rfl <;> exact ⟨_, _, rfl, rfl, by decide⟩
  · rcases List.mem_pair.1 hpair with rfl | rfl
    · exact ⟨_, _, .refl _, rfl, rfl, rfl, by decide, rfl⟩
    · exact ⟨_, _, .swap _ _ [], rfl, rfl, rfl, by decide, rfl⟩

end Kept

section Validate

variable {P : Type} {checkTexts : CapturedPosition P → Except String Unit} {gamesInBatch : ℤ}
  {seen : List (ℤ × ℤ)} {captured : List (CapturedPosition P)} {positions : List PositionAnalysis}

theorem of_validatePositions
    (h : validatePositions checkTexts gamesInBatch seen captured = .ok positions) :
    (∀ position ∈ positions, ∃ game turn, Named position game turn ∧ (game, turn) ∉ seen) ∧
      (positions.map fun position ↦ (position.gameIndex, position.turnNumber)).Nodup := by
  induction captured generalizing seen positions with
  | nil =>
    cases h
    exact ⟨fun position hposition ↦ absurd hposition List.not_mem_nil, List.nodup_nil⟩
  | cons first captured ih =>
    simp only [validatePositions, ensure_bind_eq_ok] at h
    obtain ⟨hnew, ⟨hgame, -⟩, -, -, h⟩ := h
    obtain ⟨⟨⟩, -, h⟩ := bind_eq_ok h
    obtain ⟨out, hout, h⟩ := bind_eq_ok h
    cases h
    obtain ⟨hnamed, hnodup⟩ := ih hout
    refine ⟨?_, ?_⟩
    · rintro position (_ | ⟨_, hposition⟩)
      · exact ⟨_, _, ⟨rfl, rfl, hgame⟩, hnew⟩
      · obtain ⟨game, turn, hname, hfresh⟩ := hnamed position hposition
        exact ⟨game, turn, hname, fun hmem ↦ hfresh (List.mem_cons_of_mem _ hmem)⟩
    · rw [List.map_cons, List.nodup_cons]
      refine ⟨fun hmem ↦ ?_, hnodup⟩
      obtain ⟨position, hposition, hsame⟩ := List.mem_map.1 hmem
      obtain ⟨game, turn, ⟨hgame', hturn', -⟩, hfresh⟩ := hnamed position hposition
      rw [hgame', hturn', Prod.mk.injEq] at hsame
      cases hsame.1
      cases hsame.2
      exact hfresh List.mem_cons_self

end Validate

end Birdtest.Jobs.Game
