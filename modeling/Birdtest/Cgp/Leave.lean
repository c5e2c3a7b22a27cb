import Birdtest.Cgp.Move
import Birdtest.Cgp.Position
import Mathlib.Data.Multiset.AddSub

namespace Birdtest.Cgp

open Birdtest.Jobs.Racks (Text)

def tileFor (upper : Char → Text) (letter : Text) : Text :=
  if letter = letter.flatMap upper then letter else ['?']

def WrittenMove.tiles (upper : Char → Text) : WrittenMove → List Text
  | .pass => []
  | .exchange tiles => tiles
  | .play _ _ _ parts => parts.flatMap fun
    | .placed letter => [tileFor upper letter]
    | _ => []

section Leave

variable {upper : Char → Text} {lower : Text → Text} {N : Type} {number : ℤ → N}
  {rack used : List Text} {m : WrittenMove}

theorem coe_eq_cons_erase {tile : Text} (h : tile ∈ rack) :
    (rack : Multiset Text) = tile ::ₘ (rack.erase tile : List Text) :=
  Multiset.coe_eq_coe.2 (List.perm_cons_erase h)

theorem cons_le_iff {tile : Text} : ((tile :: used : List Text) : Multiset Text) ≤ rack ↔
    tile ∈ rack ∧ (used : Multiset Text) ≤ (rack.erase tile : List Text) := by
  rw [← Multiset.cons_coe]
  refine ⟨fun h ↦ ?_, fun ⟨hmem, h⟩ ↦ ?_⟩
  · have hmem : tile ∈ rack :=
      Multiset.mem_coe.1 (Multiset.subset_of_le h (Multiset.mem_cons_self _ _))
    rw [coe_eq_cons_erase hmem] at h
    exact ⟨hmem, (Multiset.cons_le_cons_iff _).1 h⟩
  · rw [coe_eq_cons_erase hmem]
    exact (Multiset.cons_le_cons_iff _).2 h

theorem foldlM_takeTile : used.foldlM takeTile rack =
    if (used : Multiset Text) ≤ rack then some (rack.diff used) else none := by
  induction used generalizing rack with
  | nil =>
    exact (if_pos (Multiset.zero_le (rack : Multiset Text))).symm
  | cons tile used ih =>
    simp only [List.foldlM_cons, takeTile, cons_le_iff, List.diff_cons]
    by_cases hmem : tile ∈ rack
    · simp only [hmem, if_true, true_and, Option.bind_eq_bind, Option.bind_some, ih]
    · simp [hmem]

theorem coe_diff_add (h : (used : Multiset Text) ≤ rack) :
    ((rack.diff used : List Text) : Multiset Text) + used = rack := by
  induction used generalizing rack with
  | nil => exact Multiset.add_zero _
  | cons tile used ih =>
    obtain ⟨hmem, hle⟩ := cons_le_iff.1 h
    rw [List.diff_cons, ← Multiset.cons_coe, Multiset.add_cons, ih hle, coe_eq_cons_erase hmem]

theorem used_play {row : Number} {col : ℕ} {vertical : Bool} {placed : List PlayedSquare}
    {squares : List (Option Text × Bool)}
    (h : placed.map (fun s ↦ (s.letter, s.through)) = squares) :
    (Move.play row col vertical placed).used upper =
      squares.flatMap fun square ↦
        match square.2, square.1 with
        | false, some letter => [tileFor upper letter]
        | _, _ => [] := by
  rw [← h, List.flatMap_map]
  rfl

theorem used_move (m : WrittenMove) : m.move.used upper = m.tiles upper := by
  cases m with
  | pass => rfl
  | exchange tiles => rfl
  | play row col vertical parts =>
    have hused : (WrittenMove.play row col vertical parts).move.used upper =
        (parts.flatMap Part.squares).flatMap _ :=
      used_play (List.ext_getElem (by simp) (by simp))
    rw [hused, WrittenMove.tiles, List.flatMap_assoc]
    refine congrArg (parts.flatMap ·) (funext fun part ↦ ?_)
    cases part with
    | placed letter => rfl
    | through letters => simp [Part.squares, List.flatMap_map]
    | unnamed => rfl

theorem leaveOf_text (hrack : ∀ letter ∈ rack, IsLetter letter) (hm : m.Valid) :
    leaveOf upper (rack.flatMap letterText) m.text =
      if (m.tiles upper : Multiset Text) ≤ rack then
        some ((rack.diff (m.tiles upper)).flatMap letterText)
      else none := by
  have htrim : trim (rack.flatMap letterText) = rack.flatMap letterText := by
    have hspace := not_space_of_flatMap hrack
    exact trim_eq_self (fun c hc ↦ hspace c (List.mem_of_head? hc))
      fun c hc ↦ hspace c (List.mem_of_getLast? hc)
  simp only [leaveOf, parseMove_text hm, htrim, splitLetters_flatMap hrack, used_move,
    foldlM_takeTile, Option.bind_eq_bind, Option.bind_some]
  split <;> rfl

/-- A position is read back from its CGP and a move from its text; only a square board is read as
a position's; and what a move leaves of a rack is what is left of it in its order, where it has
the tiles of the move. -/
theorem reads_back :
    (∀ (p : Position ℤ) (options : Text), p.Valid lower upper →
      (∀ c ∈ options.head?, isSpace c = true) →
      parseCgp upper number (cgpText lower p options) = some (p.map number)) ∧
    (∀ (cgp : Text) (q : Position N), parseCgp upper number cgp = some q →
      0 < q.board.length ∧ ∀ row ∈ q.board, row.length = q.board.length) ∧
    ∀ m : WrittenMove, m.Valid → parseMove m.text = some m.move ∧
      ∀ rack : List Text, (∀ letter ∈ rack, IsLetter letter) →
        (leaveOf upper (rack.flatMap letterText) m.text = none ↔
          ¬(m.tiles upper : Multiset Text) ≤ rack) ∧
        ∀ leave, leaveOf upper (rack.flatMap letterText) m.text = some leave →
          ∃ left : List Text, left.Sublist rack ∧
            (left : Multiset Text) + m.tiles upper = rack ∧ leave = left.flatMap letterText := by
  refine ⟨fun p options hp hoptions ↦ parseCgp_cgpText number hp hoptions,
    fun cgp q h ↦ square_of_parseCgp h, fun m hm ↦ ⟨parseMove_text hm, fun rack hrack ↦ ?_⟩⟩
  rw [leaveOf_text hrack hm]
  by_cases hle : (m.tiles upper : Multiset Text) ≤ rack
  · simp only [hle, if_true, not_true, reduceCtorEq, true_and]
    rintro leave ⟨⟩
    exact ⟨_, List.diff_sublist _ _, coe_diff_add hle, rfl⟩
  · simp [hle]

def blankPosition : Position ℤ where
  board := [[none, some ⟨['N', 'Y'], true⟩], [none, none]]
  racks := ([⟨['?'], true⟩], [])
  scores := (-3, 12)
  zeros := 0

theorem valid_blankPosition :
    blankPosition.Valid (·.map Char.toLower) fun c ↦ [c.toUpper] where
  board_ne_nil := by decide
  square := by decide
  tiles row hrow t ht := by
    obtain rfl | rfl : row = [none, some ⟨['N', 'Y'], true⟩] ∨ row = [none, none] := by
      simpa [blankPosition] using hrow
    · obtain rfl : t = ⟨['N', 'Y'], true⟩ := by simpa using ht
      exact ⟨by decide, by decide, by decide, by decide⟩
    · simp at ht
  racks := by
    refine ⟨fun t ht ↦ ?_, by simp [blankPosition]⟩
    obtain rfl : t = ⟨['?'], true⟩ := by simpa [blankPosition] using ht
    exact ⟨by decide, by decide, by decide, by decide⟩

theorem reads_back_blank :
    parseCgp (fun c ↦ [c.toUpper]) id (cgpText (·.map Char.toLower) blankPosition [' ', 'x']) =
      some blankPosition ∧
    leaveOf (fun c ↦ [c.toUpper]) ['?', '[', 'N', 'Y', ']', 'A']
    ['8', 'H', ' ', 'a', '(', 'B', ')', '.'] ≠
      none := by
  obtain ⟨hposition, -, hmove⟩ :=
    @reads_back (fun c ↦ [c.toUpper]) (·.map Char.toLower) ℤ id
  refine ⟨hposition blankPosition [' ', 'x'] valid_blankPosition (by simp [isSpace]), ?_⟩
  have hplay := hmove (.play 7 7 false [.placed ['a'], .through [['B']], .unnamed])
    ⟨by decide, by decide, by decide, by decide⟩
  exact fun hnone ↦ (hplay.2 [['?'], ['N', 'Y'], ['A']] (by decide)).1.1 hnone (by decide)

/-- A letter `.` is written as a square that is not named is, and `?` as a blank; the row after
2^53 is read as the one before it. -/
theorem not_reads_back :
    IsLetter ['.'] ∧ IsLetter ['?'] ∧
    parseMove (WrittenMove.play 7 7 false [.placed ['.']]).text ≠
      some (WrittenMove.play 7 7 false [.placed ['.']]).move ∧
    parseMove (WrittenMove.play (2 ^ 53) 7 false [.placed ['A']]).text ≠
      some (WrittenMove.play (2 ^ 53) 7 false [.placed ['A']]).move ∧
    parseCgp (fun c ↦ [c.toUpper]) id (cgpText (·.map Char.toLower)
      ⟨[[some ⟨['?'], false⟩]], ([], []), (0, 0), 0⟩ []) ≠
        some ⟨[[some ⟨['?'], false⟩]], ([], []), (0, 0), 0⟩ := by
  refine ⟨by decide, by decide, ?_, ?_, ?_⟩
  · have hread : parseMove (WrittenMove.play 7 7 false [.unnamed]).text = some _ :=
      parseMove_text ⟨by decide, by decide, by decide, by decide⟩
    intro h
    have hmoves := Option.some.inj (hread.symm.trans h)
    exact absurd hmoves (by decide)
  · have hread : parseMove (WrittenMove.play (2 ^ 53) 7 false [.placed ['A']]).text = some _ :=
      (parseMove_play (by decide) (by decide) (by decide)).trans
        (congrArg (Option.map _) (by decide : (Number.nearest (2 ^ 53 + 1)).minusOne =
          some (.whole (2 ^ 53 - 1))))
    intro h
    have hmoves := Option.some.inj (hread.symm.trans h)
    exact absurd (Move.play.inj hmoves).1 (by decide)
  · have hvalid : Position.Valid (·.map Char.toLower) (fun c ↦ [c.toUpper])
        (⟨[[some ⟨['?'], true⟩]], ([], []), (0, 0), 0⟩ : Position ℤ) := by
      refine ⟨by decide, by decide, fun row hrow t ht ↦ ?_, by simp⟩
      obtain rfl : row = [some ⟨['?'], true⟩] := by simpa using hrow
      obtain rfl : t = ⟨['?'], true⟩ := by simpa using ht
      exact ⟨by decide, by decide, by decide, by decide⟩
    have hread : parseCgp (fun c ↦ [c.toUpper]) id (cgpText (·.map Char.toLower)
        ⟨[[some ⟨['?'], true⟩]], ([], []), (0, 0), 0⟩ []) = some _ :=
      parseCgp_cgpText id hvalid (by simp)
    intro h
    have hboards := congrArg Position.board (Option.some.inj (hread.symm.trans h))
    exact absurd hboards (by decide)

end Leave

end Birdtest.Cgp
