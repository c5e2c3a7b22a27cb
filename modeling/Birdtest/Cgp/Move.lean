import Birdtest.Cgp.Letters
import Mathlib.Data.List.Basic

namespace Birdtest.Cgp

open Birdtest.Jobs.Racks (Text)

inductive Number
  | whole (n : ℕ)
  | infinity
  deriving DecidableEq

section Rows

/-- The double that is nearest to a number, of two as near the one of even significand. -/
def Number.nearest (n : ℕ) : Number :=
  if n ≤ 2 ^ 53 then .whole n
  else
    let unit := 2 ^ (n.log2 - 52)
    let below := n / unit
    let significand :=
      if unit < 2 * (n % unit) ∨ unit = 2 * (n % unit) ∧ below % 2 = 1 then below + 1 else below
    if (significand * unit).log2 < 1024 then .whole (significand * unit) else .infinity

def Number.minusOne : Number → Option Number
  | .whole 0 => none
  | .whole (n + 1) => some (.nearest n)
  | .infinity => some .infinity

def Number.plus (i : ℕ) : Number → Number
  | .whole n => .nearest (n + i)
  | .infinity => .infinity

theorem nearest_of_le {n : ℕ} (h : n ≤ 2 ^ 53) : Number.nearest n = .whole n := if_pos h

end Rows

structure PlayedSquare where
  row : Number
  col : ℕ
  letter : Option Text
  through : Bool
  deriving DecidableEq

inductive Move
  | pass
  | exchange (tiles : List Text)
  | play (row : Number) (col : ℕ) (vertical : Bool) (squares : List PlayedSquare)
  deriving DecidableEq

section Reading

def isLineTerminator (c : Char) : Bool :=
  c = '\n' ∨ c = '\r' ∨ c = '\u2028' ∨ c = '\u2029'

def exchangePrefix : Text := ['(', 'e', 'x', 'c', 'h', ' ']

def exchangeMatch (move : Text) : Option Text :=
  let tiles := (move.drop exchangePrefix.length).dropLast
  if exchangePrefix <+: move ∧ move.getLast? = some ')' ∧ tiles ≠ [] ∧
    tiles.all (!isLineTerminator ·) then some tiles
  else none

/-- `/^\s+(\S+)$/` -/
def wordMatch (rest : Text) : Option Text :=
  let word := rest.dropWhile isSpace
  if rest.takeWhile isSpace ≠ [] ∧ word ≠ [] ∧ word.all (!isSpace ·) then some word else none

/-- `/^(\d+)([A-Z])\s+(\S+)$/` -/
def acrossMatch (move : Text) : Option (ℕ × ℕ × Text) :=
  match move.takeWhile Char.isDigit, move.dropWhile Char.isDigit with
  | d :: ds, c :: rest =>
    if c.isUpper then (wordMatch rest).map fun word ↦ (natural (d :: ds), c.toNat - 65, word)
    else none
  | _, _ => none

/-- `/^([A-Z])(\d+)\s+(\S+)$/` -/
def downMatch : Text → Option (ℕ × ℕ × Text)
  | [] => none
  | c :: rest =>
    if c.isUpper ∧ rest.takeWhile Char.isDigit ≠ [] then
      (wordMatch (rest.dropWhile Char.isDigit)).map fun word ↦
        (natural (rest.takeWhile Char.isDigit), c.toNat - 65, word)
    else none

/-- The squares of a word, each its letter and whether it is played through, `through` being
whether a parenthesis is open. -/
def readSquares (through : Bool) : Text → Option (List (Option Text × Bool))
  | [] => if through then none else some []
  | c :: rest =>
    if c = '(' then if through then none else readSquares true rest
    else if c = ')' then if through then readSquares false rest else none
    else if c = '.' then (readSquares through rest).map ((none, true) :: ·)
    else if c = '[' then
      let letter := rest.takeWhile (· ≠ ']')
      if ']' ∉ rest ∨ letter = [] then none
      else (readSquares through (rest.drop (letter.length + 1))).map ((some letter, through) :: ·)
    else if c = ']' then none
    else (readSquares through rest).map ((some [c], through) :: ·)
termination_by rest => rest.length

def place (row : Number) (col : ℕ) (vertical : Bool) (squares : List (Option Text × Bool)) :
    List PlayedSquare :=
  squares.mapIdx fun i square ↦
    ⟨if vertical then row.plus i else row, if vertical then col else col + i, square.1, square.2⟩

def readPlay (vertical : Bool) (number col : ℕ) (word : Text) : Option Move := do
  let row ← (Number.nearest number).minusOne
  let squares ← readSquares false word
  if squares = [] then none else some (.play row col vertical (place row col vertical squares))

def parseMove (text : Text) : Option Move :=
  let move := trim text
  if move = ['p', 'a', 's', 's'] then some .pass
  else
    match exchangeMatch move with
    | some tiles => (splitLetters tiles).map .exchange
    | none =>
      match acrossMatch move, downMatch move with
      | some (number, col, word), _ => readPlay false number col word
      | none, some (number, col, word) => readPlay true number col word
      | none, none => none

def Move.used (upper : Char → Text) : Move → List Text
  | .pass => []
  | .exchange tiles => tiles
  | .play _ _ _ squares => squares.flatMap fun s ↦
    match s.through, s.letter with
    | false, some letter => [if letter = letter.flatMap upper then letter else ['?']]
    | _, _ => []

/-- `indexOf` and `splice`: the first of the tiles that is the one taken. -/
def takeTile (left : List Text) (tile : Text) : Option (List Text) :=
  if tile ∈ left then some (left.erase tile) else none

def leaveOf (upper : Char → Text) (rack move : Text) : Option Text := do
  let parsed ← parseMove move
  let left ← splitLetters (trim rack)
  let left ← (parsed.used upper).foldlM takeTile left
  some (left.flatMap letterText)

end Reading

section Writing

/-- A part of a play: a letter placed, letters played through, or a square played through that
is not named. -/
inductive Part
  | placed (letter : Text)
  | through (letters : List Text)
  | unnamed

def Part.text : Part → Text
  | .placed letter => letterText letter
  | .through letters => '(' :: (letters.flatMap letterText ++ [')'])
  | .unnamed => ['.']

def Part.squares : Part → List (Option Text × Bool)
  | .placed letter => [(some letter, false)]
  | .through letters => letters.map fun letter ↦ (some letter, true)
  | .unnamed => [(none, true)]

def Part.letters : Part → List Text
  | .placed letter => [letter]
  | .through letters => letters
  | .unnamed => []

/-- A move as it is written: a play from its first square, in parts. -/
inductive WrittenMove
  | pass
  | exchange (tiles : List Text)
  | play (row col : ℕ) (vertical : Bool) (parts : List Part)

def columnLetter (col : ℕ) : Char := Char.ofNat (65 + col)

def WrittenMove.text : WrittenMove → Text
  | .pass => ['p', 'a', 's', 's']
  | .exchange tiles => exchangePrefix ++ (tiles.flatMap letterText ++ [')'])
  | .play row col false parts =>
    Nat.toDigits 10 (row + 1) ++ columnLetter col :: ' ' :: parts.flatMap Part.text
  | .play row col true parts =>
    columnLetter col :: (Nat.toDigits 10 (row + 1) ++ ' ' :: parts.flatMap Part.text)

def WrittenMove.move : WrittenMove → Move
  | .pass => .pass
  | .exchange tiles => .exchange tiles
  | .play row col vertical parts =>
    .play (.whole row) col vertical ((parts.flatMap Part.squares).mapIdx fun i square ↦
      ⟨.whole (if vertical then row + i else row), if vertical then col else col + i, square.1,
        square.2⟩)

def IsPlayed (letter : Text) : Prop :=
  IsLetter letter ∧ letter ≠ ['.'] ∧ letter ≠ ['('] ∧ letter ≠ [')']

instance : DecidablePred IsPlayed := fun _ ↦ inferInstanceAs (Decidable (_ ∧ _))

def lastRow (row : ℕ) (vertical : Bool) (parts : List Part) : ℕ :=
  if vertical then row + (parts.flatMap Part.squares).length else row + 1

/-- An exchange of some tiles, or a play of some squares that starts in a column with a letter and
has rows that doubles tell apart. -/
def WrittenMove.Valid : WrittenMove → Prop
  | .pass => True
  | .exchange tiles => tiles ≠ [] ∧ ∀ tile ∈ tiles, IsLetter tile
  | .play row col vertical parts => col < 26 ∧ parts.flatMap Part.squares ≠ [] ∧
    (∀ part ∈ parts, ∀ letter ∈ part.letters, IsPlayed letter) ∧
    lastRow row vertical parts ≤ 2 ^ 53

end Writing

section ReadBack

variable {letter rest : Text} {letters : List Text} {part : Part} {parts : List Part}

theorem readSquares_letterText (h : IsPlayed letter) (through : Bool) (rest : Text) :
    readSquares through (letterText letter ++ rest) =
      (readSquares through rest).map ((some letter, through) :: ·) := by
  obtain ⟨hletter, hdot, hopen, hclose⟩ := h
  obtain ⟨c, rfl, heq⟩ | heq := single_or_several hletter
  · obtain ⟨-, -, -, hbracket, hbracket'⟩ := hletter.plain c (by simp)
    simp only [ne_eq, List.cons.injEq, and_true] at hdot hopen hclose
    rw [heq, List.singleton_append, readSquares, if_neg hopen, if_neg hclose, if_neg hdot,
      if_neg hbracket, if_neg hbracket']
  · have hinner := takeWhile_letter hletter rest
    rw [heq, List.cons_append, List.append_assoc, List.singleton_append, readSquares,
      if_neg (by decide), if_neg (by decide), if_neg (by decide), if_pos rfl]
    simp only [hinner]
    rw [if_neg (by simp [hletter.ne_nil]), List.drop_append, List.drop_eq_nil_of_le (by simp)]
    simp

theorem readSquares_flatMap (h : ∀ letter ∈ letters, IsPlayed letter) (through : Bool)
    (rest : Text) : readSquares through (letters.flatMap letterText ++ rest) =
      (readSquares through rest).map (letters.map (some ·, through) ++ ·) := by
  induction letters with
  | nil => simp
  | cons letter letters ih =>
    rw [List.flatMap_cons, List.append_assoc, readSquares_letterText (h letter (by simp)),
      ih fun letter hletter ↦ h letter (by simp [hletter]), Option.map_map]
    rfl

theorem readSquares_part (h : ∀ letter ∈ part.letters, IsPlayed letter) (rest : Text) :
    readSquares false (part.text ++ rest) =
      (readSquares false rest).map (part.squares ++ ·) := by
  cases part with
  | placed letter => exact readSquares_letterText (h letter (by simp [Part.letters])) false rest
  | through letters =>
    have h : ∀ letter ∈ letters, IsPlayed letter := h
    rw [Part.text, List.cons_append, readSquares, if_pos rfl, if_neg (by decide), List.append_assoc,
      readSquares_flatMap h, List.singleton_append, readSquares, if_neg (by decide), if_pos rfl,
      if_pos rfl]
    rfl
  | unnamed =>
    rw [Part.text, List.singleton_append, readSquares, if_neg (by decide), if_neg (by decide),
      if_pos rfl]
    rfl

theorem readSquares_parts (h : ∀ part ∈ parts, ∀ letter ∈ part.letters, IsPlayed letter) :
    readSquares false (parts.flatMap Part.text) = some (parts.flatMap Part.squares) := by
  induction parts with
  | nil =>
    rw [List.flatMap_nil, readSquares]
    rfl
  | cons part parts ih =>
    rw [List.flatMap_cons, readSquares_part (h part (by simp)),
      ih fun part hpart ↦ h part (by simp [hpart]), Option.map_some, List.flatMap_cons]

theorem columnLetter_spec : ∀ col < 26, (columnLetter col).isUpper = true ∧
    (columnLetter col).isDigit = false ∧ isSpace (columnLetter col) = false ∧
    (columnLetter col).toNat - 65 = col ∧ columnLetter col ≠ '(' ∧ columnLetter col ≠ 'p' := by
  decide

theorem not_space_of_letterText (h : IsLetter letter) : ∀ c ∈ letterText letter,
    isSpace c = false :=
  fun _ hc ↦ (of_mem_letterText h hc).2.2

theorem not_space_of_flatMap (h : ∀ letter ∈ letters, IsLetter letter) :
    ∀ c ∈ letters.flatMap letterText, isSpace c = false := by
  intro c hc
  obtain ⟨letter, hletter, hc⟩ := List.mem_flatMap.1 hc
  exact not_space_of_letterText (h letter hletter) c hc

theorem not_space_of_part (h : ∀ letter ∈ part.letters, IsPlayed letter) :
    ∀ c ∈ part.text, isSpace c = false := by
  cases part with
  | placed letter => exact not_space_of_letterText (h letter (by simp [Part.letters])).1
  | through letters =>
    intro c hc
    obtain rfl | hc | rfl : c = '(' ∨ c ∈ letters.flatMap letterText ∨ c = ')' := by
      simpa [Part.text, or_assoc] using hc
    · decide
    · exact not_space_of_flatMap (fun letter hletter ↦ (h letter hletter).1) c hc
    · decide
  | unnamed => simp only [Part.text, List.mem_singleton, forall_eq]; decide

theorem not_space_of_parts (h : ∀ part ∈ parts, ∀ letter ∈ part.letters, IsPlayed letter) :
    ∀ c ∈ parts.flatMap Part.text, isSpace c = false := by
  intro c hc
  obtain ⟨part, hpart, hc⟩ := List.mem_flatMap.1 hc
  exact not_space_of_part (h part hpart) c hc

theorem parts_ne_nil (h : ∀ part ∈ parts, ∀ letter ∈ part.letters, IsPlayed letter)
    (hne : parts.flatMap Part.squares ≠ []) : parts.flatMap Part.text ≠ [] := by
  intro hnil
  have hread := readSquares_parts h
  rw [hnil, readSquares] at hread
  exact hne (Option.some.inj hread).symm

theorem wordMatch_word {word : Text} (hne : word ≠ []) (hspace : ∀ c ∈ word, isSpace c = false) :
    wordMatch (' ' :: word) = some word := by
  obtain ⟨c, w, rfl⟩ := List.exists_cons_of_ne_nil hne
  have hc := hspace c (by simp)
  have hblank : isSpace ' ' = true := by decide
  have hword : (' ' :: c :: w).dropWhile isSpace = c :: w := by
    rw [List.dropWhile_cons_of_pos hblank, List.dropWhile_cons_of_neg (by simp [hc])]
  simp only [wordMatch, hword, List.takeWhile_cons_of_pos hblank]
  rw [if_pos ⟨List.cons_ne_nil _ _, List.cons_ne_nil _ _, by simpa using hspace⟩]

theorem trim_play (head : Text) {word : Text} {c : Char} (hc : isSpace c = false) (hne : word ≠ [])
    (hspace : ∀ c ∈ word, isSpace c = false) : trim (c :: (head ++ ' ' :: word)) =
      c :: (head ++ ' ' :: word) := by
  refine trim_eq_self (by simpa using hc) fun c' hc' ↦ hspace c' ?_
  rw [← List.cons_append, List.getLast?_append_of_ne_nil _ (List.cons_ne_nil _ _),
    List.getLast?_cons_of_ne_nil hne] at hc'
  exact List.mem_of_getLast? hc'

theorem takeWhile_digits (n : ℕ) {c : Char} (hc : c.isDigit = false) (rest : Text) :
    (Nat.toDigits 10 n ++ c :: rest).takeWhile Char.isDigit = Nat.toDigits 10 n ∧
      (Nat.toDigits 10 n ++ c :: rest).dropWhile Char.isDigit = c :: rest := by
  have hdigits : ∀ d ∈ Nat.toDigits 10 n, d.isDigit = true := fun d hd ↦ isDigit_of_mem hd
  have hneg : ¬c.isDigit = true := by simp [hc]
  rw [List.takeWhile_append_of_pos hdigits, List.takeWhile_cons_of_neg hneg, List.append_nil,
    List.dropWhile_append_of_pos hdigits, List.dropWhile_cons_of_neg hneg]
  exact ⟨rfl, rfl⟩

section Play

variable {n col : ℕ} {word : Text}

theorem acrossMatch_text (n : ℕ) (hcol : col < 26) (hne : word ≠ [])
    (hspace : ∀ c ∈ word, isSpace c = false) :
    acrossMatch (Nat.toDigits 10 n ++ columnLetter col :: ' ' :: word) = some (n, col, word) := by
  obtain ⟨hupper, hdigit, -, hvalue, -⟩ := columnLetter_spec col hcol
  obtain ⟨htake, hdrop⟩ := takeWhile_digits n hdigit (' ' :: word)
  obtain ⟨d, ds, hds⟩ := List.exists_cons_of_ne_nil (Nat.toDigits_ne_nil (b := 10) (n := n))
  have hnatural := natural_toDigits n
  rw [hds] at hnatural
  rw [acrossMatch, htake, hdrop, hds]
  simp only [hupper, if_true, wordMatch_word hne hspace, Option.map_some, hnatural, hvalue]

theorem acrossMatch_down (hcol : col < 26) (rest : Text) :
    acrossMatch (columnLetter col :: rest) = none := by
  obtain ⟨-, hdigit, -⟩ := columnLetter_spec col hcol
  rw [acrossMatch, List.takeWhile_cons_of_neg (by simp [hdigit])]

theorem downMatch_text (n : ℕ) (hcol : col < 26) (hne : word ≠ [])
    (hspace : ∀ c ∈ word, isSpace c = false) :
    downMatch (columnLetter col :: (Nat.toDigits 10 n ++ ' ' :: word)) = some (n, col, word) := by
  obtain ⟨hupper, -, -, hvalue, -⟩ := columnLetter_spec col hcol
  obtain ⟨htake, hdrop⟩ := takeWhile_digits n (by decide : ' '.isDigit = false) word
  rw [downMatch, htake, hdrop, if_pos ⟨hupper, Nat.toDigits_ne_nil⟩, wordMatch_word hne hspace]
  simp only [Option.map_some, natural_toDigits, hvalue]

theorem exchangeMatch_eq_none {c : Char} (hc : c ≠ '(') (rest : Text) :
    exchangeMatch (c :: rest) = none := by
  simp [exchangeMatch, exchangePrefix, hc.symm]

theorem readPlay_parts (h : ∀ part ∈ parts, ∀ letter ∈ part.letters, IsPlayed letter)
    (hne : parts.flatMap Part.squares ≠ []) (vertical : Bool) (number col : ℕ) :
    readPlay vertical number col (parts.flatMap Part.text) =
      (Number.nearest number).minusOne.map fun row ↦
        .play row col vertical (place row col vertical (parts.flatMap Part.squares)) := by
  rw [readPlay]
  cases (Number.nearest number).minusOne with
  | none => rfl
  | some row =>
    simp only [readSquares_parts h, Option.bind_eq_bind, Option.bind_some, if_neg hne,
      Option.map_some]

theorem place_whole {row : ℕ} {vertical : Bool} (hne : parts.flatMap Part.squares ≠ [])
    (hrow : lastRow row vertical parts ≤ 2 ^ 53) (col : ℕ) :
    (Number.nearest (row + 1)).minusOne.map (fun row ↦
        Move.play row col vertical (place row col vertical (parts.flatMap Part.squares))) =
      some (WrittenMove.play row col vertical parts).move := by
  have hlength := List.length_pos_iff.2 hne
  have hfirst : row + 1 ≤ 2 ^ 53 := by
    rw [lastRow] at hrow
    split at hrow <;> omega
  have hstart : (Number.nearest (row + 1)).minusOne = some (.whole row) := by
    rw [nearest_of_le hfirst, Number.minusOne, nearest_of_le (by omega)]
  rw [hstart, Option.map_some, WrittenMove.move]
  congr 2
  refine List.mapIdx_eq_mapIdx_iff.2 fun i hi ↦ ?_
  cases vertical with
  | false => rfl
  | true =>
    have hplus : (Number.whole row).plus i = .whole (row + i) := by
      refine nearest_of_le ?_
      rw [lastRow, if_pos rfl] at hrow
      omega
    simp only [if_true, hplus]

end Play

theorem not_isLineTerminator {c : Char} (h : isSpace c = false) : isLineTerminator c = false := by
  rw [Bool.eq_false_iff]
  intro hline
  obtain rfl | rfl | rfl | rfl : c = '\n' ∨ c = '\r' ∨ c = '\u2028' ∨ c = '\u2029' := by
    simpa [isLineTerminator] using hline
  all_goals exact absurd h (by decide)

theorem exchangeMatch_text (hne : letters ≠ []) (h : ∀ letter ∈ letters, IsLetter letter) :
    exchangeMatch (exchangePrefix ++ (letters.flatMap letterText ++ [')'])) =
      some (letters.flatMap letterText) := by
  have htext : letters.flatMap letterText ≠ [] := by
    obtain ⟨letter, letters, rfl⟩ := List.exists_cons_of_ne_nil hne
    simp [letterText_ne_nil (h letter (by simp))]
  have hline : (letters.flatMap letterText).all (!isLineTerminator ·) = true := by
    refine List.all_eq_true.2 fun c hc ↦ ?_
    rw [not_isLineTerminator (not_space_of_flatMap h c hc)]
    rfl
  have htiles : ((exchangePrefix ++ (letters.flatMap letterText ++ [')'])).drop
      exchangePrefix.length).dropLast = letters.flatMap letterText := by
    rw [List.drop_left, List.dropLast_concat]
  have hlast : (exchangePrefix ++ (letters.flatMap letterText ++ [')'])).getLast? = some ')' := by
    rw [← List.append_assoc, List.getLast?_concat]
  simp only [exchangeMatch, htiles]
  rw [if_pos ⟨List.prefix_append _ _, hlast, htext, hline⟩]

theorem parseMove_play {row col : ℕ} {vertical : Bool} (hcol : col < 26)
    (hne : parts.flatMap Part.squares ≠ [])
    (hparts : ∀ part ∈ parts, ∀ letter ∈ part.letters, IsPlayed letter) :
    parseMove (WrittenMove.play row col vertical parts).text =
      (Number.nearest (row + 1)).minusOne.map fun row ↦
        .play row col vertical (place row col vertical (parts.flatMap Part.squares)) := by
  have hspace := not_space_of_parts hparts
  have hword := parts_ne_nil hparts hne
  obtain ⟨-, -, hblank, -, hopen, hp⟩ := columnLetter_spec col hcol
  cases vertical with
  | true =>
    have htrim := trim_play (Nat.toDigits 10 (row + 1)) hblank hword hspace
    simp only [parseMove, WrittenMove.text, htrim, List.cons.injEq, hp, false_and, if_false,
      exchangeMatch_eq_none hopen, acrossMatch_down hcol,
      downMatch_text (row + 1) hcol hword hspace, readPlay_parts hparts hne]
  | false =>
    obtain ⟨d, ds, hds⟩ := List.exists_cons_of_ne_nil
      (Nat.toDigits_ne_nil (b := 10) (n := row + 1))
    have hdigit : d.isDigit = true := isDigit_of_mem (n := row + 1) (by simp [hds])
    have hne' : d ≠ '(' ∧ d ≠ 'p' := by
      constructor <;> rintro rfl <;> exact absurd hdigit (by decide)
    have htrim : trim (Nat.toDigits 10 (row + 1) ++ columnLetter col :: ' ' ::
        parts.flatMap Part.text) = Nat.toDigits 10 (row + 1) ++ columnLetter col :: ' ' ::
          parts.flatMap Part.text := by
      have htrim := trim_play (ds ++ [columnLetter col]) (isSpace_of_isDigit hdigit)
        hword hspace
      simpa [hds] using htrim
    have hacross := acrossMatch_text (row + 1) hcol hword hspace
    have hexchange : exchangeMatch (Nat.toDigits 10 (row + 1) ++ columnLetter col :: ' ' ::
        parts.flatMap Part.text) = none := by
      rw [hds]
      exact exchangeMatch_eq_none hne'.1 _
    have hpass : Nat.toDigits 10 (row + 1) ++ columnLetter col :: ' ' ::
        parts.flatMap Part.text ≠ ['p', 'a', 's', 's'] := by
      rw [hds]
      simp [hne'.2]
    simp only [parseMove, WrittenMove.text, htrim, if_neg hpass, hexchange, hacross,
      readPlay_parts hparts hne]

/-- Every move is read back from its text. -/
theorem parseMove_text {m : WrittenMove} (h : m.Valid) : parseMove m.text = some m.move := by
  cases m with
  | pass => rfl
  | exchange tiles =>
    obtain ⟨hne, hletters⟩ := h
    have htrim : trim (WrittenMove.exchange tiles).text = (WrittenMove.exchange tiles).text := by
      refine trim_eq_self (by simp [WrittenMove.text, exchangePrefix]; decide) ?_
      rw [WrittenMove.text, ← List.append_assoc, List.getLast?_concat]
      simp
      decide
    have hpass : (WrittenMove.exchange tiles).text ≠ ['p', 'a', 's', 's'] := by
      simp [WrittenMove.text, exchangePrefix]
    simp only [parseMove, htrim, if_neg hpass]
    simp only [WrittenMove.text, exchangeMatch_text hne hletters, splitLetters_flatMap hletters]
    rfl
  | play row col vertical parts =>
    obtain ⟨hcol, hne, hparts, hrow⟩ := h
    exact (parseMove_play hcol hne hparts).trans (place_whole hne hrow col)

end ReadBack

end Birdtest.Cgp
