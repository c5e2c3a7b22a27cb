import Birdtest.Base.Checked
import Birdtest.Inputdata.Archive
import Birdtest.Jobs.Racks.Distribution

namespace Birdtest.Board

open Birdtest.Base.Checked
open Birdtest.Inputdata (Bytes lossy beginChar decodeFrom)
open Birdtest.Jobs.Racks (Quoted Text byteLength digits stripSuffix trimMatches)

def magpieBoardDim : ℕ := 15

inductive Square
  | normal | doubleLetter | doubleWord | tripleLetter | tripleWord | quadrupleLetter | quadrupleWord
  | brick
  deriving DecidableEq

def Square.fromSymbol : Char → Option Square
  | ' ' => some .normal
  | '\'' => some .doubleLetter
  | '-' => some .doubleWord
  | '"' => some .tripleLetter
  | '=' => some .tripleWord
  | '^' => some .quadrupleLetter
  | '~' => some .quadrupleWord
  | '#' => some .brick
  | _ => none

def Wide (squares : List (List Square)) : Prop := ∀ row ∈ squares, row.length = magpieBoardDim

structure BoardLayout where
  start : ℕ × ℕ
  squares : List (List Square)
  inside : start.1 < magpieBoardDim ∧ start.2 < magpieBoardDim
  rows : squares.length = magpieBoardDim
  wide : Wide squares

inductive LayoutError
  | rows (count : ℕ)
  | start (line : Text)
  | width (row bytes : ℕ)
  | square (row : ℕ) (symbol : Char)
  deriving DecidableEq

def LayoutError.message (quoted : Quoted) : LayoutError → String
  | .rows count =>
    s!"has {count} rows; every MAGPIE build the fleet runs plays on " ++
      s!"{magpieBoardDim}x{magpieBoardDim}"
  | .start line => "has a start square MAGPIE cannot read: " ++ quoted line
  | .width row bytes => s!"row {row} is {bytes} squares wide, not {magpieBoardDim}"
  | .square row symbol =>
    s!"row {row} has a square MAGPIE does not know: " ++ quoted.char symbol

section Parse

def lines (text : Text) : List Text := ((text.splitOn '\n').filter (· ≠ [])).map (stripSuffix '\r')

def isBlank (c : Char) : Bool := c = ' ' ∨ c = '\t' ∨ c = '\n' ∨ c = '\r'

def parseI64 (t : Text) : Option ℤ :=
  match t with
  | '-' :: t => ((digits t).filter (· ≤ 2 ^ 63)).map fun n ↦ -(n : ℤ)
  | '+' :: t => ((digits t).filter (· < 2 ^ 63)).map Int.ofNat
  | t => ((digits t).filter (· < 2 ^ 63)).map Int.ofNat

def coordinate (part : Text) : Option ℕ :=
  ((parseI64 (trimMatches isBlank part)).filter fun v : ℤ ↦ 0 ≤ v ∧
    v < magpieBoardDim).map Int.toNat

def readStart (line : Text) : Option (ℕ × ℕ) :=
  match ((line.splitOn ',').filter (· ≠ [])).map coordinate with
  | [some row, some col] => some (row, col)
  | _ => none

def readSquares : Text → Except Char (List Square)
  | [] => .ok []
  | c :: line => match Square.fromSymbol c with
    | none => .error c
    | some square => (readSquares line).map (square :: ·)

def readRow (row : ℕ) (line : Text) : Except LayoutError (List Square) :=
  if byteLength line ≠ magpieBoardDim then .error (.width row (byteLength line))
  else (readSquares line).mapError (.square row)

def readRows (row : ℕ) : List Text → Except LayoutError (List (List Square))
  | [] => .ok []
  | line :: rest => do
    let squares ← readRow row line
    let below ← readRows (row + 1) rest
    .ok (squares :: below)

end Parse

section Symbols

variable {c : Char} {square : Square} {line : Text} {squares : List Square} {row : ℕ}
  {rest : List Text} {below : List (List Square)}

def Square.symbol : Square → Char
  | .normal => ' '
  | .doubleLetter => '\''
  | .doubleWord => '-'
  | .tripleLetter => '"'
  | .tripleWord => '='
  | .quadrupleLetter => '^'
  | .quadrupleWord => '~'
  | .brick => '#'

theorem fromSymbol_symbol (square : Square) : Square.fromSymbol square.symbol = some square := by
  cases square <;> rfl

theorem symbol_of_fromSymbol (h : Square.fromSymbol c = some square) : c = square.symbol := by
  unfold Square.fromSymbol at h
  split at h <;> cases h <;> rfl

def spell (squares : List Square) : Text := squares.map Square.symbol

theorem readSquares_eq_ok : readSquares line = .ok squares ↔ line = spell squares := by
  induction line generalizing squares with
  | nil =>
    rw [readSquares, spell, Except.ok.injEq, eq_comm (a := []), eq_comm (a := []),
      List.map_eq_nil_iff]
  | cons c line ih =>
    rw [readSquares]
    cases hc : Square.fromSymbol c with
    | none =>
      refine iff_of_false (by simp) fun heq ↦ ?_
      cases squares with
      | nil => cases heq
      | cons square squares =>
        obtain ⟨rfl, -⟩ := List.cons.inj heq
        rw [fromSymbol_symbol] at hc
        cases hc
    | some square =>
      obtain rfl := symbol_of_fromSymbol hc
      constructor
      · intro h
        cases hline : readSquares line with
        | error e =>
          rw [hline] at h
          cases h
        | ok rest =>
          rw [hline] at h
          cases h
          rw [ih.1 hline]
          rfl
      · intro h
        cases squares with
        | nil => cases h
        | cons square' squares =>
          obtain ⟨hsymbol, hline⟩ := List.cons.inj h
          have hsquare : square = square' := by
            rw [hsymbol, fromSymbol_symbol] at hc
            exact (Option.some.inj hc).symm
          rw [ih.2 hline, hsquare]
          rfl

theorem byteLength_spell (squares : List Square) : byteLength (spell squares) = squares.length := by
  induction squares with
  | nil => rfl
  | cons square squares ih =>
    rw [byteLength, spell, List.map_cons, List.map_cons, List.sum_cons, List.length_cons,
      Nat.add_comm]
    congr 1
    cases square <;> rfl

theorem readRow_eq_ok : readRow row line = .ok squares ↔
    line = spell squares ∧ squares.length = magpieBoardDim := by
  rw [readRow]
  split_ifs with hwidth
  · refine iff_of_false (by simp) ?_
    rintro ⟨rfl, hlength⟩
    exact hwidth ((byteLength_spell squares).trans hlength)
  · rw [not_not] at hwidth
    have hread : (readSquares line).mapError (LayoutError.square row) = .ok squares ↔
        readSquares line = .ok squares := by
      cases readSquares line <;> simp [Except.mapError]
    rw [hread, readSquares_eq_ok, iff_self_and]
    rintro rfl
    rwa [byteLength_spell] at hwidth

theorem readRows_eq_ok : readRows row rest = .ok below ↔ rest = below.map spell ∧ Wide below := by
  induction rest generalizing row below with
  | nil =>
    rw [readRows, Except.ok.injEq, eq_comm (a := []), eq_comm (a := []), List.map_eq_nil_iff,
      iff_self_and]
    rintro rfl
    exact fun _ h ↦ by cases h
  | cons line rest ih =>
    rw [readRows]
    constructor
    · intro h
      obtain ⟨squares, hsquares, h⟩ := bind_eq_ok h
      obtain ⟨rows, hrows, h⟩ := bind_eq_ok h
      cases h
      obtain ⟨rfl, hlength⟩ := readRow_eq_ok.1 hsquares
      obtain ⟨rfl, hwide⟩ := ih.1 hrows
      exact ⟨rfl, List.forall_mem_cons.2 ⟨hlength, hwide⟩⟩
    · rintro ⟨heq, hwide⟩
      cases below with
      | nil => cases heq
      | cons squares below =>
        obtain ⟨rfl, rfl⟩ := List.cons.inj heq
        obtain ⟨hlength, hwide⟩ := List.forall_mem_cons.1 hwide
        rw [readRow_eq_ok.2 ⟨rfl, hlength⟩, ok_bind, ih.2 ⟨rfl, hwide⟩, ok_bind]

end Symbols

section Layout

variable {content : Bytes} {layout : BoardLayout} {first : Text} {start : ℕ × ℕ}
  {part : Text} {n : ℕ}

theorem lt_of_coordinate (h : coordinate part = some n) : n < magpieBoardDim := by
  obtain ⟨v, hv, rfl⟩ := Option.map_eq_some_iff.1 h
  obtain ⟨-, hin⟩ := Option.filter_eq_some_iff.1 hv
  rw [decide_eq_true_eq] at hin
  omega

theorem inside_of_readStart (h : readStart first = some start) :
    start.1 < magpieBoardDim ∧ start.2 < magpieBoardDim := by
  rw [readStart] at h
  split at h
  · next row col hparts =>
    cases h
    have hmem (m : ℕ) (hm : some m ∈ [some row, some col]) : m < magpieBoardDim := by
      rw [← hparts] at hm
      obtain ⟨part, -, hpart⟩ := List.mem_map.1 hm
      exact lt_of_coordinate hpart
    exact ⟨hmem row List.mem_cons_self, hmem col (List.mem_cons_of_mem _ List.mem_cons_self)⟩
  · cases h

def parse (content : Bytes) : Except LayoutError BoardLayout :=
  match lines (lossy content) with
  | [] => .error (.rows 0)
  | first :: rest =>
    if hrest : rest.length ≠ magpieBoardDim then .error (.rows rest.length)
    else match hstart : readStart first with
      | none => .error (.start first)
      | some start => match hrows : readRows 1 rest with
        | .error e => .error e
        | .ok squares => .ok {
            start := start
            squares := squares
            inside := inside_of_readStart hstart
            rows := by
              obtain ⟨rfl, -⟩ := readRows_eq_ok.1 hrows
              rwa [List.length_map, not_not] at hrest
            wide := (readRows_eq_ok.1 hrows).2 }

def layoutProblem (content : Bytes) : Option LayoutError :=
  match parse content with
  | .ok _ => none
  | .error e => some e

/-- What is accepted is a line that gives the start, and then the layout's squares and nothing
else. -/
theorem parse_eq_ok : parse content = .ok layout ↔
    ∃ first, lines (lossy content) = first :: layout.squares.map spell ∧
      readStart first = some layout.start := by
  obtain ⟨start, squares, hinside, hlength, hwide⟩ := layout
  dsimp only
  unfold parse
  constructor
  · intro h
    split at h
    · cases h
    next first rest hlines =>
    split at h
    · cases h
    split at h
    · cases h
    next found hfound =>
    split at h
    · cases h
    next read hread =>
    cases h
    exact ⟨first, by rw [hlines, (readRows_eq_ok.1 hread).1], hfound⟩
  · rintro ⟨first, hlines, hstart⟩
    have hrows : readRows 1 (squares.map spell) = .ok squares := readRows_eq_ok.2 ⟨rfl, hwide⟩
    split
    · next hnil =>
      rw [hlines] at hnil
      cases hnil
    next first' rest hlines' =>
    rw [hlines] at hlines'
    cases hlines'
    rw [dif_neg (by rwa [not_not, List.length_map])]
    split
    · next hnone =>
      rw [hstart] at hnone
      cases hnone
    next found hfound =>
    rw [hstart] at hfound
    cases hfound
    split
    · next e he =>
      rw [hrows] at he
      cases he
    next read hread =>
    rw [hrows] at hread
    cases hread
    rfl

end Layout

section Write

variable {line text : Text} {c : Char}

def startLine (start : ℕ × ℕ) : Text :=
  Nat.toDigits 10 start.1 ++ ',' :: ' ' :: Nat.toDigits 10 start.2

def ending (cr : Bool) (newlines : ℕ) : Text :=
  (if cr then ['\r'] else []) ++ List.replicate newlines '\n'

/-- Lines one after another, each with its own end: `ends` is given how many lines follow, and says
how many of the newlines are not needed. -/
def join (ends : ℕ → Bool × ℕ) : List Text → Text
  | [] => []
  | [line] => line ++ ending (ends 0).1 (ends 0).2
  | line :: next :: rest =>
    line ++ ending (ends (rest.length + 1)).1 ((ends (rest.length + 1)).2 + 1) ++
      join ends (next :: rest)

def write (leading : ℕ) (ends : ℕ → Bool × ℕ) (layout : BoardLayout) : Text :=
  List.replicate leading '\n' ++ join ends (startLine layout.start :: layout.squares.map spell)

def encode (text : Text) : Bytes := text.map fun c ↦ UInt8.ofNat c.toNat

theorem lossy_encode (h : ∀ c ∈ text, c.toNat ≤ 0x7F) : lossy (encode text) = text := by
  induction text with
  | nil => rfl
  | cons c text ih =>
    obtain ⟨hc, hrest⟩ := List.forall_mem_cons.1 h
    have hbyte : (UInt8.ofNat c.toNat).toNat = c.toNat := Nat.mod_eq_of_lt (by omega)
    rw [encode, List.map_cons, lossy, decodeFrom, hbyte, beginChar, if_pos hc, Char.ofNat_toNat]
    exact congrArg (c :: ·) (ih hrest)

theorem lines_newline : lines ('\n' :: text) = lines text := by
  rw [lines, List.splitOn_cons_eq_if_modifyHead, if_pos (by decide),
    List.filter_cons_of_neg (by simp)]
  rfl

theorem lines_ending (empty : ℕ) : lines (List.replicate empty '\n' ++ text) = lines text := by
  induction empty with
  | zero => rfl
  | succ empty ih => rw [List.replicate_succ, List.cons_append, lines_newline, ih]

theorem lines_append_newline (hline : '\n' ∉ line) (hne : line ≠ []) :
    lines (line ++ '\n' :: text) = stripSuffix '\r' line :: lines text := by
  rw [lines, List.splitOn_append_cons_self_of_not_mem hline,
    List.filter_cons_of_pos (by simpa using hne), List.map_cons]
  rfl

theorem stripSuffix_of_not_mem (h : '\r' ∉ line) : stripSuffix '\r' line = line :=
  if_neg fun hlast ↦ h (List.mem_of_getLast? hlast)

theorem stripSuffix_append (h : '\r' ∉ line) (cr : Bool) :
    stripSuffix '\r' (line ++ if cr then ['\r'] else []) = line := by
  cases cr with
  | false => rw [if_neg Bool.false_ne_true, List.append_nil, stripSuffix_of_not_mem h]
  | true => rw [if_pos rfl, stripSuffix, if_pos (by simp), List.dropLast_concat]

theorem lines_append_ending (hne : line ≠ []) (hnewline : '\n' ∉ line) (hreturn : '\r' ∉ line)
    (cr : Bool) (newlines : ℕ) :
    lines (line ++ ending cr (newlines + 1) ++ text) = line :: lines text := by
  have hplain : '\n' ∉ line ++ if cr then ['\r'] else [] := by
    cases cr <;> simp [hnewline]
  rw [ending, List.replicate_succ, ← List.append_assoc, List.append_assoc, List.cons_append,
    lines_append_newline hplain (by simp [hne]), lines_ending, stripSuffix_append hreturn]

theorem lines_append_last (hne : line ≠ []) (hnewline : '\n' ∉ line) (hreturn : '\r' ∉ line)
    (cr : Bool) (newlines : ℕ) : lines (line ++ ending cr newlines) = [line] := by
  cases newlines with
  | succ newlines =>
    rw [← List.append_nil (line ++ _), lines_append_ending hne hnewline hreturn]
    rfl
  | zero =>
    have hplain : '\n' ∉ line ++ if cr then ['\r'] else [] := by
      cases cr <;> simp [hnewline]
    rw [ending, List.replicate_zero, List.append_nil, lines, List.splitOn_eq_singleton hplain,
      List.filter_cons_of_pos (by simp [hne]), List.filter_nil, List.map_cons, List.map_nil,
      stripSuffix_append hreturn]

theorem lines_join {written : List Text} (ends : ℕ → Bool × ℕ)
    (h : ∀ line ∈ written, line ≠ [] ∧ '\n' ∉ line ∧ '\r' ∉ line) :
    lines (join ends written) = written := by
  induction written with
  | nil => rfl
  | cons line written ih =>
    obtain ⟨⟨hne, hnewline, hreturn⟩, hrest⟩ := List.forall_mem_cons.1 h
    cases written with
    | nil => exact lines_append_last hne hnewline hreturn _ _
    | cons next rest => rw [join, lines_append_ending hne hnewline hreturn, ih hrest]

theorem mem_join {written : List Text} {ends : ℕ → Bool × ℕ} (h : c ∈ join ends written) :
    (∃ line ∈ written, c ∈ line) ∨ c = '\r' ∨ c = '\n' := by
  have hending {cr : Bool} {newlines : ℕ} (hc : c ∈ ending cr newlines) : c = '\r' ∨ c = '\n' := by
    obtain hc | hc := List.mem_append.1 hc
    · cases cr with
      | false => cases hc
      | true => exact .inl (List.mem_singleton.1 hc)
    · exact .inr (List.eq_of_mem_replicate hc)
  induction written with
  | nil => cases h
  | cons line written ih =>
    cases written with
    | nil =>
      obtain hc | hc := List.mem_append.1 h
      · exact .inl ⟨line, List.mem_cons_self, hc⟩
      · exact .inr (hending hc)
    | cons next rest =>
      rw [join, List.mem_append, List.mem_append] at h
      obtain (hc | hc) | hc := h
      · exact .inl ⟨line, List.mem_cons_self, hc⟩
      · exact .inr (hending hc)
      · exact (ih hc).imp_left fun ⟨line', hline', hc'⟩ ↦
          ⟨line', List.mem_cons_of_mem _ hline', hc'⟩

theorem coordinate_toDigits : ∀ n < magpieBoardDim, coordinate (Nat.toDigits 10 n) = some n ∧
    coordinate (' ' :: Nat.toDigits 10 n) = some n := by
  decide +kernel

theorem digits_of_startLine (n : ℕ) (hn : n < magpieBoardDim) :
    coordinate (Nat.toDigits 10 n) = some n ∧
    coordinate (' ' :: Nat.toDigits 10 n) = some n ∧
    ∀ c ∈ Nat.toDigits 10 n, 48 ≤ c.toNat ∧ c.toNat ≤ 57 := by
  obtain ⟨hfirst, hsecond⟩ := coordinate_toDigits n hn
  refine ⟨hfirst, hsecond, fun c hc ↦ ?_⟩
  have hdigit := Nat.isDigit_of_mem_toDigits (by decide) (by decide) hc
  rw [Char.isDigit, Bool.and_eq_true, decide_eq_true_eq, decide_eq_true_eq] at hdigit
  exact ⟨hdigit.1, hdigit.2⟩

def Plain (c : Char) : Prop := c.toNat ≤ 0x7F ∧ c ≠ '\n' ∧ c ≠ '\r'

theorem plain_digit (h : c.toNat ≤ 57 ∧ 48 ≤ c.toNat) : Plain c ∧ c ≠ ',' := by
  refine ⟨⟨by omega, ?_, ?_⟩, ?_⟩
  all_goals
    rintro rfl
    revert h
    decide

theorem plain_spell (squares : List Square) : ∀ c ∈ spell squares, Plain c := by
  intro c hc
  obtain ⟨square, -, rfl⟩ := List.mem_map.1 hc
  cases square <;> exact ⟨by decide, by decide, by decide⟩

theorem plain_startLine {start : ℕ × ℕ} (h : start.1 < magpieBoardDim ∧ start.2 < magpieBoardDim) :
    ∀ c ∈ startLine start, Plain c := by
  intro c hc
  have hdigit (n : ℕ) (hn : n < magpieBoardDim) (hc : c ∈ Nat.toDigits 10 n) : Plain c :=
    (plain_digit ((digits_of_startLine n hn).2.2 c hc).symm).1
  rw [startLine, List.mem_append, List.mem_cons, List.mem_cons] at hc
  obtain hc | rfl | rfl | hc := hc
  · exact hdigit start.1 h.1 hc
  · exact ⟨by decide, by decide, by decide⟩
  · exact ⟨by decide, by decide, by decide⟩
  · exact hdigit start.2 h.2 hc

theorem readStart_startLine {start : ℕ × ℕ}
    (h : start.1 < magpieBoardDim ∧ start.2 < magpieBoardDim) :
    readStart (startLine start) = some start := by
  have hcomma (n : ℕ) (hn : n < magpieBoardDim) : ',' ∉ Nat.toDigits 10 n := fun hc ↦
    (plain_digit ((digits_of_startLine n hn).2.2 _ hc).symm).2 rfl
  have hsecond : ',' ∉ ' ' :: Nat.toDigits 10 start.2 := by
    rw [List.mem_cons, not_or]
    exact ⟨by decide, hcomma _ h.2⟩
  rw [readStart, startLine, List.splitOn_append_cons_self_of_not_mem (hcomma _ h.1),
    List.splitOn_eq_singleton hsecond, List.filter_cons_of_pos (by simp),
    List.filter_cons_of_pos (by simp), List.filter_nil, List.map_cons, List.map_cons, List.map_nil,
    (digits_of_startLine _ h.1).1, (digits_of_startLine _ h.2).2.1]

theorem lines_write (layout : BoardLayout) (leading : ℕ) (ends : ℕ → Bool × ℕ) :
    lines (lossy (encode (write leading ends layout))) =
      startLine layout.start :: layout.squares.map spell := by
  have hwritten : ∀ line ∈ startLine layout.start :: layout.squares.map spell,
      line ≠ [] ∧ ∀ c ∈ line, Plain c := by
    refine List.forall_mem_cons.2 ⟨⟨by simp [startLine], plain_startLine layout.inside⟩,
      fun line hline ↦ ?_⟩
    obtain ⟨row, hrow, rfl⟩ := List.mem_map.1 hline
    refine ⟨fun hnil ↦ ?_, plain_spell row⟩
    have hwidth := layout.wide row hrow
    rw [List.map_eq_nil_iff.1 hnil] at hwidth
    cases hwidth
  rw [lossy_encode, write, lines_ending]
  · refine lines_join ends fun line hline ↦ ?_
    obtain ⟨hne, hplain⟩ := hwritten line hline
    exact ⟨hne, fun hc ↦ (hplain _ hc).2.1 rfl, fun hc ↦ (hplain _ hc).2.2 rfl⟩
  · intro c hc
    obtain hc | hc := List.mem_append.1 hc
    · rw [List.eq_of_mem_replicate hc]
      decide
    · obtain ⟨line, hline, hc⟩ | rfl | rfl := mem_join hc
      · exact ((hwritten line hline).2 c hc).1
      · decide
      · decide

/-- A layout is read from just the files that give a start and spell its squares, and among them
from every file it is written to, whichever of its lines end in a `\r` and whatever empty lines
stand about them. -/
theorem layout_read_exactly (layout : BoardLayout) :
    (∀ content, parse content = .ok layout ↔
      ∃ first, lines (lossy content) = first :: layout.squares.map spell ∧
        readStart first = some layout.start) ∧
    ∀ leading ends, parse (encode (write leading ends layout)) = .ok layout := by
  refine ⟨fun content ↦ parse_eq_ok, fun leading ends ↦
    parse_eq_ok.2 ⟨startLine layout.start, ?_, ?_⟩⟩
  · exact lines_write layout leading ends
  · exact readStart_startLine layout.inside

end Write

end Birdtest.Board
