import Mathlib.Algebra.GroupWithZero.Nat
import Mathlib.Data.Char
import Mathlib.Data.List.Sort

namespace Birdtest.Jobs.Racks

abbrev Text : Type := List Char

instance lawfulBEq_text : LawfulBEq Text := List.instLawfulBEq

structure Tile where
  letter : Char
  count : ℕ
  deriving DecidableEq

structure Letter where
  letter : Text
  blank : Text
  score : ℤ
  deriving DecidableEq

/-- Why a distribution's racks cannot be enumerated. -/
inductive Unenumerable
  | multiCharacter (token : Text)
  | duplicate (letter : Char)
  deriving DecidableEq

inductive ParseError
  | notUtf8
  | malformed (line : Text) (why : String)
  | nonNumericTileCount (line : Text)
  | noTiles
  | tooManyLetters (letters : ℕ)
  deriving DecidableEq

def magpieMaxAlphabetSize : ℕ := 50
def magpieMaxLetterBytes : ℕ := 4

structure Quoted where
  text : Text → String
  char : Char → String

instance : CoeFun Quoted fun _ ↦ Text → String := ⟨Quoted.text⟩

def ParseError.message (origin : String) (quoted : Quoted) : ParseError → String
  | .notUtf8 => "letter distribution " ++ origin ++ " is not UTF-8"
  | .malformed line why =>
    "malformed letter distribution line in " ++ origin ++ ": " ++ quoted line ++ " (" ++ why ++ ")"
  | .nonNumericTileCount line => "non-numeric tile count in " ++ origin ++ ": " ++ quoted line
  | .noTiles => origin ++ " contains no tiles"
  | .tooManyLetters letters =>
    origin ++ " has " ++ toString letters ++ " letters, and MAGPIE holds at most " ++
      toString magpieMaxAlphabetSize

def Unenumerable.message (origin : String) (quoted : Quoted) : Unenumerable → String
  | .multiCharacter token =>
    origin ++ " has the multi-character letter " ++ quoted token ++
      ", and racks here are strings of one-character letters"
  | .duplicate letter => "duplicate letter " ++ quoted.char letter ++ " in " ++ origin

section Text

def isWhitespace (c : Char) : Bool :=
  let n := c.toNat
  (9 ≤ n && n ≤ 13) || n = 0x20 || n = 0x85 || n = 0xA0 || n = 0x1680 ||
    (0x2000 ≤ n && n ≤ 0x200A) || n = 0x2028 || n = 0x2029 || n = 0x202F || n = 0x205F || n = 0x3000

def trimMatches (p : Char → Bool) (t : Text) : Text :=
  (t.dropWhile p).reverse.dropWhile p |>.reverse

def stripSuffix (c : Char) (t : Text) : Text := if t.getLast? = some c then t.dropLast else t

def byteLength (t : Text) : ℕ := (t.map Char.utf8Size).sum

def digits (t : Text) : Option ℕ :=
  if t ≠ [] ∧ t.all Char.isDigit then some (t.foldl (fun n c ↦ 10 * n + (c.toNat - 48)) 0) else none

def parseU32 (t : Text) : Option ℕ :=
  (digits (match t with | '+' :: t => t | t => t)).filter (· < 2 ^ 32)

def parseI32 (t : Text) : Option ℤ :=
  match t with
  | '-' :: t => ((digits t).filter (· ≤ 2 ^ 31)).map fun n ↦ -(n : ℤ)
  | '+' :: t => ((digits t).filter (· < 2 ^ 31)).map fun n ↦ (n : ℤ)
  | t => ((digits t).filter (· < 2 ^ 31)).map fun n ↦ (n : ℤ)

/-- MAGPIE's `string_to_int` allows surrounding blanks around numbers. -/
def number (t : Text) : Text := trimMatches (fun c ↦ c = ' ' || c = '\t') t

end Text

structure Row where
  letter : Char
  token : Text
  blank : Text
  count : ℕ
  score : ℤ
  count_le : count ≤ 255

def columns (line : Text) : List Text :=
  ((line.splitOn ',').filter (· ≠ [])).map (stripSuffix '\r')

def readLine (line : Text) : Except ParseError Row :=
  match columns line with
  | token :: blank :: count :: score :: isVowel :: display =>
    if ¬(display.length = 0 ∨ display.length = 2) then
      .error (.malformed line "expected 5 or 7 columns")
    else if trimMatches isWhitespace token ≠ token ∨ trimMatches isWhitespace blank ≠ blank then
      .error (.malformed line "space around a letter")
    else
      match token with
      | [] => .error (.malformed line "empty letter")
      | letter :: _ =>
        if magpieMaxLetterBytes < byteLength token ∨ magpieMaxLetterBytes < byteLength blank then
          .error (.malformed line "a letter longer than 4 bytes")
        else if display.any (5 < byteLength ·) then
          .error (.malformed line "a display form longer than 5 bytes")
        else
          match parseU32 (number count) with
          | none => .error (.nonNumericTileCount line)
          | some count =>
            if hcount : 255 < count then .error (.malformed line "a tile count above 255")
            else
              match parseI32 (number score) with
              | none => .error (.malformed line "non-numeric score")
              | some score =>
                if number isVowel = ['0'] ∨ number isVowel = ['1'] then
                  .ok ⟨letter, token, blank, count, score, Nat.le_of_not_lt hcount⟩
                else .error (.malformed line "is_vowel must be 0 or 1")
  | _ => .error (.malformed line "expected 5 or 7 columns")

structure Rows where
  tiles : List Tile
  machineLetters : List Char
  letters : List Letter
  unenumerable : Option Unenumerable
  counts : ∀ tile ∈ tiles, 0 < tile.count ∧ tile.count ≤ 255
  sublist : (tiles.map (·.letter)).Sublist machineLetters
  nodup : unenumerable = none → machineLetters.Nodup

namespace Rows

def empty : Rows := ⟨[], [], [], none, by simp, by simp, by simp⟩

/-- A letter listed twice would enumerate every rack holding it twice. -/
def refused (rows : Rows) (row : Row) : Option Unenumerable :=
  match rows.unenumerable with
  | some reason => some reason
  | none =>
    if 1 < row.token.length then some (.multiCharacter row.token)
    else if row.letter ∈ rows.machineLetters then some (.duplicate row.letter)
    else none

def tile (row : Row) : List Tile := if 0 < row.count then [⟨row.letter, row.count⟩] else []

theorem counts_tile (row : Row) : ∀ t ∈ tile row, 0 < t.count ∧ t.count ≤ 255 := by
  intro t ht
  simp only [tile] at ht
  split at ht
  · next hpos =>
    rw [List.mem_singleton.1 ht]
    exact ⟨hpos, row.count_le⟩
  · simp at ht

theorem sublist_tile (row : Row) : ((tile row).map (·.letter)).Sublist [row.letter] := by
  simp only [tile]
  split <;> simp

theorem nodup_of_refused {rows : Rows} {row : Row} (h : rows.refused row = none) :
    (rows.machineLetters ++ [row.letter]).Nodup := by
  simp only [refused] at h
  split at h
  · cases h
  · next hnone =>
    split at h
    · cases h
    split at h
    · cases h
    · next hnew =>
      exact (rows.nodup hnone).append (List.nodup_singleton _) (by simpa using hnew)

def add (rows : Rows) (row : Row) : Rows where
  tiles := rows.tiles ++ tile row
  machineLetters := rows.machineLetters ++ [row.letter]
  letters := rows.letters ++ [⟨row.token, row.blank, row.score⟩]
  unenumerable := rows.refused row
  counts t ht := (List.mem_append.1 ht).elim (rows.counts t) (counts_tile row t)
  sublist := by simpa using rows.sublist.append (sublist_tile row)
  nodup := nodup_of_refused

/-- Only a line that is empty before its `\r` is dropped. -/
def addLine (rows : Rows) (raw : Text) : Except ParseError Rows :=
  if raw = [] then .ok rows else (readLine (stripSuffix '\r' raw)).map rows.add

end Rows

/-- A distribution as `parse` builds it. Where its racks can be enumerated, its tiles are in
the order of their letters, each letter once. -/
structure LetterDistribution where
  name : String
  bytes : ByteArray
  tiles : List Tile
  letters : List Letter
  unenumerable : Option Unenumerable
  tiles_ne_nil : tiles ≠ []
  length_tiles : tiles.length ≤ magpieMaxAlphabetSize
  counts : ∀ tile ∈ tiles, 0 < tile.count ∧ tile.count ≤ 255
  sorted : unenumerable = none → (tiles.map (·.letter)).Pairwise (· < ·)

section Sorting

def sortByLetter (tiles : List Tile) : List Tile :=
  tiles.insertionSort fun a b ↦ a.letter ≤ b.letter

theorem perm_sortByLetter (tiles : List Tile) : (sortByLetter tiles).Perm tiles :=
  List.perm_insertionSort _ _

theorem pairwise_sortByLetter {tiles : List Tile} (h : (tiles.map (·.letter)).Nodup) :
    ((sortByLetter tiles).map (·.letter)).Pairwise (· < ·) := by
  have hle : (sortByLetter tiles).Pairwise fun a b ↦ a.letter ≤ b.letter := by
    have : Std.Total fun a b : Tile ↦ a.letter ≤ b.letter := ⟨fun a b ↦ le_total _ _⟩
    have : IsTrans Tile fun a b ↦ a.letter ≤ b.letter := ⟨fun a b c ↦ le_trans⟩
    exact List.pairwise_insertionSort _ _
  have hne := ((perm_sortByLetter tiles).map (·.letter)).nodup_iff.2 h
  exact ((List.pairwise_map.2 hle).and hne).imp fun ⟨h, hne⟩ ↦ lt_of_le_of_ne h hne

end Sorting

def parse (bytes : ByteArray) (origin : String) : Except ParseError LetterDistribution :=
  match String.fromUTF8? bytes with
  | none => .error .notUtf8
  | some text =>
    match (text.toList.splitOn '\n').foldlM Rows.addLine Rows.empty with
    | .error e => .error e
    | .ok rows =>
      if htiles : rows.tiles = [] then .error .noTiles
      else if hletters : magpieMaxAlphabetSize < rows.machineLetters.length then
        .error (.tooManyLetters rows.machineLetters.length)
      else
        .ok {
          name := origin
          bytes
          tiles := sortByLetter rows.tiles
          letters := rows.letters
          unenumerable := rows.unenumerable
          tiles_ne_nil :=
          fun h ↦ htiles ((perm_sortByLetter rows.tiles).symm.trans (.of_eq h)).eq_nil
          length_tiles := by
            have := rows.sublist.length_le
            rw [(perm_sortByLetter _).length_eq]
            rw [List.length_map] at this
            omega
          counts := fun t ht ↦ rows.counts t ((perm_sortByLetter _).mem_iff.1 ht)
          sorted := fun h ↦ pairwise_sortByLetter (rows.sublist.nodup (rows.nodup h)) }

theorem exists_parse {text origin : String} {rows : Rows}
    (h : (text.toList.splitOn '\n').foldlM Rows.addLine Rows.empty = .ok rows)
    (htiles : rows.tiles ≠ []) (hletters : rows.machineLetters.length ≤ magpieMaxAlphabetSize) :
    ∃ distribution, parse text.toUTF8 origin = .ok distribution ∧
      distribution.tiles = sortByLetter rows.tiles ∧
      distribution.unenumerable = rows.unenumerable := by
  have htext : String.fromUTF8? text.toUTF8 = some text := dif_pos text.isValidUTF8
  unfold parse
  simp only [htext, h]
  rw [dif_neg htiles, dif_neg (Nat.not_lt.2 hletters)]
  exact ⟨_, rfl, rfl, rfl⟩

end Birdtest.Jobs.Racks
