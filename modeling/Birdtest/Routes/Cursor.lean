import Mathlib.Algebra.GroupWithZero.Nat
import Mathlib.Data.Fin.Basic
import Mathlib.Data.Nat.Notation

namespace Birdtest.Routes

def separator : Char := .ofNat 0x1f

abbrev Cursor := List Char

/-- How values of a kind are written into a cursor and read back. -/
structure Text (α : Type) where
  print : α → List Char
  parse : List Char → Option α
  parse_print : ∀ a, parse (print a) = some a

/-- Values that are written without a separator. -/
structure PlainText (α : Type) extends Text α where
  separator_notMem : ∀ a, separator ∉ print a

def encodeCursor (parts : List (List Char)) : Cursor := [separator].intercalate parts

def decodeCursor (raw : Cursor) : List (List Char) := raw.splitOn separator

theorem decodeCursor_encodeCursor {parts : List (List Char)} (hparts : parts ≠ [])
    (h : ∀ part ∈ parts, separator ∉ part) : decodeCursor (encodeCursor parts) = parts :=
  List.splitOn_intercalate separator h hparts

theorem length_decodeCursor {part rest : List Char} (h : separator ∈ rest) :
    2 < (decodeCursor (encodeCursor [part, rest])).length := by
  obtain ⟨u, v, rfl⟩ := List.append_of_mem h
  have htext : encodeCursor [part, u ++ separator :: v] = part ++
      separator :: (u ++ separator :: v) :=
    by simp [encodeCursor, List.intercalate]
  have hpieces (cs : List Char) : 0 < (cs.splitOn separator).length :=
    List.length_pos_iff.2 (List.splitOn_ne_nil separator cs)
  rw [htext, decodeCursor, List.splitOn_append_cons_of_beq _ _ (beq_self_eq_true _),
    List.splitOn_append_cons_of_beq _ _ (beq_self_eq_true _), List.length_append,
    List.length_append]
  have := hpieces part
  have := hpieces u
  have := hpieces v
  omega

def digits (bound : ℕ) : PlainText (Fin bound) where
  print n := Nat.toDigits 10 n
  parse cs :=
    if h : cs ≠ [] ∧ cs.all Char.isDigit ∧ Nat.ofDigitChars 10 cs 0 < bound then
      some ⟨Nat.ofDigitChars 10 cs 0, h.2.2⟩
    else none
  parse_print n := by
    have hvalue : Nat.ofDigitChars 10 (Nat.toDigits 10 n) 0 = n := Nat.ofDigitChars_ten_toDigits
    have hdigits : (Nat.toDigits 10 n).all Char.isDigit = true :=
      List.all_eq_true.2 fun c hc ↦ Nat.isDigit_of_mem_toDigits (by decide) (by decide) hc
    rw [dif_pos ⟨Nat.toDigits_ne_nil, hdigits, hvalue.trans_lt n.isLt⟩]
    exact congrArg some (Fin.ext hvalue)
  separator_notMem n h := by
    have := Nat.isDigit_of_mem_toDigits (by decide) (by decide) h
    exact absurd this (by decide)

end Birdtest.Routes
