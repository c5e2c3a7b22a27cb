import Birdtest.Jobs.Racks.Distribution

namespace Birdtest.Cgp

open Birdtest.Jobs.Racks (Text trimMatches)

def isSpace (c : Char) : Bool :=
  let n := c.toNat
  (9 ≤ n && n ≤ 13) || n = 0x20 || n = 0xA0 || n = 0x1680 || (0x2000 ≤ n && n ≤ 0x200A) ||
    n = 0x2028 || n = 0x2029 || n = 0x202F || n = 0x205F || n = 0x3000 || n = 0xFEFF

def trim (text : Text) : Text := trimMatches isSpace text

/-- `trim().split(/\s+/)`, but that a text of spaces has no field where it has one empty one. -/
def fields (text : Text) : List Text := (text.splitOnP isSpace).filter (· ≠ [])

section Fields

variable {c : Char} {w rest text : Text}

theorem fields_cons (hw : w ≠ []) (hspace : ∀ c ∈ w, isSpace c = false) (hc : isSpace c = true) :
    fields (w ++ c :: rest) = w :: fields rest := by
  rw [fields, List.splitOnP_append_cons_of_forall_mem hspace c hc,
    List.filter_cons_of_pos (by simpa using hw), fields]

theorem fields_single (hw : w ≠ []) (hspace : ∀ c ∈ w, isSpace c = false) : fields w = [w] := by
  rw [fields, List.splitOnP_eq_singleton hspace, List.filter_cons_of_pos (by simpa using hw),
    List.filter_nil]

theorem splitOn_pair {a b : Text} (ha : '/' ∉ a) (hb : '/' ∉ b) :
    (a ++ '/' :: b).splitOn '/' = [a, b] := by
  rw [List.splitOn_append_cons_self, List.splitOn_eq_singleton ha, List.splitOn_eq_singleton hb]
  rfl

theorem trim_eq_self (hhead : ∀ c ∈ text.head?, isSpace c = false)
    (hlast : ∀ c ∈ text.getLast?, isSpace c = false) : trim text = text := by
  have hdrop : ∀ t : Text, (∀ c ∈ t.head?, isSpace c = false) → t.dropWhile isSpace = t := by
    intro t h
    cases t with
    | nil => rfl
    | cons c t => exact List.dropWhile_cons_of_neg (by simpa using h c)
  rw [trim, trimMatches, hdrop text hhead, hdrop _ (by simpa using hlast), List.reverse_reverse]

end Fields

/-- `/^\d+$/` -/
def isNatural (t : Text) : Bool := t ≠ [] ∧ t.all Char.isDigit

def natural (t : Text) : ℕ := Nat.ofDigitChars 10 t 0

def integer : Text → Option ℤ
  | '-' :: t => if isNatural t then some (-natural t) else none
  | t => if isNatural t then some (natural t) else none

def decimal : ℤ → Text
  | .ofNat n => Nat.toDigits 10 n
  | .negSucc n => '-' :: Nat.toDigits 10 (n + 1)

section Numbers

variable {c : Char} {n : ℕ}

theorem isDigit_of_mem (h : c ∈ Nat.toDigits 10 n) : c.isDigit :=
  Nat.isDigit_of_mem_toDigits (by decide) (by decide) h

@[simp] theorem isNatural_toDigits (n : ℕ) : isNatural (Nat.toDigits 10 n) = true := by
  simp only [isNatural, decide_eq_true_eq, List.all_eq_true]
  exact ⟨Nat.toDigits_ne_nil, fun c hc ↦ isDigit_of_mem hc⟩

@[simp] theorem natural_toDigits (n : ℕ) : natural (Nat.toDigits 10 n) = n :=
  Nat.ofDigitChars_ten_toDigits

theorem integer_decimal (z : ℤ) : integer (decimal z) = some z := by
  cases z with
  | ofNat n =>
    unfold integer decimal
    split
    · next t heq =>
      have hdash : '-' ∈ Nat.toDigits 10 n := by simp [heq]
      exact absurd (isDigit_of_mem hdash) (by decide)
    · simp
  | negSucc n =>
    simp only [decimal, integer, isNatural_toDigits, natural_toDigits, if_true]
    rfl

theorem isSpace_of_isDigit (h : c.isDigit) : isSpace c = false := by
  have hbounds : 48 ≤ c.toNat ∧ c.toNat ≤ 57 := by
    simpa [Char.isDigit, UInt32.le_iff_toNat_le] using h
  rw [Bool.eq_false_iff]
  simp only [isSpace, ne_eq, Bool.or_eq_true, Bool.and_eq_true, decide_eq_true_eq]
  omega

theorem of_mem_decimal {z : ℤ} (h : c ∈ decimal z) : c ≠ '/' ∧ isSpace c = false := by
  have hchar : c.isDigit ∨ c = '-' := by
    cases z with
    | ofNat n => exact .inl (isDigit_of_mem h)
    | negSucc n => exact (List.mem_cons.1 h).symm.imp_left isDigit_of_mem
  obtain hdigit | rfl := hchar
  · exact ⟨by rintro rfl; exact absurd hdigit (by decide), isSpace_of_isDigit hdigit⟩
  · decide

theorem decimal_ne_nil (z : ℤ) : decimal z ≠ [] := by
  cases z with
  | ofNat n => exact Nat.toDigits_ne_nil
  | negSucc n => exact List.cons_ne_nil _ _

end Numbers

def splitLetters : Text → Option (List Text)
  | [] => some []
  | c :: rest =>
    if c = '[' then
      let inner := rest.takeWhile (· ≠ ']')
      if ']' ∉ rest ∨ inner = [] ∨ '[' ∈ inner then none
      else (splitLetters (rest.drop (inner.length + 1))).map (inner :: ·)
    else if c = ']' then none
    else (splitLetters rest).map ([c] :: ·)
termination_by t => t.length

def letterText (letter : Text) : Text :=
  if 1 < letter.length then '[' :: (letter ++ [']']) else letter

structure IsLetter (letter : Text) : Prop where
  ne_nil : letter ≠ []
  plain : ∀ c ∈ letter, c.isDigit = false ∧ c ≠ '/' ∧ isSpace c = false ∧ c ≠ '[' ∧ c ≠ ']'

instance : DecidablePred IsLetter := fun letter ↦
  decidable_of_iff (letter ≠ [] ∧ letter.all fun c ↦ c.isDigit = false ∧ c ≠ '/' ∧
      isSpace c = false ∧ c ≠ '[' ∧ c ≠ ']')
    ⟨fun h ↦ ⟨h.1, by simpa using h.2⟩, fun h ↦ ⟨h.ne_nil, by simpa using h.plain⟩⟩

section Letters

variable {c : Char} {letter rest : Text} {letters : List Text}

theorem single_or_several (h : IsLetter letter) :
    (∃ c, letter = [c] ∧ letterText letter = [c]) ∨
      letterText letter = '[' :: (letter ++ [']']) := by
  have hpos := List.length_pos_iff.2 h.ne_nil
  obtain hone | hmore := Nat.eq_or_lt_of_le hpos
  · obtain ⟨c, rfl⟩ := List.length_eq_one_iff.1 hone.symm
    exact .inl ⟨c, rfl, rfl⟩
  · exact .inr (if_pos hmore)

theorem letterText_ne_nil (h : IsLetter letter) : letterText letter ≠ [] := by
  obtain ⟨c, -, heq⟩ | heq := single_or_several h <;> simp [heq]

theorem of_mem_letterText (h : IsLetter letter) (hc : c ∈ letterText letter) :
    c.isDigit = false ∧ c ≠ '/' ∧ isSpace c = false := by
  obtain hc | rfl | rfl : c ∈ letter ∨ c = '[' ∨ c = ']' := by
    unfold letterText at hc
    split at hc
    · have : c = '[' ∨ c ∈ letter ∨ c = ']' := by simpa [or_assoc] using hc
      tauto
    · exact .inl hc
  · obtain ⟨hdigit, hslash, hspace, -⟩ := h.plain c hc
    exact ⟨hdigit, hslash, hspace⟩
  · decide
  · decide

theorem takeWhile_letter (h : IsLetter letter) (rest : Text) :
    (letter ++ ']' :: rest).takeWhile (· ≠ ']') = letter := by
  rw [List.takeWhile_append_of_pos fun c hc ↦ by simpa using (h.plain c hc).2.2.2.2]
  simp

theorem splitLetters_letterText (h : IsLetter letter) (rest : Text) :
    splitLetters (letterText letter ++ rest) = (splitLetters rest).map (letter :: ·) := by
  obtain ⟨c, rfl, heq⟩ | heq := single_or_several h
  · obtain ⟨-, -, -, hopen, hclose⟩ := h.plain c (by simp)
    rw [heq, List.singleton_append, splitLetters, if_neg hopen, if_neg hclose]
  · have hinner := takeWhile_letter h rest
    have hnest : '[' ∉ letter := fun hmem ↦ (h.plain _ hmem).2.2.2.1 rfl
    rw [heq, List.cons_append, List.append_assoc, List.singleton_append, splitLetters, if_pos rfl]
    simp only [hinner]
    rw [if_neg (by simp [h.ne_nil, hnest]), List.drop_append, List.drop_eq_nil_of_le (by simp)]
    simp

theorem splitLetters_flatMap (h : ∀ letter ∈ letters, IsLetter letter) :
    splitLetters (letters.flatMap letterText) = some letters := by
  induction letters with
  | nil => rw [List.flatMap_nil, splitLetters]
  | cons letter letters ih =>
    rw [List.flatMap_cons, splitLetters_letterText (h letter (by simp)),
      ih fun letter hletter ↦ h letter (by simp [hletter]), Option.map_some]

end Letters

end Birdtest.Cgp
