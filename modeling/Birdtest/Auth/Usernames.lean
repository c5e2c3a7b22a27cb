import Birdtest.Jobs.Racks.Distribution

namespace Birdtest.Auth

open Birdtest.Jobs.Racks (Text byteLength isWhitespace)

def inRanges (ranges : List (ℕ × ℕ)) (c : Char) : Bool :=
  ranges.any fun range ↦ decide (range.1 ≤ c.toNat ∧ c.toNat ≤ range.2)

def isHiddenOrBreaking : Char → Bool :=
  inRanges [(0x00, 0x1F), (0x7F, 0x9F), (0x00AD, 0x00AD), (0x0600, 0x0605), (0x061C, 0x061C),
    (0x06DD, 0x06DD), (0x070F, 0x070F), (0x0890, 0x0891), (0x08E2, 0x08E2), (0x180E, 0x180E),
    (0x200B, 0x200B), (0x200E, 0x200F), (0x2028, 0x202E), (0x2060, 0x2064), (0x2065, 0x206F),
    (0xFEFF, 0xFEFF), (0xFFF0, 0xFFFB), (0x110BD, 0x110BD), (0x110CD, 0x110CD), (0x13430, 0x1343F),
    (0x1BCA0, 0x1BCA3), (0x1D173, 0x1D17A), (0xE0000, 0xE00FF), (0xE01F0, 0xE0FFF),
    (0x034F, 0x034F),
    (0x115F, 0x1160), (0x17B4, 0x17B5), (0x180B, 0x180D), (0x180F, 0x180F), (0x3164, 0x3164),
    (0xFFA0, 0xFFA0), (0x2800, 0x2800)]

def virama (c : Char) : Bool :=
  [0x094D, 0x09CD, 0x0A4D, 0x0ACD, 0x0B4D, 0x0BCD, 0x0C4D, 0x0CCD, 0x0D4D, 0x0DCA].contains c.toNat

def writesWithJoiners (c : Char) : Bool :=
  inRanges [(0x0600, 0x06FF), (0x0750, 0x077F), (0x08A0, 0x08FF), (0xFB50, 0xFDFF),
    (0xFE70, 0xFEFF), (0x0700, 0x074F), (0x07C0, 0x07FF), (0x1800, 0x18AF), (0x0900, 0x0DFF),
    (0x0F00, 0x0FFF),
    (0x1000, 0x109F), (0x1780, 0x17FF), (0xA840, 0xA8FF), (0x11000, 0x111FF)] c &&
    !isHiddenOrBreaking c

def pictographic : Char → Bool :=
  inRanges [(0x00A9, 0x00A9), (0x00AE, 0x00AE), (0x203C, 0x203C), (0x2049, 0x2049),
    (0x2122, 0x2122), (0x2139, 0x2139), (0x2190, 0x21FF), (0x2300, 0x23FF), (0x2460, 0x27BF),
    (0x2900, 0x297F),
    (0x2B00, 0x2BFF), (0x3030, 0x3030), (0x303D, 0x303D), (0x3297, 0x3297), (0x3299, 0x3299),
    (0x1F000, 0x1FAFF)]

def ideographic : Char → Bool :=
  inRanges [(0x3400, 0x4DBF), (0x4E00, 0x9FFF), (0xF900, 0xFAFF), (0x20000, 0x3134F)]

def isJoiner : Char → Bool := inRanges [(0x200C, 0x200D)]

def isSelector : Char → Bool := inRanges [(0xFE00, 0xFE0F)]

def isIdeographicSelector : Char → Bool := inRanges [(0xE0100, 0xE01EF)]

def isMisplaced (name : Text) (i : ℕ) (c : Char) : Bool :=
  let before := if 0 < i then name[i - 1]? else none
  -- an emoji's presentation selector stands between it and a joiner
  let base := if before.any (·.toNat = 0xFE0F) ∧ 1 < i then name[i - 2]? else before
  let after := name[i + 1]?
  if isJoiner c then
    !(before.any writesWithJoiners && after.any writesWithJoiners ||
      before.any virama && after.all isWhitespace || base.any pictographic &&
      after.any pictographic)
  else if isSelector c then
    let keycap := before.any (fun b ↦ b.isDigit || b == '#' || b == '*') &&
      after.any (·.toNat = 0x20E3)
    !(before.any pictographic || before.any ideographic || keycap)
  else isIdeographicSelector c && !before.any ideographic

def misplacedJoiner (name : Text) : Bool := name.zipIdx.any fun c ↦ isMisplaced name c.2 c.1

/-- `INVISIBLE_MARKS`. -/
def isMark (c : Char) : Bool := isJoiner c || isSelector c || isIdeographicSelector c

def withoutMarks (t : Text) : Text := t.filter (!isMark ·)

def isLabel (l : Text) : Bool :=
  decide (1 ≤ byteLength l ∧ byteLength l ≤ 63) && l.head? != some '-' && l.getLast? != some '-' &&
    l.all fun c ↦ c.isAlphanum || c == '-'

def isBareAddress (email : Text) : Bool :=
  let beforeAt := email.takeWhile (· != '@')
  let labels := (email.drop (beforeAt.length + 1)).splitOn '.'
  let atext (c : Char) := c.isAlphanum || "!#$%&'*+-/=?^_`\x7b|\x7d~".toList.contains c
  email.contains '@' && decide (byteLength email ≤ 254) && decide (byteLength beforeAt ≤ 64) &&
    ((beforeAt.splitOn '.').all fun part ↦ part != [] && part.all atext) &&
    decide (2 ≤ labels.length) && labels.all isLabel &&
    -- `1.2.3.4` is an address of a host, not its name
    !(labels.getLastD []).all Char.isDigit

/-- What a registration that is not turned away is for: the name as trimmed, the address also in
lower case, and what the password is hashed to. -/
structure Registration where
  username : Text
  email : Text
  passwordHash : Text
  counted : 3 ≤ username.length ∧ username.length ≤ 32
  visible : username.any isHiddenOrBreaking = false
  placed : misplacedJoiner username = false
  bare : isBareAddress email = true
  deriving DecidableEq

/-- A joiner between two Arabic letters is where the script puts it, and no name of its own. -/
example : misplacedJoiner ['ب', '\u200D', 'ب', 'ب', 'ب'] = false ∧
    withoutMarks ['ب', '\u200D', 'ب', 'ب', 'ب'] = ['ب', 'ب', 'ب', 'ب'] := by
  decide

end Birdtest.Auth
