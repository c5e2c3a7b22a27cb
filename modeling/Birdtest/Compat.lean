import Birdtest.Base.Checked
import Birdtest.Jobs.Racks.Distribution

namespace Birdtest.Compat

open Birdtest.Base.Checked
open Birdtest.Jobs.Racks (Quoted Text)

inductive LdType
  | english | german | norwegian | catalan | polish | dutch | french | unknown
  deriving DecidableEq

/-- Of names in ASCII, as all that are stored. -/
def hasIprefix (pre name : Text) : Bool :=
  pre.length ≤ name.length ∧ (name.take pre.length).map Char.toLower = pre.map Char.toLower

/-- `rsplit('/').next()` -/
def baseName (name : Text) : Text := ((name.splitOn '/').getLast?).getD name

def typeOf (table : List (Text × LdType)) (name : Text) : LdType :=
  ((table.find? fun entry ↦ hasIprefix entry.1 (baseName name)).map Prod.snd).getD .unknown

def ldTypeFromLexicon : Text → LdType :=
  typeOf [("CSW".toList, .english), ("NWL".toList, .english), ("OSPD".toList, .english),
    ("OSW".toList, .english), ("TWL".toList, .english), ("America".toList, .english),
    ("CEL".toList, .english), ("RD".toList, .german), ("NSF".toList, .norwegian),
    ("DISC".toList, .catalan), ("FRA".toList, .french), ("OSPS".toList, .polish),
    ("DSW".toList, .dutch)]

def ldTypeFromDistribution : Text → LdType :=
  typeOf [("english".toList, .english), ("german".toList, .german),
    ("norwegian".toList, .norwegian), ("catalan".toList, .catalan), ("polish".toList, .polish),
    ("dutch".toList, .dutch), ("french".toList, .french)]

def typesCompat (a b : LdType) : Bool := a ≠ .unknown ∧ a = b

def lexLexCompat (a b : Text) : Bool := typesCompat (ldTypeFromLexicon a) (ldTypeFromLexicon b)

def lexLdCompat (lexicon ldName : Text) : Bool :=
  typesCompat (ldTypeFromLexicon lexicon) (ldTypeFromDistribution ldName)

structure PlayerFiles where
  label : String
  lexicon : Text
  leaves : Text

section Checks

variable (quoted : Quoted) (ldName : Text)

def validateLexiconAndLeaves (lexicon leaves : Text) : Except String Unit :=
  ensure (lexLexCompat lexicon leaves)
    s!"leaves {quoted leaves} are not compatible with lexicon {quoted lexicon}"

def validateFiles (player : PlayerFiles) : Except String Unit := do
  ensure (lexLexCompat player.lexicon player.leaves)
    (s!"{player.label}: leaves {quoted player.leaves} are not compatible with lexicon " ++
      quoted player.lexicon)
  ensure (lexLdCompat player.lexicon ldName)
    (s!"{player.label}: lexicon {quoted player.lexicon} is not compatible with letter " ++
      s!"distribution {quoted ldName}")

def validateTogether (first other : PlayerFiles) : Except String Unit := do
  ensure (lexLexCompat first.lexicon other.lexicon)
    (s!"{first.label} and {other.label} are on lexicons from different letter distributions: " ++
      s!"{quoted first.lexicon} and {quoted other.lexicon}")
  ensure (lexLexCompat first.leaves other.leaves)
    (s!"{first.label} and {other.label} are on leaves from different letter distributions: " ++
      s!"{quoted first.leaves} and {quoted other.leaves}")

def validateJobFiles (players : List PlayerFiles) : Except String Unit := do
  each (validateFiles quoted ldName) players
  match players with
  | [] => .ok ()
  | first :: rest => each (validateTogether quoted first) rest

end Checks

section Types

variable {quoted : Quoted} {ldName : Text} {a b : LdType} {t : LdType}
  {player first other : PlayerFiles} {players : List PlayerFiles}

theorem typesCompat_iff : typesCompat a b = true ↔ a ≠ .unknown ∧ a = b := by
  rw [typesCompat, decide_eq_true_eq]

structure OfType (t : LdType) (player : PlayerFiles) : Prop where
  known : t ≠ .unknown
  lexicon : ldTypeFromLexicon player.lexicon = t
  leaves : ldTypeFromLexicon player.leaves = t

theorem validateFiles_eq_ok : validateFiles quoted ldName player = .ok () ↔
    OfType (ldTypeFromDistribution ldName) player := by
  rw [validateFiles, ensure_bind_eq_ok, ensure_eq_ok, lexLexCompat, lexLdCompat, typesCompat_iff,
    typesCompat_iff]
  constructor
  · rintro ⟨⟨hknown, hleaves⟩, -, hlexicon⟩
    exact ⟨hlexicon ▸ hknown, hlexicon, hleaves ▸ hlexicon⟩
  · intro h
    exact ⟨⟨h.lexicon ▸ h.known, h.lexicon.trans h.leaves.symm⟩, h.lexicon ▸ h.known, h.lexicon⟩

theorem validateTogether_eq_ok (h : OfType t first) (h' : OfType t other) :
    validateTogether quoted first other = .ok () := by
  rw [validateTogether, ensure_bind_eq_ok, ensure_eq_ok, lexLexCompat, lexLexCompat,
    typesCompat_iff, typesCompat_iff, h.lexicon, h.leaves, h'.lexicon, h'.leaves]
  exact ⟨⟨h.known, rfl⟩, h.known, rfl⟩

/-- A job's files are accepted where its distribution's type is known and is that of every lexicon
and of all leaves. -/
theorem validateJobFiles_eq_ok : validateJobFiles quoted ldName players = .ok () ↔
    ∀ player ∈ players, OfType (ldTypeFromDistribution ldName) player := by
  have heach : each (validateFiles quoted ldName) players = .ok () ↔
      ∀ player ∈ players, OfType (ldTypeFromDistribution ldName) player := by
    simp only [each_eq_ok, validateFiles_eq_ok]
  rw [← heach]
  unfold validateJobFiles
  constructor
  · intro h
    obtain ⟨u, hu, -⟩ := bind_eq_ok h
    exact hu
  · intro h
    rw [h, ok_bind]
    rw [heach] at h
    cases players with
    | nil => rfl
    | cons first rest =>
      refine each_eq_ok.2 fun other hother ↦ ?_
      exact validateTogether_eq_ok (h first List.mem_cons_self)
        (h other (List.mem_cons_of_mem _ hother))

end Types

end Birdtest.Compat
