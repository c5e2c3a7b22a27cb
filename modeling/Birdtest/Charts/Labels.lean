import Birdtest.Base.Starts
import Birdtest.Base.Utf16
import Mathlib.Data.Set.Basic

namespace Birdtest.Charts

open Birdtest.Base Birdtest.Base.Starts

abbrev Text := List UInt16

def text (s : String) : Text := s.toList.flatMap fun c ↦ (Utf16.units c).map UInt16.ofNat

def dash : UInt16 := 0x2D

def ellipsis : UInt16 := 0x2026

def labelChars : ℕ := 16

/-- `Math.max(1, Math.floor((max - 1) * 0.4))`: what is kept of a name's start. -/
def head (max : ℕ) : ℕ :=
  -- as a double 0.4 is a little more, by too little for the floor of a product to be another
  1 ⊔ 2 * (max - 1) / 5

def fitLabel (name : Text) (max : ℕ) : Text :=
  if name.length ≤ max then name
  else name.take (head max) ++ ellipsis :: name.drop (name.length - (max - 1 - head max))

/-- `name.split('-')` -/
def segments (name : Text) : List Text := name.splitOn dash

def family (name : Text) : Text := (segments name).headD []

def kin (names : List Text) (name : Text) : List Text :=
  names.filter fun other ↦ other ≠ name ∧ family other = family name

/-- How many of the first segments of `name` all of `kin` have in their places, its last apart. -/
def sharedSegments (kin : List Text) (name : Text) : ℕ :=
  countFrom (fun shared ↦ kin.all fun other ↦ (segments other)[shared]? = (segments name)[shared]?)
    ((segments name).length - 1) 0

def trim (names : List Text) (max : ℕ) (name : Text) : Text :=
  if name.length ≤ max then name
  else if kin names name = [] then name
  else if sharedSegments (kin names name) name = 0 then name
  else [dash].intercalate ((segments name).drop (sharedSegments (kin names name) name))

def twins (labels : List Text) (label : Text) (i : ℕ) : List ℕ :=
  labels.zipIdx.flatMap fun (other, j) ↦ if j ≠ i ∧ other = label then [j] else []

def differ (trimmed : List Text) (twins : List ℕ) (own : Text) : ℕ :=
  countFrom (fun differ ↦ twins.all fun j ↦ (trimmed.getD j [])[differ]? = own[differ]?)
    own.length 0

/-- The label `i`, widened around the first character where it and its twins differ. -/
def widen (trimmed labels : List Text) (max : ℕ) (i : ℕ) (label : Text) : Text :=
  if twins labels label i = [] then label
  else
    let own := trimmed.getD i []
    -- a difference below 0 is 0, as `Math.max(0, …)` makes it
    let start := (differ trimmed (twins labels label i) own - 4) ⊓ (own.length - (max - 1))
    if 0 < start then ellipsis :: (own.drop start).take (max - 1) else own.take max

def fitLabels (names : List Text) (max : ℕ) : List Text :=
  let trimmed := names.map (trim names max)
  let labels := trimmed.map (fitLabel · max)
  labels.mapIdx (widen trimmed labels max)

section Trimmed

def Kin (names : List Text) (name other : Text) : Prop :=
  other ∈ names ∧ other ≠ name ∧ family other = family name

/-- What tells a name that is too long from the rest of its family: its segments from the first
that not all of them have in that place, or its last. -/
noncomputable def told (names : List Text) (max : ℕ) (name : Text) : Text :=
  open Classical in
  if max < name.length ∧ ∃ other, Kin names name other then
    [dash].intercalate ((segments name).drop
      (shared (segments '' {other | Kin names name other}) (segments name)
        ((segments name).length - 1)))
  else name

variable {names : List Text} {max : ℕ} {name : Text}

theorem mem_kin {other : Text} : other ∈ kin names name ↔ Kin names name other := by
  rw [kin, List.mem_filter, decide_eq_true_iff]
  rfl

theorem kin_eq_nil_iff : kin names name = [] ↔ ¬∃ other, Kin names name other := by
  simp only [List.eq_nil_iff_forall_not_mem, mem_kin, not_exists]

theorem sharedSegments_eq : sharedSegments (kin names name) name =
    shared (segments '' {other | Kin names name other}) (segments name)
      ((segments name).length - 1) := by
  refine countFrom_eq_shared fun k ↦ ?_
  simp only [List.all_eq_true, mem_kin, decide_eq_true_iff, Set.forall_mem_image, Set.mem_ofPred_eq]

theorem trim_eq_told : trim names max name = told names max name := by
  by_cases htold : max < name.length ∧ ∃ other, Kin names name other
  · have hkin : kin names name ≠ [] := fun hnil ↦ kin_eq_nil_iff.1 hnil htold.2
    rw [told, if_pos htold, trim, if_neg (not_le.2 htold.1), if_neg hkin, ← sharedSegments_eq]
    split
    · next hzero =>
      rw [hzero, List.drop_zero]
      exact (List.intercalate_splitOn dash).symm
    · rfl
  · rw [told, if_neg htold, trim]
    split
    · rfl
    · next hlong =>
      exact if_pos (kin_eq_nil_iff.2 fun hkin ↦ htold ⟨not_le.1 hlong, hkin⟩)

end Trimmed

end Birdtest.Charts
