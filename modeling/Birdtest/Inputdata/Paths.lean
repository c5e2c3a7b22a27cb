import Mathlib.Data.List.Basic
import Mathlib.Data.List.Infix

namespace Birdtest.Inputdata

inductive InputRole
  | kwg | klv | letterdist | layout | winpct
  deriving DecidableEq

def keepsContent (role : InputRole) : Bool := role = .letterdist ∨ role = .layout

def storesObject (role : InputRole) : Bool := role = .kwg ∨ role = .klv

section Classify

def stripPrefix (pre text : List Char) : Option (List Char) :=
  if pre.isPrefixOf text then some (text.drop pre.length) else none

def stripSuffix (suf text : List Char) : Option (List Char) :=
  if suf.isSuffixOf text then some (text.take (text.length - suf.length)) else none

def splitOnce (c : Char) (text : List Char) : Option (List Char × List Char) :=
  match text.dropWhile (· ≠ c) with
  | [] => none
  | _ :: rest => some (text.takeWhile (· ≠ c), rest)

def InputRole.directory : InputRole → List Char
  | .kwg | .klv => "lexica".toList
  | .letterdist => "letterdistributions".toList
  | .layout => "layouts".toList
  | .winpct => "strategy".toList

def InputRole.suffix : InputRole → List Char
  | .kwg => ".kwg".toList
  | .klv => ".klv2".toList
  | .letterdist | .winpct => ".csv".toList
  | .layout => ".txt".toList

def nameByte (c : Char) : Bool := c.isAlphanum ∨ c = '_' ∨ c = '-'

def roleOf (dir basename : List Char) : Option InputRole :=
  [InputRole.kwg, .klv, .letterdist, .layout, .winpct].find? fun role ↦
    dir = role.directory ∧ role.suffix.isSuffixOf basename

def classify (entryPath : List Char) : Option (List Char × InputRole × List Char) := do
  let rest ← stripPrefix "data/".toList entryPath
  let (dir, basename) ← splitOnce '/' rest
  if basename = [] ∨ '/' ∈ basename then none
  else
    let role ← roleOf dir basename
    let name ← stripSuffix role.suffix basename
    if name = [] ∨ ¬ name.all nameByte then none
    else some (dir ++ '/' :: basename, role, name)

end Classify

/-- A path as GNU tar extracts it: `./` and empty segments dropped. -/
def normalise (path : List Char) : List Char :=
  ['/'].intercalate ((path.splitOn '/').filter fun part ↦ part ≠ [] ∧ part ≠ ['.'])

def follow (parts : List (List Char)) (part : List Char) : Option (List (List Char)) :=
  if part = [] ∨ part = ['.'] then some parts
  else if part = ['.', '.'] then (if parts = [] then none else some parts.dropLast)
  else some (parts ++ [part])

def resolveLink (linkPath target : List Char) : Option (List Char) :=
  if target = [] ∨ target.head? = some '/' then none
  else ((target.splitOn '/').foldlM follow (linkPath.splitOn '/').dropLast).bind fun parts ↦
    let resolved := ['/'].intercalate parts
    if "data/".toList.isPrefixOf resolved then some resolved else none

section Names

variable {entryPath path name : List Char} {role : InputRole}

theorem classify_eq_some (h : classify entryPath = some (path, role, name)) :
    path = role.directory ++ '/' :: (name ++ role.suffix) ∧ name ≠ [] ∧
    name.all nameByte = true := by
  simp only [classify, Option.bind_eq_bind, Option.bind_eq_some_iff] at h
  obtain ⟨rest, -, ⟨dir, basename⟩, -, h⟩ := h
  obtain ⟨-, h⟩ := Option.ite_none_left_eq_some.1 h
  simp only [Option.bind_eq_some_iff] at h
  obtain ⟨role', hrole, name', hname, h⟩ := h
  obtain ⟨hplain, h⟩ := Option.ite_none_left_eq_some.1 h
  simp only [Option.some.injEq, Prod.mk.injEq] at h
  obtain ⟨rfl, rfl, rfl⟩ := h
  rw [roleOf] at hrole
  have hfound := List.find?_some hrole
  obtain ⟨hdir, -⟩ := of_decide_eq_true hfound
  obtain ⟨hsuffix, hname⟩ := Option.ite_none_right_eq_some.1 hname
  cases hname
  obtain ⟨base, rfl⟩ := List.isSuffixOf_iff_suffix.1 hsuffix
  rw [not_or, not_not] at hplain
  refine ⟨?_, hplain⟩
  rw [hdir, List.length_append, Nat.add_sub_cancel, List.take_left]

theorem splitOnce_eq_some {c : Char} {text pre rest : List Char}
    (h : splitOnce c text = some (pre, rest)) :
    text = pre ++ c :: rest := by
  rw [splitOnce] at h
  split at h
  · cases h
  next d rest' hdrop =>
  cases h
  have hd : d = c := by
    have hhead := List.head?_dropWhile_not (· ≠ c) text
    rw [hdrop] at hhead
    simpa using hhead
  subst hd
  rw [← hdrop, List.takeWhile_append_dropWhile]

/-- A pinned path comes from one entry path. -/
theorem eq_of_classify (h : classify entryPath = some (path, role, name)) :
    entryPath = "data/".toList ++ path := by
  simp only [classify, Option.bind_eq_bind, Option.bind_eq_some_iff] at h
  obtain ⟨rest, hrest, ⟨dir, basename⟩, hsplit, h⟩ := h
  obtain ⟨-, h⟩ := Option.ite_none_left_eq_some.1 h
  simp only [Option.bind_eq_some_iff] at h
  obtain ⟨role', -, name', -, h⟩ := h
  obtain ⟨-, h⟩ := Option.ite_none_left_eq_some.1 h
  simp only [Option.some.injEq, Prod.mk.injEq] at h
  obtain ⟨rfl, rfl, rfl⟩ := h
  obtain ⟨hstart, hrest⟩ := Option.ite_none_right_eq_some.1 hrest
  cases hrest
  rw [← splitOnce_eq_some hsplit]
  exact (List.prefix_iff_eq_append.1 (List.isPrefixOf_iff_prefix.1 hstart)).symm

theorem role_of_classify {entryPath' name' : List Char} {role' : InputRole}
    (h : classify entryPath = some (path, role, name))
    (h' : classify entryPath' = some (path, role', name')) : role' = role := by
  rw [eq_of_classify h', ← eq_of_classify h, h] at h'
  simp only [Option.some.injEq, Prod.mk.injEq] at h'
  exact h'.2.1.symm

end Names

end Birdtest.Inputdata
