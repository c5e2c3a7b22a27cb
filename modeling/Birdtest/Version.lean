import Birdtest.Jobs.Racks.Distribution
import Mathlib.Data.List.TakeWhile

namespace Birdtest

open Birdtest.Jobs.Racks

structure Version where
  major : ℤ
  minor : ℤ
  patch : ℤ
  deriving DecidableEq

namespace Version

def trim (t : Text) : Text := trimMatches isWhitespace t

def zero : Version := ⟨0, 0, 0⟩

def parseStrict (text : Text) : Option Version :=
  let parts := (trim text).splitOn '.'
  if ¬(2 ≤ parts.length ∧ parts.length ≤ 3) ∨ parts.any fun p ↦ p = [] ∨
    ¬p.all Char.isDigit then none
  else do
    let major ← parts[0]?.bind parseI32
    let minor ← parts[1]?.bind parseI32
    let patch ← (parts[2]?.map parseI32).getD (some 0)
    some ⟨major, minor, patch⟩

def core (text : Text) : Text := (trim text).takeWhile fun c ↦ c ≠ '-' ∧ c ≠ '+'

def parseOrZero (text : Text) : Version :=
  let parts := (core text).splitOn '.'
  let next (i : ℕ) : Option ℤ := parts[i]?.bind fun p ↦ parseI32 (trim p)
  match next 0, next 1 with
  | some major, some minor => ⟨major, minor, (next 2).getD 0⟩
  | _, _ => zero

variable {t : Text} {c : Char} {p : Char → Bool} {n : ℤ}

theorem of_mem_dropWhile (h : c ∈ t.dropWhile p) : c ∈ t := (List.dropWhile_suffix p).subset h

theorem of_mem_trimMatches (h : c ∈ trimMatches p t) : c ∈ t := by
  rw [trimMatches, List.mem_reverse] at h
  exact of_mem_dropWhile (List.mem_reverse.1 (of_mem_dropWhile h))

theorem dropWhile_eq_self (h : ∀ c ∈ t, p c = false) : t.dropWhile p = t := by
  cases t with
  | nil => rfl
  | cons c t => exact List.dropWhile_cons_of_neg (by simp [h c List.mem_cons_self])

theorem trim_eq_self (h : ∀ c ∈ t, isWhitespace c = false) : trim t = t := by
  rw [trim, trimMatches, dropWhile_eq_self h, dropWhile_eq_self, List.reverse_reverse]
  intro c hc
  exact h c (List.mem_reverse.1 hc)

theorem exists_mem_splitOn {separator : Char} :
    (∃ part ∈ t.splitOn separator, c ∈ part) ↔ c ∈ t ∧ c ≠ separator := by
  induction t with
  | nil => simp
  | cons d t ih =>
    rw [List.splitOn_cons_eq_if_modifyHead, List.mem_cons]
    by_cases hd : d = separator
    · subst hd
      rw [if_pos (beq_self_eq_true d)]
      simp only [List.mem_cons, exists_eq_or_imp, List.not_mem_nil, false_or, ih]
      exact ⟨fun h ↦ ⟨.inr h.1, h.2⟩, fun h ↦ ⟨h.1.resolve_left h.2, h.2⟩⟩
    · rw [if_neg (by simpa using hd)]
      obtain ⟨head, tail, hparts⟩ := List.exists_cons_of_ne_nil (List.splitOn_ne_nil separator t)
      rw [hparts] at ih ⊢
      simp only [List.modifyHead_cons, List.mem_cons, exists_eq_or_imp] at ih ⊢
      rw [or_assoc, ih]
      constructor
      · rintro (rfl | h)
        · exact ⟨.inl rfl, hd⟩
        · exact ⟨.inr h.1, h.2⟩
      · rintro ⟨rfl | h, hc⟩
        · exact .inl rfl
        · exact .inr ⟨h, hc⟩

theorem isWhitespace_of_isDigit (h : c.isDigit = true) : isWhitespace c = false := by
  have hn : 48 ≤ c.toNat ∧ c.toNat ≤ 57 := by
    simpa [Char.isDigit, UInt32.le_iff_toNat_le] using h
  simp only [isWhitespace, Bool.or_eq_false_iff, Bool.and_eq_false_iff, decide_eq_false_iff_not]
  omega

section Strict

theorem of_parseStrict {v : Version} (h : parseStrict t = some v) :
    (∀ c ∈ trim t, c = '.' ∨ c.isDigit = true) ∧
      ((trim t).splitOn '.')[0]?.bind parseI32 = some v.major ∧
      ((trim t).splitOn '.')[1]?.bind parseI32 = some v.minor ∧
      (((trim t).splitOn '.')[2]?.bind parseI32).getD 0 = v.patch := by
  rw [parseStrict] at h
  obtain ⟨hparts, h⟩ := Option.ite_none_left_eq_some.1 h
  simp only [Option.bind_eq_bind, Option.bind_eq_some_iff, Option.some.injEq] at h
  obtain ⟨major, hmajor, minor, hminor, patch, hpatch, rfl⟩ := h
  rw [not_or, Bool.not_eq_true, List.any_eq_false] at hparts
  refine ⟨fun c hc ↦ ?_, Option.bind_eq_some_iff.2 hmajor, Option.bind_eq_some_iff.2 hminor, ?_⟩
  · by_cases hdot : c = '.'
    · exact .inl hdot
    · obtain ⟨part, hpart, hmem⟩ := exists_mem_splitOn.2 ⟨hc, hdot⟩
      have hall := hparts.2 part hpart
      simp only [not_or, not_not, decide_eq_true_eq, List.all_eq_true] at hall
      exact .inr (hall.2 c hmem)
  · cases hget : ((trim t).splitOn '.')[2]? with
    | none =>
      rw [hget] at hpatch
      exact Option.some.inj hpatch
    | some part =>
      rw [hget, Option.map_some, Option.getD_some] at hpatch
      rw [Option.bind_some, hpatch, Option.getD_some]

/-- A version that the strict reading takes, the loose one reads alike. -/
theorem parseOrZero_of_parseStrict {v : Version} (h : parseStrict t = some v) :
    parseOrZero t = v := by
  obtain ⟨hchars, hmajor, hminor, hpatch⟩ := of_parseStrict h
  have hcore : core t = trim t := by
    refine List.takeWhile_eq_self_iff.2 fun c hc ↦ ?_
    rcases hchars c hc with rfl | hdigit
    · decide
    · have hne (d : Char) (hd : d.isDigit = false) : c ≠ d := by
        rintro rfl
        rw [hdigit] at hd
        cases hd
      exact decide_eq_true ⟨hne '-' (by decide), hne '+' (by decide)⟩
  have htrim : ∀ part ∈ (trim t).splitOn '.', trim part = part := by
    intro part hpart
    refine trim_eq_self fun c hc ↦ ?_
    obtain ⟨hmem, hdot⟩ := exists_mem_splitOn.1 ⟨part, hpart, hc⟩
    exact isWhitespace_of_isDigit ((hchars c hmem).resolve_left hdot)
  have hnext (i : ℕ) : (((trim t).splitOn '.')[i]?.bind fun p ↦ parseI32 (trim p)) =
      ((trim t).splitOn '.')[i]?.bind parseI32 := by
    cases hget : ((trim t).splitOn '.')[i]? with
    | none => rfl
    | some part => rw [Option.bind_some, Option.bind_some, htrim part (List.mem_of_getElem? hget)]
  rw [parseOrZero, hcore]
  simp only [hnext, hmajor, hminor, hpatch]

end Strict

section Loose

theorem parseI32_nonneg (hminus : '-' ∉ t) (h : parseI32 t = some n) : 0 ≤ n := by
  unfold parseI32 at h
  split at h
  · exact absurd List.mem_cons_self hminus
  · simp only [Option.map_eq_some_iff, Option.bind_eq_bind, Option.bind_eq_some_iff, pure,
      Option.some.injEq] at h
    obtain ⟨_, ⟨k, -, rfl⟩, rfl⟩ := h
    exact Int.natCast_nonneg k
  · simp only [Option.map_eq_some_iff, Option.bind_eq_bind, Option.bind_eq_some_iff, pure,
      Option.some.injEq] at h
    obtain ⟨_, ⟨k, -, rfl⟩, rfl⟩ := h
    exact Int.natCast_nonneg k

theorem parseOrZero_nonneg (t : Text) :
    0 ≤ (parseOrZero t).major ∧ 0 ≤ (parseOrZero t).minor ∧ 0 ≤ (parseOrZero t).patch := by
  have hnext (i : ℕ) (n : ℤ)
      (h : ((core t).splitOn '.')[i]?.bind (fun p ↦ parseI32 (trim p)) = some n) :
      0 ≤ n := by
    obtain ⟨part, hget, hpart⟩ := Option.bind_eq_some_iff.1 h
    refine parseI32_nonneg (fun hminus ↦ ?_) hpart
    have hmem :=
      (exists_mem_splitOn.1 ⟨part, List.mem_of_getElem? hget, of_mem_trimMatches hminus⟩).1
    have hcore := List.mem_takeWhile_imp hmem
    simp at hcore
  rw [parseOrZero]
  dsimp only
  split
  · next major minor hmajor hminor =>
    refine ⟨hnext 0 major hmajor, hnext 1 minor hminor, ?_⟩
    cases hpatch : ((core t).splitOn '.')[2]?.bind (fun p ↦ parseI32 (trim p)) with
    | none => exact Int.le_refl 0
    | some patch => exact hnext 2 patch hpatch
  · exact ⟨Int.le_refl 0, Int.le_refl 0, Int.le_refl 0⟩

end Loose

end Version

end Birdtest
