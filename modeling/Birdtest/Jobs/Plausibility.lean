import Birdtest.Base.Json

namespace Birdtest.Jobs.Plausibility

open Birdtest.Base.Json Birdtest.Base.Utf16

def escaped : Text := ['u', '0', '0', '0', '0']

def find (pattern : Text) : Text → Option ℕ
  | [] => if pattern = [] then some 0 else none
  | c :: t => if pattern.isPrefixOf (c :: t) then some 0 else (find pattern t).map (· + 1)

def backslashes (before : Text) : ℕ := (before.reverse.takeWhile (· = '\\')).length

inductive Refused
  | nul
  deriving DecidableEq

def Refused.message : Refused → String
  | .nul => "a string in the result holds a NUL character, which cannot be stored"

section Finding

variable {pattern t : Text} {i : ℕ}

theorem find_eq_none (h : find pattern t = none) (i : ℕ) (hi : i < t.length) :
    ¬pattern <+: t.drop i := by
  induction t generalizing i with
  | nil => simp at hi
  | cons c t ih =>
    rw [find] at h
    split at h
    · cases h
    · next hne =>
      cases i with
      | zero => simpa using hne
      | succ i => exact ih (Option.map_eq_none_iff.1 h) i (by simpa using hi)

theorem find_eq_some (h : find pattern t = some i) :
    pattern <+: t.drop i ∧ ∀ j < i, ¬pattern <+: t.drop j := by
  induction t generalizing i with
  | nil =>
    rw [find] at h
    split at h
    · next hnil =>
      cases h
      simp [hnil]
    · cases h
  | cons c t ih =>
    rw [find] at h
    split at h
    · next hstart =>
      cases h
      exact ⟨by simpa using hstart, by simp⟩
    · next hne =>
      obtain ⟨i, hi, rfl⟩ := Option.map_eq_some_iff.1 h
      obtain ⟨hstart, hfirst⟩ := ih hi
      refine ⟨hstart, fun j hj ↦ ?_⟩
      cases j with
      | zero => simpa using hne
      | succ j => exact hfirst j (by omega)

end Finding

def refuseNulFrom (json : Text) (start : ℕ) : Except Refused Unit :=
  match h : find escaped (json.drop start) with
  | none => .ok ()
  | some i =>
    if backslashes (json.take (start + i)) % 2 = 1 then .error .nul
    else refuseNulFrom json (start + i + 5)
termination_by json.length - start
decreasing_by
  have hlen := (find_eq_some h).1.length_le
  simp only [escaped, List.length_cons, List.length_nil, List.length_drop] at hlen
  omega

def refuseNul (json : Text) : Except Refused Unit := refuseNulFrom json 0

def Hit : Bool → Text → Prop
  | _, [] => False
  | odd, c :: t => (odd = true ∧ escaped <+: c :: t) ∨ Hit (c = '\\' && !odd) t

def EscapedAt (json : Text) (i : ℕ) : Prop :=
  escaped <+: json.drop i ∧ backslashes (json.take i) % 2 = 1

section Scanning

variable {json before t : Text} {start i : ℕ}

theorem backslashes_concat (before : Text) (c : Char) :
    backslashes (before ++ [c]) = if c = '\\' then backslashes before + 1 else 0 := by
  simp only [backslashes, List.reverse_append, List.reverse_singleton, List.singleton_append,
    List.takeWhile_cons]
  split <;> simp_all

theorem of_escaped (h : escaped <+: t) :
    t[0]? = some 'u' ∧ ∀ k, 1 ≤ k → k < 5 → t[k]? = some '0' := by
  obtain ⟨s, rfl⟩ := h
  refine ⟨rfl, fun k hk hk' ↦ ?_⟩
  obtain rfl | rfl | rfl | rfl : k = 1 ∨ k = 2 ∨ k = 3 ∨ k = 4 := by omega
  all_goals rfl

theorem not_escaped_of_lt {j : ℕ} (hi : escaped <+: t.drop i) (hlt : i < j) (hj : j < i + 5) :
    ¬escaped <+: t.drop j := by
  intro h
  have hu := (of_escaped h).1
  have hzero := (of_escaped hi).2 (j - i) (by omega) (by omega)
  rw [List.getElem?_drop, Nat.add_zero] at hu
  rw [List.getElem?_drop, Nat.add_sub_cancel' hlt.le, hu] at hzero
  cases hzero

theorem refuseNulFrom_eq_error :
    refuseNulFrom json start = .error .nul ↔ ∃ i, start ≤ i ∧ EscapedAt json i := by
  induction start using refuseNulFrom.induct json with
  | case1 start hfind =>
    rw [refuseNulFrom]
    split
    · refine ⟨nofun, fun ⟨i, hi, hat, _⟩ ↦ ?_⟩
      have hlen := hat.length_le
      simp only [escaped, List.length_cons, List.length_nil, List.length_drop] at hlen
      have hnone := find_eq_none hfind (i - start) (by simp only [List.length_drop]; omega)
      rw [List.drop_drop, Nat.add_sub_cancel' hi] at hnone
      exact absurd hat hnone
    · next hsome => simp [hfind] at hsome
  | case2 start i hfind hodd =>
    rw [refuseNulFrom]
    split
    · next hnone => simp [hfind] at hnone
    · next i' hsome =>
      obtain rfl : i = i' := Option.some_inj.1 (hfind.symm.trans hsome)
      rw [if_pos hodd]
      have hat := (find_eq_some hfind).1
      rw [List.drop_drop] at hat
      exact ⟨fun _ ↦ ⟨start + i, by omega, hat, hodd⟩, fun _ ↦ rfl⟩
  | case3 start i hfind heven ih =>
    rw [refuseNulFrom]
    split
    · next hnone => simp [hfind] at hnone
    · next i' hsome =>
      obtain rfl : i = i' := Option.some_inj.1 (hfind.symm.trans hsome)
      rw [if_neg heven, ih]
      obtain ⟨hat, hfirst⟩ := find_eq_some hfind
      rw [List.drop_drop] at hat
      refine ⟨fun ⟨k, hk, h⟩ ↦ ⟨k, by omega, h⟩, fun ⟨k, hk, h⟩ ↦ ⟨k, ?_, h⟩⟩
      -- the position is not before the first occurrence, not at it and not within it
      by_contra! hlt
      obtain hbefore | rfl | hwithin : k < start + i ∨ k = start + i ∨ start + i < k := by omega
      · have hnot := hfirst (k - start) (by omega)
        rw [List.drop_drop, Nat.add_sub_cancel' hk] at hnot
        exact hnot h.1
      · exact heven h.2
      · exact not_escaped_of_lt hat hwithin hlt h.1

theorem hit_iff (before t : Text) : Hit (decide (backslashes before % 2 = 1)) t ↔
    ∃ i, escaped <+: t.drop i ∧ backslashes (before ++ t.take i) % 2 = 1 := by
  induction t generalizing before with
  | nil => simp [Hit, escaped]
  | cons c t ih =>
    have hodd : (decide (c = '\\') && !decide (backslashes before % 2 = 1)) =
        decide (backslashes (before ++ [c]) % 2 = 1) := by
      rw [backslashes_concat, Bool.eq_iff_iff]
      split
      · next hc =>
        simp only [hc, decide_true, Bool.true_and, Bool.not_eq_true', decide_eq_false_iff_not,
          decide_eq_true_eq]
        omega
      · next hc => simp [hc]
    rw [Hit, hodd, ih]
    refine ⟨?_, fun ⟨i, hat, hi⟩ ↦ ?_⟩
    · rintro (⟨hat, h⟩ | ⟨i, h, hi⟩)
      · exact ⟨0, by simpa using h, by simpa using hat⟩
      · exact ⟨i + 1, by simpa using h, by simpa using hi⟩
    · cases i with
      | zero => exact .inl ⟨by simpa using hi, by simpa using hat⟩
      | succ i => exact .inr ⟨i, by simpa using hat, by simpa using hi⟩

theorem refuseNul_eq_error : refuseNul json = .error .nul ↔ Hit false json := by
  have hhit := hit_iff [] json
  rw [refuseNul, refuseNulFrom_eq_error]
  simpa [EscapedAt, backslashes] using hhit.symm

theorem hexValue_ne {c : Char} {n : ℕ} (h : hexValue c = some n) : c ≠ '\\' := by
  rintro rfl
  simp [hexValue] at h

theorem hexValue_eq_zero {c : Char} {n : ℕ} (h : hexValue c = some n) : n = 0 ↔ c = '0' := by
  have hzero : c = '0' ↔ c.toNat = 48 := Char.toNat_inj.symm
  have hbounds : '0'.toNat = 48 ∧ 'a'.toNat = 97 ∧ 'A'.toNat = 65 := ⟨rfl, rfl, rfl⟩
  rw [hzero]
  simp only [hexValue, le_iff_toNat_le, hbounds] at h
  split at h
  · cases h
    omega
  split at h
  · cases h
    omega
  split at h
  · cases h
    omega
  · cases h

theorem of_mem_escapes {c : Char} {n : ℕ} (h : (c, n) ∈ escapes) : n ≠ 0 ∧ c ≠ 'u' := by
  have hall : ∀ p ∈ escapes, p.2 ≠ 0 ∧ p.1 ≠ 'u' := by decide
  exact hall (c, n) h

theorem scans_hit : Scans (Hit false) (· = 0) where
  control n hn := by omega
  other c t hc := by simp [Hit, hc]
  escape c n t hc := by
    obtain ⟨hn, hu⟩ := of_mem_escapes hc
    simp [Hit, escaped, hn, hu.symm]
  hex a b c d i j k l t ha hb hc hd := by
    have hzero : ((i * 16 + j) * 16 + k) * 16 + l = 0 ↔ i = 0 ∧ j = 0 ∧ k = 0 ∧ l = 0 := by omega
    rw [hzero, hexValue_eq_zero ha, hexValue_eq_zero hb, hexValue_eq_zero hc, hexValue_eq_zero hd]
    simp [Hit, escaped, hexValue_ne ha, hexValue_ne hb, hexValue_ne hc, hexValue_ne hd, eq_comm]

/-- A JSON text is refused exactly where a string or a key of what it states holds a NUL. -/
theorem refuseNul_exact {v : Value} (h : IsJson json v) :
    refuseNul json = .error .nul ↔ ∃ s, v.Holds s ∧ 0 ∈ s := by
  rw [refuseNul_eq_error, Spells.scan scans_hit h, or_iff_left (by simp [Hit])]
  simp [Part.Has, Part.Holds]

def nulJson : Text :=
  ['{', '"', 'a', '"', ':', '[', '"', 'x', '\\', '\\', '\\', 'u', '0', '0', '0', '0', '"', ']', '}']

theorem body_plain {c : Char} {n : ℕ} {s : List ℕ} {rest : Text} (hn : units c = [n])
    (hc : 0x20 ≤ c.toNat ∧ c ≠ '"' ∧ c ≠ '\\') (h : Body s t rest) :
    Body (n :: s) (c :: t) rest := by
  have hpiece : Piece [n] (c :: t) t := hn ▸ .plain hc.1 hc.2.1 hc.2.2
  exact .piece hpiece h

theorem isJson_nulJson : IsJson nulJson (.object [([0x61], .array [.string [0x78, 0x5C, 0]])]) := by
  have hzero : hexValue '0' = some 0 := by decide
  have hkey (rest : Text) : Body [0x61] ('a' :: '"' :: rest) rest :=
    body_plain (by decide) (by decide) .close
  have hnul (t : Text) : Piece [0] ('\\' :: 'u' :: '0' :: '0' :: '0' :: '0' :: t) t :=
    .hex hzero hzero hzero hzero
  have hescape (t : Text) : Piece [0x5C] ('\\' :: '\\' :: t) t := .escape (by decide)
  have hstring (rest : Text) : Body [0x78, 0x5C, 0] ('x' :: '\\' :: '\\' :: '\\' :: 'u' :: '0' ::
      '0' :: '0' :: '0' :: '"' :: rest) rest :=
    body_plain (by decide) (by decide) (.piece (hescape _) (.piece (hnul _) .close))
  have harray := Spells.array (.last (.element .nil (.string (hstring [']', '}'])) .nil))
  have hobject := Spells.object (.lastMember .nil (hkey _) .nil (.element .nil harray .nil))
  exact .element .nil hobject .nil

theorem refuseNul_nulJson : refuseNul nulJson = .error .nul :=
  (refuseNul_exact isJson_nulJson).2
    ⟨[0x78, 0x5C, 0], .member List.mem_cons_self (.item List.mem_cons_self .string), by decide⟩

end Scanning

end Birdtest.Jobs.Plausibility
