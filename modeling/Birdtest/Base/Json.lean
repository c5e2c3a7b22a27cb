import Birdtest.Base.Utf16

namespace Birdtest.Base.Json

open Birdtest.Base.Utf16

abbrev Text : Type := List Char

/-- What a JSON text states: a string as its code units, an object as its members in their order,
a number as it is written. -/
inductive Value
  | null
  | bool (b : Bool)
  | number (t : Text)
  | string (s : List ℕ)
  | array (vs : List Value)
  | object (ms : List (List ℕ × Value))

inductive Value.Holds (s : List ℕ) : Value → Prop
  | string : Holds s (.string s)
  | item {vs : List Value} {v : Value} : v ∈ vs → Holds s v → Holds s (.array vs)
  | key {ms : List (List ℕ × Value)} {m : List ℕ × Value} : m ∈ ms → m.1 = s → Holds s (.object ms)
  | member {ms : List (List ℕ × Value)} {m : List ℕ × Value} :
      m ∈ ms → Holds s m.2 → Holds s (.object ms)

section Grammar

/-- Whitespace: a relation, as those after it, of a text and what is left of it past what is
read. -/
inductive Ws : Text → Text → Prop
  | nil {t : Text} : Ws t t
  | cons {c : Char} {t rest : Text} : c ∈ [' ', '\t', '\n', '\r'] → Ws t rest → Ws (c :: t) rest

inductive Digits : Text → Text → Prop
  | nil {t : Text} : Digits t t
  | cons {c : Char} {t rest : Text} : c.isDigit → Digits t rest → Digits (c :: t) rest

inductive Integer : Text → Text → Prop
  | zero {t : Text} : Integer ('0' :: t) t
  | nonzero {c : Char} {t rest : Text} : c.isDigit → c ≠ '0' → Digits t rest → Integer (c :: t) rest

inductive Fraction : Text → Text → Prop
  | none {t : Text} : Fraction t t
  | some {c : Char} {t rest : Text} : c.isDigit → Digits t rest → Fraction ('.' :: c :: t) rest

inductive Exponent : Text → Text → Prop
  | none {t : Text} : Exponent t t
  | unsigned {e c : Char} {t rest : Text} :
      e ∈ ['e', 'E'] → c.isDigit → Digits t rest → Exponent (e :: c :: t) rest
  | signed {e sign c : Char} {t rest : Text} : e ∈ ['e', 'E'] → sign ∈ ['+', '-'] → c.isDigit →
      Digits t rest → Exponent (e :: sign :: c :: t) rest

inductive Number : Text → Text → Prop
  | unsigned {t t₁ t₂ rest : Text} :
      Integer t t₁ → Fraction t₁ t₂ → Exponent t₂ rest → Number t rest
  | negative {t t₁ t₂ rest : Text} :
      Integer t t₁ → Fraction t₁ t₂ → Exponent t₂ rest → Number ('-' :: t) rest

def escapes : List (Char × ℕ) :=
  [('"', 0x22), ('\\', 0x5C), ('/', 0x2F), ('b', 8), ('f', 0xC), ('n', 0xA), ('r', 0xD), ('t', 9)]

def hexValue (c : Char) : Option ℕ :=
  if '0' ≤ c ∧ c ≤ '9' then some (c.toNat - 48)
  else if 'a' ≤ c ∧ c ≤ 'f' then some (c.toNat - 87)
  else if 'A' ≤ c ∧ c ≤ 'F' then some (c.toNat - 55)
  else none

inductive Piece : List ℕ → Text → Text → Prop
  | plain {c : Char} {t : Text} : 0x20 ≤ c.toNat → c ≠ '"' → c ≠ '\\' → Piece (units c) (c :: t) t
  | escape {c : Char} {n : ℕ} {t : Text} : (c, n) ∈ escapes → Piece [n] ('\\' :: c :: t) t
  | hex {a b c d : Char} {i j k l : ℕ} {t : Text} : hexValue a = some i → hexValue b = some j →
      hexValue c = some k → hexValue d = some l →
      Piece [((i * 16 + j) * 16 + k) * 16 + l] ('\\' :: 'u' :: a :: b :: c :: d :: t) t

inductive Body : List ℕ → Text → Text → Prop
  | close {t : Text} : Body [] ('"' :: t) t
  | piece {us s : List ℕ} {t t₁ rest : Text} :
      Piece us t t₁ → Body s t₁ rest → Body (us ++ s) t rest

inductive Part
  | value (v : Value)
  | element (v : Value)
  | elements (vs : List Value)
  | members (ms : List (List ℕ × Value))

/-- The grammar of a JSON text. -/
inductive Spells : Part → Text → Text → Prop
  | null {t : Text} : Spells (.value .null) ('n' :: 'u' :: 'l' :: 'l' :: t) t
  | true {t : Text} : Spells (.value (.bool Bool.true)) ('t' :: 'r' :: 'u' :: 'e' :: t) t
  | false {t : Text} :
      Spells (.value (.bool Bool.false)) ('f' :: 'a' :: 'l' :: 's' :: 'e' :: t) t
  | number {t rest : Text} : Number (t ++ rest) rest → Spells (.value (.number t)) (t ++ rest) rest
  | string {s : List ℕ} {t rest : Text} :
      Body s t rest → Spells (.value (.string s)) ('"' :: t) rest
  | emptyArray {t rest : Text} :
      Ws t (']' :: rest) → Spells (.value (.array [])) ('[' :: t) rest
  | array {vs : List Value} {t rest : Text} :
      Spells (.elements vs) t (']' :: rest) → Spells (.value (.array vs)) ('[' :: t) rest
  | emptyObject {t rest : Text} :
      Ws t ('}' :: rest) → Spells (.value (.object [])) ('{' :: t) rest
  | object {ms : List (List ℕ × Value)} {t rest : Text} :
      Spells (.members ms) t ('}' :: rest) → Spells (.value (.object ms)) ('{' :: t) rest
  | element {v : Value} {t t₁ t₂ rest : Text} :
      Ws t t₁ → Spells (.value v) t₁ t₂ → Ws t₂ rest → Spells (.element v) t rest
  | last {v : Value} {t rest : Text} :
      Spells (.element v) t rest → Spells (.elements [v]) t rest
  | cons {v : Value} {vs : List Value} {t t₁ rest : Text} :
      Spells (.element v) t (',' :: t₁) → Spells (.elements vs) t₁ rest →
      Spells (.elements (v :: vs)) t rest
  | lastMember {k : List ℕ} {v : Value} {t t₁ t₂ t₃ rest : Text} :
      Ws t ('"' :: t₁) → Body k t₁ t₂ → Ws t₂ (':' :: t₃) → Spells (.element v) t₃ rest →
      Spells (.members [(k, v)]) t rest
  | consMember {k : List ℕ} {v : Value} {ms : List (List ℕ × Value)} {t t₁ t₂ t₃ t₄ rest : Text} :
      Ws t ('"' :: t₁) → Body k t₁ t₂ → Ws t₂ (':' :: t₃) → Spells (.element v) t₃ (',' :: t₄) →
      Spells (.members ms) t₄ rest → Spells (.members ((k, v) :: ms)) t rest

def IsJson (t : Text) (v : Value) : Prop := Spells (.element v) t []

end Grammar

def Part.Holds (s : List ℕ) : Part → Prop
  | .value v | .element v => v.Holds s
  | .elements vs => ∃ v ∈ vs, v.Holds s
  | .members ms => ∃ m ∈ ms, m.1 = s ∨ m.2.Holds s

/-- A property of texts that reads them as a scan would for units below the space, which only an
escape can stand for: nothing but escapes bears on it. -/
structure Scans (f : Text → Prop) (q : ℕ → Prop) : Prop where
  control : ∀ n, q n → n < 0x20
  other : ∀ c t, c ≠ '\\' → (f (c :: t) ↔ f t)
  escape : ∀ c n t, (c, n) ∈ escapes → (f ('\\' :: c :: t) ↔ q n ∨ f t)
  hex : ∀ a b c d i j k l t, hexValue a = some i → hexValue b = some j → hexValue c = some k →
    hexValue d = some l → (f ('\\' :: 'u' :: a :: b :: c :: d :: t) ↔
      q (((i * 16 + j) * 16 + k) * 16 + l) ∨ f t)

section Scanning

variable {f : Text → Prop} {q : ℕ → Prop} {t rest : Text}

theorem Scans.word (hf : Scans f q) (w : Text) (hw : '\\' ∉ w) : f (w ++ t) ↔ f t := by
  induction w with
  | nil => exact Iff.rfl
  | cons c w ih =>
    rw [List.mem_cons, not_or] at hw
    exact (hf.other c (w ++ t) (Ne.symm hw.1)).trans (ih hw.2)

theorem ne_of_isDigit {c : Char} (h : c.isDigit) : c ≠ '\\' := by
  rintro rfl
  simp at h

theorem Ws.scan (hf : Scans f q) (h : Ws t rest) : f t ↔ f rest := by
  induction h with
  | nil => exact Iff.rfl
  | cons hc _ ih => exact (hf.other _ _ (by rintro rfl; simp at hc)).trans ih

theorem Digits.scan (hf : Scans f q) (h : Digits t rest) : f t ↔ f rest := by
  induction h with
  | nil => exact Iff.rfl
  | cons hc _ ih => exact (hf.other _ _ (ne_of_isDigit hc)).trans ih

theorem Integer.scan (hf : Scans f q) (h : Integer t rest) : f t ↔ f rest := by
  cases h with
  | zero => exact hf.other _ _ (by decide)
  | nonzero hc _ h => exact (hf.other _ _ (ne_of_isDigit hc)).trans (h.scan hf)

theorem Fraction.scan (hf : Scans f q) (h : Fraction t rest) : f t ↔ f rest := by
  cases h with
  | none => exact Iff.rfl
  | some hc h =>
    rw [hf.other _ _ (by decide), hf.other _ _ (ne_of_isDigit hc)]
    exact h.scan hf

theorem Exponent.scan (hf : Scans f q) (h : Exponent t rest) : f t ↔ f rest := by
  cases h with
  | none => exact Iff.rfl
  | unsigned he hc h =>
    rw [hf.other _ _ (by rintro rfl; simp at he), hf.other _ _ (ne_of_isDigit hc)]
    exact h.scan hf
  | signed he hsign hc h =>
    rw [hf.other _ _ (by rintro rfl; simp at he), hf.other _ _ (by rintro rfl; simp at hsign),
      hf.other _ _ (ne_of_isDigit hc)]
    exact h.scan hf

theorem Number.scan (hf : Scans f q) (h : Number t rest) : f t ↔ f rest := by
  cases h with
  | unsigned hi hfraction he => rw [hi.scan hf, hfraction.scan hf, he.scan hf]
  | negative hi hfraction he =>
    rw [hf.other _ _ (by decide), hi.scan hf, hfraction.scan hf, he.scan hf]

theorem le_of_mem_units {c : Char} (h : 0x20 ≤ c.toNat) {n : ℕ} (hn : n ∈ units c) : 0x20 ≤ n := by
  unfold units at hn
  split at hn
  · rw [List.mem_singleton.1 hn]
    exact h
  · simp only [List.mem_cons, List.not_mem_nil, or_false] at hn
    omega

theorem Piece.scan (hf : Scans f q) {us : List ℕ} (h : Piece us t rest) :
    f t ↔ (∃ u ∈ us, q u) ∨ f rest := by
  cases h with
  | plain hspace _ hc =>
    rw [hf.other _ _ hc]
    refine ⟨.inr, fun h ↦ h.resolve_left ?_⟩
    rintro ⟨u, hu, hq⟩
    exact absurd (hf.control u hq) (Nat.not_lt.2 (le_of_mem_units hspace hu))
  | escape hc => simpa using hf.escape _ _ _ hc
  | hex ha hb hc hd => simpa using hf.hex _ _ _ _ _ _ _ _ _ ha hb hc hd

theorem Body.scan (hf : Scans f q) {s : List ℕ} (h : Body s t rest) :
    f t ↔ (∃ u ∈ s, q u) ∨ f rest := by
  induction h with
  | close => simpa using hf.other _ _ (by decide)
  | piece hpiece _ ih =>
    rw [hpiece.scan hf, ih, ← or_assoc, ← exists_or]
    simp only [List.mem_append, or_and_right]

def Part.Has (q : ℕ → Prop) (part : Part) : Prop := ∃ s, part.Holds s ∧ ∃ u ∈ s, q u

theorem not_has_null : ¬(Part.value .null).Has q := by rintro ⟨s, ⟨⟩, -⟩
theorem not_has_bool {b : Bool} : ¬(Part.value (.bool b)).Has q := by rintro ⟨s, ⟨⟩, -⟩
theorem not_has_number : ¬(Part.value (.number t)).Has q := by rintro ⟨s, ⟨⟩, -⟩

theorem has_string {s : List ℕ} : (Part.value (.string s)).Has q ↔ ∃ u ∈ s, q u := by
  refine ⟨fun ⟨s', hs, h⟩ ↦ ?_, fun h ↦ ⟨s, .string, h⟩⟩
  cases hs
  exact h

theorem has_array {vs : List Value} : (Part.value (.array vs)).Has q ↔
    (Part.elements vs).Has q := by
  refine exists_congr fun s ↦ and_congr_left' ⟨fun h ↦ ?_, fun ⟨_, hv, h⟩ ↦ .item hv h⟩
  cases h with
  | item hv h => exact ⟨_, hv, h⟩

theorem has_object {ms : List (List ℕ × Value)} :
    (Part.value (.object ms)).Has q ↔ (Part.members ms).Has q := by
  refine exists_congr fun s ↦ and_congr_left'
    ⟨fun h ↦ ?_, fun ⟨m, hm, h⟩ ↦ h.elim (.key hm) (.member hm)⟩
  cases h with
  | key hm h => exact ⟨_, hm, .inl h⟩
  | member hm h => exact ⟨_, hm, .inr h⟩

theorem has_elements_cons {v : Value} {vs : List Value} :
    (Part.elements (v :: vs)).Has q ↔ (Part.element v).Has q ∨ (Part.elements vs).Has q := by
  simp only [Part.Has, Part.Holds, List.exists_mem_cons_iff, or_and_right, exists_or]

theorem has_members_cons {k : List ℕ} {v : Value} {ms : List (List ℕ × Value)} :
    (Part.members ((k, v) :: ms)).Has q ↔
      (∃ u ∈ k, q u) ∨ (Part.element v).Has q ∨ (Part.members ms).Has q := by
  simp only [Part.Has, Part.Holds, List.exists_mem_cons_iff, or_and_right, exists_or, or_assoc,
    exists_eq_left']

theorem not_has_nil : ¬(Part.elements []).Has q ∧ ¬(Part.members []).Has q := by
  simp [Part.Has, Part.Holds]

theorem Spells.scan (hf : Scans f q) {part : Part} (h : Spells part t rest) :
    f t ↔ part.Has q ∨ f rest := by
  induction h with
  | null =>
    exact (hf.word ['n', 'u', 'l', 'l'] (by decide)).trans (or_iff_right not_has_null).symm
  | true =>
    exact (hf.word ['t', 'r', 'u', 'e'] (by decide)).trans (or_iff_right not_has_bool).symm
  | false =>
    exact (hf.word ['f', 'a', 'l', 's', 'e'] (by decide)).trans (or_iff_right not_has_bool).symm
  | number h => rw [h.scan hf, or_iff_right not_has_number]
  | string h => rw [hf.other _ _ (by decide), h.scan hf, has_string]
  | emptyArray h =>
    rw [hf.other _ _ (by decide), h.scan hf, hf.other _ _ (by decide), has_array,
      or_iff_right not_has_nil.1]
  | array _ ih => rw [hf.other _ _ (by decide), ih, hf.other _ _ (by decide), has_array]
  | emptyObject h =>
    rw [hf.other _ _ (by decide), h.scan hf, hf.other _ _ (by decide), has_object,
      or_iff_right not_has_nil.2]
  | object _ ih => rw [hf.other _ _ (by decide), ih, hf.other _ _ (by decide), has_object]
  | element hws _ hws' ih =>
    rw [hws.scan hf, ih, hws'.scan hf]
    rfl
  | last _ ih => rw [ih, has_elements_cons, or_iff_left not_has_nil.1]
  | cons _ _ ih ih' => rw [ih, hf.other _ _ (by decide), ih', has_elements_cons, or_assoc]
  | lastMember hws hk hws' _ ih =>
    rw [hws.scan hf, hf.other _ _ (by decide), hk.scan hf, hws'.scan hf, hf.other _ _ (by decide),
      ih, has_members_cons, or_iff_left not_has_nil.2, or_assoc]
  | consMember hws hk hws' _ _ ih ih' =>
    rw [hws.scan hf, hf.other _ _ (by decide), hk.scan hf, hws'.scan hf, hf.other _ _ (by decide),
      ih, hf.other _ _ (by decide), ih', has_members_cons, or_assoc, or_assoc]

end Scanning

end Birdtest.Base.Json
