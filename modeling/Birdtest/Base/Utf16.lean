import Mathlib.Data.Char
import Mathlib.Data.List.Lex
import Mathlib.Data.List.Pairwise
import Mathlib.Data.List.Sort

namespace Birdtest.Base.Utf16

variable {c d : Char}

def units (c : Char) : List ℕ :=
  if c.toNat < 0x10000 then [c.toNat]
  else [0xD800 + (c.toNat - 0x10000) / 0x400, 0xDC00 + (c.toNat - 0x10000) % 0x400]

def Before (c d : Char) : Prop := units c ≤ units d

instance : DecidableRel Before := fun c d ↦ inferInstanceAs (Decidable (units c ≤ units d))

def Astral (c : Char) : Prop := 0x10000 ≤ c.toNat

def PastSurrogates (c : Char) : Prop := 0xE000 ≤ c.toNat ∧ c.toNat < 0x10000

instance : DecidablePred Astral := fun _ ↦ inferInstanceAs (Decidable (_ ≤ _))
instance : DecidablePred PastSurrogates := fun _ ↦ inferInstanceAs (Decidable (_ ∧ _))

theorem toNat_lt (c : Char) : c.toNat < 0x110000 := by
  have := c.valid
  simp only [UInt32.isValidChar, Nat.isValidChar] at this
  have h : c.toNat = c.val.toNat := rfl
  omega

theorem lt_or_le_of_char (c : Char) : c.toNat < 0xD800 ∨ 0xE000 ≤ c.toNat := by
  have := c.valid
  simp only [UInt32.isValidChar, Nat.isValidChar] at this
  have h : c.toNat = c.val.toNat := rfl
  omega

theorem le_iff_toNat_le : c ≤ d ↔ c.toNat ≤ d.toNat := Iff.rfl

theorem before_iff : Before c d ↔
    c.toNat ≤ d.toNat ∧ ¬(PastSurrogates c ∧ Astral d) ∨ Astral c ∧ PastSurrogates d := by
  have hc := lt_or_le_of_char c
  have hd := lt_or_le_of_char d
  have hc' := toNat_lt c
  have hd' := toNat_lt d
  unfold Before units Astral PastSurrogates
  rw [← not_lt]
  split <;> split <;> simp only [List.cons_lt_cons_iff, List.not_lt_nil, List.nil_lt_cons,
    and_false, or_false, and_true] <;> omega

theorem units_injective : Function.Injective units := by
  intro c d h
  refine Char.toNat_inj.1 ?_
  have hc := lt_or_le_of_char c
  have hd := lt_or_le_of_char d
  unfold units at h
  split at h <;> split at h <;>
    simp only [List.cons.injEq, and_true, reduceCtorEq, and_false] at h <;>
    omega

instance : IsTrans Char Before := ⟨fun _ _ _ ↦ le_trans⟩
instance : Std.Total Before := ⟨fun _ _ ↦ le_total _ _⟩
instance : Std.Antisymm Before := ⟨fun _ _ h h' ↦ units_injective (le_antisymm h h')⟩

/-- Where a text does not have characters of both kinds, the two orders are one on it. -/
theorem before_iff_le {t : List Char} (h : ¬((∃ a ∈ t, Astral a) ∧ ∃ b ∈ t, PastSurrogates b))
    (hc : c ∈ t) (hd : d ∈ t) : Before c d ↔ c ≤ d := by
  have h₁ : ¬(PastSurrogates c ∧ Astral d) := fun ⟨h₁, h₂⟩ ↦ h ⟨⟨d, hd, h₂⟩, c, hc, h₁⟩
  have h₂ : ¬(Astral c ∧ PastSurrogates d) := fun ⟨h₁, h₂⟩ ↦ h ⟨⟨c, hc, h₁⟩, d, hd, h₂⟩
  rw [before_iff, le_iff_toNat_le]
  tauto

theorem not_astral_and_pastSurrogates {t : List Char} (hle : t.Pairwise (· ≤ ·))
    (hbefore : t.Pairwise Before) : ¬((∃ a ∈ t, Astral a) ∧ ∃ b ∈ t, PastSurrogates b) := by
  rintro ⟨⟨a, ha, hastral⟩, b, hb, hpast⟩
  have hlt : b.toNat < a.toNat := lt_of_lt_of_le hpast.2 hastral
  have hne : a ≠ b := by
    rintro rfl
    exact lt_irrefl _ hlt
  have hsymm : Std.Symm fun c d ↦ (c ≤ d ∧ Before c d) ∨ (d ≤ c ∧ Before d c) :=
    ⟨fun _ _ ↦ Or.symm⟩
  have hpairwise : t.Pairwise fun c d ↦ (c ≤ d ∧ Before c d) ∨ (d ≤ c ∧ Before d c) :=
    (hle.and hbefore).imp .inl
  obtain ⟨h, -⟩ | ⟨-, h⟩ := hpairwise.forall ha hb hne
  · exact absurd (le_iff_toNat_le.1 h) (Nat.not_le.2 hlt)
  · obtain ⟨-, h⟩ | ⟨h, -⟩ := before_iff.1 h
    · exact h ⟨hpast, hastral⟩
    · exact absurd h (Nat.not_le.2 hpast.2)

end Birdtest.Base.Utf16
