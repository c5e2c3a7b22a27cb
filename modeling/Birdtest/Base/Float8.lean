import Mathlib.Algebra.Order.Floor.Ring
import Mathlib.Data.Rat.Floor
import Mathlib.Tactic.Linarith
import Mathlib.Tactic.Positivity
import Mathlib.Tactic.Ring

namespace Birdtest.Base.Float8

def roundHalfEven (x : ℚ) : ℤ :=
  if x - ⌊x⌋ < 1 / 2 ∨ (x - ⌊x⌋ = 1 / 2 ∧ ⌊x⌋ % 2 = 0) then ⌊x⌋ else ⌊x⌋ + 1

def exponent (x : ℚ) : ℤ :=
  let e : ℤ := (Nat.log2 x.num.natAbs : ℤ) - Nat.log2 x.den
  if |x| < (2 : ℚ) ^ e then e - 1 else e

/-- A double has 53 bits. Its range is not modelled: what is rounded here is zero, or of a
magnitude far inside it. -/
def float8 (x : ℚ) : ℚ :=
  if x = 0 then 0 else roundHalfEven (x / 2 ^ (exponent x - 52)) * 2 ^ (exponent x - 52)

theorem abs_roundHalfEven_sub_le (x : ℚ) : |(roundHalfEven x : ℚ) - x| ≤ 1 / 2 := by
  have hle := Int.floor_le x
  have hlt := Int.lt_floor_add_one x
  rw [roundHalfEven, abs_le]
  split
  · next h =>
    rcases h with h | ⟨h, -⟩
    · constructor <;> linarith
    · constructor <;> linarith
  · next h =>
    have hhalf : 1 / 2 ≤ x - ⌊x⌋ := not_lt.1 fun hlt ↦ h (.inl hlt)
    push_cast
    constructor <;> linarith

theorem exponent_le {x : ℚ} (hx : x ≠ 0) : (2 : ℚ) ^ exponent x ≤ |x| := by
  rw [exponent]
  split
  · have hnum : x.num.natAbs ≠ 0 := Int.natAbs_ne_zero.2 (Rat.num_ne_zero.2 hx)
    have hn : ((2 : ℚ)) ^ Nat.log2 x.num.natAbs ≤ x.num.natAbs := by
      exact_mod_cast Nat.log2_self_le hnum
    have hd : (x.den : ℚ) ≤ 2 ^ (Nat.log2 x.den + 1) := by
      exact_mod_cast Nat.lt_log2_self.le
    have hden : (0 : ℚ) < x.den := Nat.cast_pos.2 x.den_pos
    have habs : |x| = x.num.natAbs / x.den := by
      rw [Nat.cast_natAbs, Int.cast_abs, ← abs_of_pos hden, ← abs_div, Rat.num_div_den]
    rw [habs, le_div_iff₀ hden]
    calc (2 : ℚ) ^ ((Nat.log2 x.num.natAbs : ℤ) - Nat.log2 x.den - 1) * x.den
        ≤ 2 ^ ((Nat.log2 x.num.natAbs : ℤ) - Nat.log2 x.den - 1) * 2 ^ (Nat.log2 x.den + 1) :=
          mul_le_mul_of_nonneg_left hd (zpow_pos two_pos _).le
      _ = 2 ^ Nat.log2 x.num.natAbs := by
          rw [← zpow_natCast, ← zpow_natCast, ← zpow_add₀ (by norm_num)]
          congr 1
          push_cast
          omega
      _ ≤ x.num.natAbs := hn
  · next h => exact not_lt.1 h

theorem abs_float8_sub_le (x : ℚ) : |float8 x - x| ≤ |x| / 2 ^ 53 := by
  rw [float8]
  split
  · next h => simp [h]
  · next h =>
    have hunit : (0 : ℚ) < 2 ^ (exponent x - 52) := zpow_pos two_pos _
    have hround := abs_roundHalfEven_sub_le (x / 2 ^ (exponent x - 52))
    calc |(roundHalfEven (x / 2 ^ (exponent x - 52)) : ℚ) * 2 ^ (exponent x - 52) - x|
        = |(roundHalfEven (x / 2 ^ (exponent x - 52)) : ℚ) - x / 2 ^ (exponent x - 52)| *
            2 ^ (exponent x - 52) := by
          rw [← abs_of_pos hunit, ← abs_mul, abs_of_pos hunit, sub_mul, div_mul_cancel₀ _ hunit.ne']
      _ ≤ 1 / 2 * 2 ^ (exponent x - 52) := mul_le_mul_of_nonneg_right hround hunit.le
      _ = 2 ^ exponent x / 2 ^ 53 := by
          rw [zpow_sub₀ (by norm_num)]
          norm_num
          ring
      _ ≤ |x| / 2 ^ 53 := div_le_div_of_nonneg_right (exponent_le h) (by positivity)

def Near (δ x y : ℚ) : Prop := |y - x| ≤ δ * |x|

section Near

variable {δ ε x y z c : ℚ}

theorem near_float8 (x : ℚ) : Near (1 / 2 ^ 53) x (float8 x) :=
  (abs_float8_sub_le x).trans_eq (by ring)

theorem near_id (x : ℚ) : Near 0 x (id x) := by simp [Near]

theorem Near.trans (h : Near δ x y) (h' : Near ε y z) (hε : 0 ≤ ε) :
    Near (δ + ε * (1 + δ)) x z := by
  have hy : |y| ≤ (1 + δ) * |x| := by
    have htriangle := abs_add_le (y - x) x
    rw [sub_add_cancel] at htriangle
    rw [Near] at h
    linarith
  have htriangle := abs_add_le (z - y) (y - x)
  rw [sub_add_sub_cancel] at htriangle
  calc |z - x| ≤ |z - y| + |y - x| := htriangle
    _ ≤ ε * |y| + δ * |x| := add_le_add h' h
    _ ≤ ε * ((1 + δ) * |x|) + δ * |x| := add_le_add_left (mul_le_mul_of_nonneg_left hy hε) _
    _ = (δ + ε * (1 + δ)) * |x| := by ring

theorem Near.mul (h : Near δ x y) (c : ℚ) : Near δ (x * c) (y * c) := by
  rw [Near, ← sub_mul, abs_mul, abs_mul, ← mul_assoc]
  exact mul_le_mul_of_nonneg_right h (abs_nonneg c)

theorem Near.div (h : Near δ x y) (c : ℚ) : Near δ (x / c) (y / c) := by
  rw [div_eq_mul_inv, div_eq_mul_inv]
  exact h.mul _

theorem sub_mul_abs_le (h : x ≤ y) (h₁ : δ ≤ 1) (h₀ : 0 ≤ δ) : x - δ * |x| ≤ y - δ * |y| := by
  have hlip : |y| - |x| ≤ y - x :=
    (abs_sub_abs_le_abs_sub y x).trans_eq (abs_of_nonneg (by linarith))
  have hpos : 0 ≤ y - x := by linarith
  have hmul := mul_le_mul_of_nonneg_left hlip h₀
  have hle := mul_le_mul_of_nonneg_right h₁ hpos
  linarith

theorem add_mul_abs_le (h : x ≤ y) (h₁ : δ ≤ 1) (h₀ : 0 ≤ δ) : x + δ * |x| ≤ y + δ * |y| := by
  have hneg := sub_mul_abs_le (neg_le_neg h) h₁ h₀
  rw [abs_neg, abs_neg] at hneg
  linarith

/-- The least of some values that are each near is near the least of the exact ones. -/
theorem near_of_least {ι : Type} {s : Set ι} {exact near : ι → ℚ}
    (hnear : ∀ k ∈ s, Near δ (exact k) (near k)) (h₁ : δ ≤ 1) (h₀ : 0 ≤ δ)
    (hx : IsLeast (exact '' s) x) (hy : IsLeast (near '' s) y) : Near δ x y := by
  obtain ⟨⟨a, ha, rfl⟩, hleast⟩ := hx
  obtain ⟨⟨b, hb, rfl⟩, hleast'⟩ := hy
  have hba : near b ≤ near a := hleast' ⟨a, ha, rfl⟩
  have hab : exact a ≤ exact b := hleast ⟨b, hb, rfl⟩
  obtain ⟨-, hupper⟩ := abs_le.1 (hnear a ha)
  obtain ⟨hlower, -⟩ := abs_le.1 (hnear b hb)
  have hmono := sub_mul_abs_le hab h₁ h₀
  exact abs_le.2 ⟨by linarith, by linarith⟩

theorem near_of_greatest {ι : Type} {s : Set ι} {exact near : ι → ℚ}
    (hnear : ∀ k ∈ s, Near δ (exact k) (near k)) (h₁ : δ ≤ 1) (h₀ : 0 ≤ δ)
    (hx : IsGreatest (exact '' s) x) (hy : IsGreatest (near '' s) y) : Near δ x y := by
  obtain ⟨⟨a, ha, rfl⟩, hgreatest⟩ := hx
  obtain ⟨⟨b, hb, rfl⟩, hgreatest'⟩ := hy
  have hba : near a ≤ near b := hgreatest' ⟨a, ha, rfl⟩
  have hab : exact b ≤ exact a := hgreatest ⟨b, hb, rfl⟩
  obtain ⟨hlower, -⟩ := abs_le.1 (hnear a ha)
  obtain ⟨-, hupper⟩ := abs_le.1 (hnear b hb)
  have hmono := add_mul_abs_le hab h₁ h₀
  exact abs_le.2 ⟨by linarith, by linarith⟩

theorem floor_of_near {m : ℤ} {o : ℕ} (ho : 0 < o) (h : |y - m / o| < 1 / o) :
    (m : ℚ) / o - 1 ≤ ⌊y⌋ ∧ (⌊y⌋ : ℚ) ≤ m / o := by
  have hpos : (0 : ℚ) < o := Nat.cast_pos.2 ho
  obtain ⟨hlower, hupper⟩ := abs_lt.1 h
  have hfloor := Int.floor_le y
  have hfloor' := Int.lt_floor_add_one y
  have hcancel : (m : ℚ) / o * o = m := div_mul_cancel₀ _ hpos.ne'
  have hone : (1 : ℚ) / o * o = 1 := div_mul_cancel₀ _ hpos.ne'
  have hlt : (⌊y⌋ : ℚ) * o < m + 1 := by
    have hbelow : (⌊y⌋ : ℚ) < m / o + 1 / o := by linarith
    have hmul := mul_lt_mul_of_pos_right hbelow hpos
    rwa [add_mul, hcancel, hone] at hmul
  have hgt : (m : ℚ) - 1 - o < ⌊y⌋ * o := by
    have habove : (m : ℚ) / o - 1 / o - 1 < ⌊y⌋ := by linarith
    have hmul := mul_lt_mul_of_pos_right habove hpos
    rwa [sub_mul, sub_mul, hcancel, hone, one_mul] at hmul
  have hle : ⌊y⌋ * o ≤ m := by
    have hlt' : ⌊y⌋ * (o : ℤ) < m + 1 := by exact_mod_cast hlt
    omega
  have hge : m - o ≤ ⌊y⌋ * o := by
    have hgt' : m - 1 - (o : ℤ) < ⌊y⌋ * o := by exact_mod_cast hgt
    omega
  constructor
  · rw [sub_le_iff_le_add, div_le_iff₀ hpos, add_mul, one_mul]
    have hge' : (m : ℚ) - o ≤ ⌊y⌋ * o := by exact_mod_cast hge
    linarith
  · rw [le_div_iff₀ hpos]
    exact_mod_cast hle

end Near

end Birdtest.Base.Float8
