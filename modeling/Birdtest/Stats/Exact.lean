import Birdtest.Stats.MatchTest
import Mathlib.Analysis.Real.Sqrt
import Mathlib.Analysis.SpecialFunctions.Log.Basic

namespace Birdtest.Stats

/-- Real arithmetic in place of that of doubles. What has no finite real value is `none`. -/
def Exact := Option ℝ

namespace Exact

@[coe] def ofReal (x : ℝ) : Exact := some x

instance : Coe ℝ Exact := ⟨ofReal⟩

def lift (f : ℝ → ℝ) (x : Exact) : Exact := Option.map f x

def lift₂ (f : ℝ → ℝ → ℝ) (x y : Exact) : Exact := Option.map₂ f x y

noncomputable instance : Double Exact where
  add := lift₂ (· + ·)
  sub := lift₂ (· - ·)
  mul := lift₂ (· * ·)
  neg := lift (-·)
  div x y := Option.bind y fun d ↦ if d = 0 then none else lift (· / d) x
  ofScientific m s e := ofReal (OfScientific.ofScientific m s e)
  ofNat n := ofReal n
  sqrt x := Option.bind x fun r ↦ if r < 0 then none else ofReal (Real.sqrt r)
  ln x := Option.bind x fun r ↦ if r ≤ 0 then none else ofReal (Real.log r)
  max := lift₂ (max · ·)
  min := lift₂ (min · ·)
  lt x y := (Option.map₂ (fun r s : ℝ ↦ decide (r < s)) x y).getD false
  infinity := none

variable (x y : ℝ)

theorem ofReal_injective : Function.Injective ofReal := Option.some_injective ℝ

@[simp] theorem ofReal_inj {x y : ℝ} : (x : Exact) = y ↔ x = y := ofReal_injective.eq_iff

@[simp] theorem ofReal_ne_infinity : (x : Exact) ≠ Double.infinity := Option.some_ne_none x

@[simp] theorem ofReal_add : (x : Exact) + y = (x + y : ℝ) := rfl
@[simp] theorem ofReal_sub : (x : Exact) - y = (x - y : ℝ) := rfl
@[simp] theorem ofReal_mul : (x : Exact) * y = (x * y : ℝ) := rfl
@[simp] theorem ofReal_neg : -(x : Exact) = (-x : ℝ) := rfl
@[simp] theorem ofReal_max : Double.max (x : Exact) y = (max x y : ℝ) := rfl
@[simp] theorem ofReal_min : Double.min (x : Exact) y = (min x y : ℝ) := rfl

@[simp] theorem ofNat_eq (n : ℕ) : Double.ofNat n = ((n : ℝ) : Exact) := rfl

@[simp] theorem ofScientific_eq (m : ℕ) (s : Bool) (e : ℕ) :
    (OfScientific.ofScientific m s e : Exact) = (OfScientific.ofScientific m s e : ℝ) := rfl

variable {x y}

theorem ofReal_div (hy : y ≠ 0) : (x : Exact) / y = (x / y : ℝ) := if_neg hy

theorem sqrt_ofReal (hx : 0 ≤ x) : Double.sqrt (x : Exact) = √x := if_neg (not_lt.2 hx)

theorem ln_ofReal (hx : 0 < x) : Double.ln (x : Exact) = Real.log x := if_neg (not_le.2 hx)

@[simp] theorem lt_ofReal : Double.lt (x : Exact) y = true ↔ x < y := decide_eq_true_iff

end Exact

end Birdtest.Stats
