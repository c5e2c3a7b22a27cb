import Mathlib.Algebra.GroupWithZero.Nat
import Mathlib.Data.Nat.Notation

namespace Birdtest.Stats

/-- The operations of a double that the test makes: no law of them is used. -/
class Double (F : Type) extends Add F, Sub F, Mul F, Div F, Neg F, OfScientific F where
  ofNat : ℕ → F
  sqrt : F → F
  ln : F → F
  max : F → F → F
  min : F → F → F
  lt : F → F → Bool
  infinity : F

structure Tally where
  wins : ℕ
  losses : ℕ
  draws : ℕ

def Tally.total (tally : Tally) : ℕ := tally.wins + tally.losses + tally.draws

structure Pentanomial where
  counts : Fin 5 → ℕ

-- what the numerals of every definition over the five kinds rest on
instance neZero_five : NeZero 5 := ⟨by decide⟩

namespace Pentanomial

def pairs (pentanomial : Pentanomial) : ℕ :=
  pentanomial.counts 0 + pentanomial.counts 1 + pentanomial.counts 2 + pentanomial.counts 3 +
    pentanomial.counts 4

def halfPoints (pentanomial : Pentanomial) : ℕ :=
  0 * pentanomial.counts 0 + 1 * pentanomial.counts 1 + 2 * pentanomial.counts 2 +
    3 * pentanomial.counts 3 + 4 * pentanomial.counts 4

end Pentanomial

structure Sample (F : Type) where
  n : ℕ
  mean : F
  variance : F

inductive TestUnit
  | game
  | pair
  deriving DecidableEq

inductive TestStatus
  | running
  | player1Better
  | player2Better
  | inconclusive
  deriving DecidableEq

def TestStatus.isFinished (status : TestStatus) : Bool := status ≠ .running

structure TestResult (F : Type) where
  mean : F
  lower : F
  upper : F
  confidencePct : F
  status : TestStatus

section Test

variable {F : Type} [Double F]

open Double

def Sample.fromGames (tally : Tally) : Sample F :=
  let n := tally.total
  if n = 0 then ⟨0, 0.0, 0.0⟩
  else
    let wins : F := ofNat tally.wins
    let draws : F := ofNat tally.draws
    let mean := (wins + 0.5 * draws) / ofNat n
    let secondMoment := (wins + 0.25 * draws) / ofNat n
    ⟨n, mean, secondMoment - mean * mean⟩

def Sample.fromPentanomial (pentanomial : Pentanomial) : Sample F :=
  let n := pentanomial.pairs
  if n = 0 then ⟨0, 0.0, 0.0⟩
  else
    let (mean, secondMoment) := (List.ofFn fun i : Fin 5 ↦ (i.val, pentanomial.counts i)).foldl
      (fun (mean, secondMoment) (i, count) ↦
        let score : F := ofNat i / 4.0
        let weight := ofNat count / ofNat n
        (mean + score * weight, secondMoment + score * score * weight))
      ((0.0 : F), (0.0 : F))
    ⟨n, mean, secondMoment - mean * mean⟩

def tuningUnits (minUnits maxUnits : ℕ) : F :=
  sqrt (ofNat (Nat.max minUnits 1) * ofNat (Nat.max maxUnits 1))

def planningVariance : TestUnit → F
  | .game => 0.25
  | .pair => 0.0625

def rhoSquared (alpha nStar variance : F) : F :=
  let logAlpha := ln alpha
  (-2.0 * logAlpha + ln (-2.0 * logAlpha + 1.0)) / (nStar * variance)

def halfWidth (n : ℕ) (variance alpha rho2 : F) : F :=
  if n = 0 then infinity
  else
    let n : F := ofNat n
    let x := n * max variance 0.0 * rho2 + 1.0
    sqrt (2.0 * x / (n * n * rho2) * ln (sqrt x / alpha))

def statusOf (lower upper : F) (unitsCompleted minUnits maxUnits : ℕ) : TestStatus :=
  if unitsCompleted < minUnits then
    if maxUnits ≤ unitsCompleted then .inconclusive else .running
  else if lt 0.5 lower then .player1Better
  else if lt upper 0.5 then .player2Better
  else if maxUnits ≤ unitsCompleted then .inconclusive
  else .running

def evaluate (sample : Sample F) (unit : TestUnit) (unitsCompleted : ℕ) (confidencePct : F)
    (minUnits maxUnits : ℕ) : TestResult F :=
  let alpha := 1.0 - confidencePct / 100.0
  let rho2 := rhoSquared alpha (tuningUnits minUnits maxUnits) (planningVariance unit)
  let width := halfWidth sample.n sample.variance alpha rho2
  let mean := if sample.n = 0 then 0.5 else sample.mean
  let lower := max (mean - width) 0.0
  let upper := min (mean + width) 1.0
  ⟨mean, lower, upper, confidencePct, statusOf lower upper unitsCompleted minUnits maxUnits⟩

theorem isFinished_statusOf (lower upper : F) {unitsCompleted minUnits maxUnits : ℕ}
    (h : maxUnits ≤ unitsCompleted) :
    (statusOf lower upper unitsCompleted minUnits maxUnits).isFinished = true := by
  simp only [statusOf, if_pos h]
  split
  · rfl
  · split
    · rfl
    · split <;> rfl

end Test

end Birdtest.Stats
