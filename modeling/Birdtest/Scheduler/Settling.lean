import Birdtest.Scheduler.Fairness
import Mathlib.Data.Fin.VecNotation
import Mathlib.Data.List.FinRange
import Mathlib.Data.List.MinMax
import Mathlib.Data.Rat.Floor
import Mathlib.Tactic.Linarith
import Mathlib.Tactic.Ring

namespace Birdtest.Scheduler.Settling

structure Row where
  active : Bool
  allocation : ℕ
  allocation_le : allocation ≤ 100
  claimsIssued : ℤ
  claimsBaseline : ℤ
  tasksTotal : ℤ
  lastClaimedAt : Option ℤ
  activatedAt : Option ℤ

def Row.withBaseline (row : Row) (baseline : ℤ) : Row := { row with claimsBaseline := baseline }

variable {n : ℕ}

section Statements

-- What a float8 operation makes of its exact result.
variable (round : ℚ → ℚ)

def ratio (row : Row) : ℚ :=
  round (round ((row.claimsIssued - row.claimsBaseline : ℤ) : ℚ) / row.allocation)

def offered (jobs : Fin n → Row) (i : Fin n) : List (Fin n) :=
  (List.finRange n).filter fun o ↦ (jobs o).active ∧ 0 < (jobs o).allocation ∧ o ≠ i

def latestClaim (jobs : Fin n → Row) (i : Fin n) : Option ℤ :=
  ((offered jobs i).filterMap fun o ↦ (jobs o).lastClaimedAt).max?

def parityTarget (servedWithin : ℤ) (jobs : Fin n → Row) (i : Fin n) : Option ℚ :=
  (latestClaim jobs i).bind fun latest ↦
    (((offered jobs i).filter fun o ↦ (jobs o).lastClaimedAt.any (latest - servedWithin < ·)).map
      fun o ↦ ratio round (jobs o)).min?

def stale (servedWithin : ℤ) (jobs : Fin n → Row) (i : Fin n) : Bool :=
  ((jobs i).lastClaimedAt.or (jobs i).activatedAt).any fun served ↦
    (latestClaim jobs i).any (served ≤ · - servedWithin)

/-- `claims_issued - floor(target * allocation)`, the baseline of a job whose ratio is the
target. -/
def baselineAt (row : Row) (target : ℚ) : ℤ := row.claimsIssued - ⌊round (target * row.allocation)⌋

def least (baseline : ℤ) (lift : Option ℤ) : ℤ := lift.elim baseline (min baseline)

def greatest (baseline : ℤ) (lift : Option ℤ) : ℤ := lift.elim baseline (max baseline)

def issueClaim (servedWithin joinSettle now taskCreated : ℤ) (pace : Option ℚ)
    (jobs : Fin n → Row) (i : Fin n) : Option Row :=
  let job := jobs i
  if job.active then
    some { job with
      claimsIssued := job.claimsIssued + 1
      tasksTotal := job.tasksTotal + taskCreated
      lastClaimedAt := some now
      claimsBaseline :=
        if ¬ 0 < job.allocation then job.claimsBaseline
        else if stale servedWithin jobs i then
          least (least job.claimsBaseline
            ((parityTarget round servedWithin jobs i).map (baselineAt round job)))
              (pace.map (baselineAt round job))
        else if job.activatedAt.any (now - joinSettle < ·) then
          least job.claimsBaseline (pace.map (baselineAt round job))
        else job.claimsBaseline
      activatedAt :=
        if 0 < job.allocation ∧ stale servedWithin jobs i then some now else job.activatedAt }
  else none

def paceFor (jobs : List Row) (i : ℕ) : Option ℚ := do
  let other ← jobs[if i = 0 then 1 else 0]?
  let own ← jobs[i]?
  if 0 < other.allocation ∧ 0 < own.allocation then
    some (round (round (round ((other.claimsIssued - other.claimsBaseline - 1 : ℤ) : ℚ) /
      other.allocation) - round (1 / own.allocation)))
  else none

def standingPace (recentlyBusy : Bool) (jobs : List Row) (i : ℕ) : Option ℚ :=
  (paceFor round jobs i).map fun pace ↦ if recentlyBusy then round (pace - 1) else pace

def liftPassedOver (locked : Fin n → Bool) (passedOver : List (Fin n)) (pace : ℚ)
    (jobs : Fin n → Row) (k : Fin n) : Row :=
  let job := jobs k
  if k ∈ passedOver ∧ job.active ∧ 0 < job.allocation ∧
      baselineAt round job pace < job.claimsBaseline ∧ locked k = false then
    job.withBaseline (baselineAt round job pace)
  else job

def liftAfterClaim (locked : Fin n → Bool) (passedOver : List (Fin n)) (chosen : Row)
    (jobs : Fin n → Row) : Fin n → Row :=
  if passedOver ≠ [] ∧ 0 < chosen.allocation then
    liftPassedOver round locked passedOver (ratio round chosen) jobs
  else jobs

inductive ClaimStep (n : ℕ)
  | issue (i : Fin n) (now taskCreated : ℤ) (pace : Option ℚ)
  | lift (locked : Fin n → Bool) (passedOver : List (Fin n)) (chosen : Row)
  /-- A job set aside by its overruns, or completed as its last task is found to be done. -/
  | park (i : Fin n)

def ClaimStep.run (servedWithin joinSettle : ℤ) (jobs : Fin n → Row) : ClaimStep n → Fin n → Row
  | .issue i now taskCreated pace =>
    match issueClaim round servedWithin joinSettle now taskCreated pace jobs i with
    | some job => Function.update jobs i job
    | none => jobs
  | .lift locked passedOver chosen => liftAfterClaim round locked passedOver chosen jobs
  | .park i =>
    if (jobs i).active then
      Function.update jobs i
        { jobs i with active := false, allocation := 0, allocation_le := Nat.zero_le 100 }
    else jobs

end Statements

section Baselines

variable {round : ℚ → ℚ} {servedWithin joinSettle now taskCreated : ℤ} {pace : Option ℚ}
  {jobs : Fin n → Row} {i k : Fin n} {row after : Row}

theorem least_le (baseline : ℤ) (lift : Option ℤ) : least baseline lift ≤ baseline := by
  cases lift with
  | none => exact le_rfl
  | some lift => exact min_le_left _ _

theorem issueClaim_eq_some
    (h : issueClaim round servedWithin joinSettle now taskCreated pace jobs i = some after) :
    after.allocation = (jobs i).allocation ∧
    after.claimsIssued = (jobs i).claimsIssued + 1 ∧
    after.claimsBaseline =
      if ¬ 0 < (jobs i).allocation then (jobs i).claimsBaseline
      else if stale servedWithin jobs i then
        least (least (jobs i).claimsBaseline
          ((parityTarget round servedWithin jobs i).map (baselineAt round (jobs i))))
            (pace.map (baselineAt round (jobs i)))
      else if (jobs i).activatedAt.any (now - joinSettle < ·) then
        least (jobs i).claimsBaseline (pace.map (baselineAt round (jobs i)))
      else (jobs i).claimsBaseline := by
  simp only [issueClaim, Option.ite_none_right_eq_some, Option.some.injEq] at h
  obtain ⟨-, rfl⟩ := h
  exact ⟨rfl, rfl, rfl⟩

theorem issueClaim_baseline_le
    (h : issueClaim round servedWithin joinSettle now taskCreated pace jobs i = some after) :
    after.claimsBaseline ≤ (jobs i).claimsBaseline := by
  rw [(issueClaim_eq_some h).2.2]
  split
  · exact le_rfl
  split
  · exact (least_le _ _).trans (least_le _ _)
  split
  · exact least_le _ _
  · exact le_rfl

theorem liftPassedOver_baseline_le (locked : Fin n → Bool) (passedOver : List (Fin n)) (pace : ℚ)
    (jobs : Fin n → Row) (k : Fin n) :
    (liftPassedOver round locked passedOver pace jobs k).claimsBaseline ≤
      (jobs k).claimsBaseline := by
  rw [liftPassedOver]
  split
  · next h => exact h.2.2.2.1.le
  · exact le_rfl

theorem run_baseline_le (step : ClaimStep n) (jobs : Fin n → Row) (k : Fin n) :
    (step.run round servedWithin joinSettle jobs k).claimsBaseline ≤ (jobs k).claimsBaseline := by
  cases step with
  | issue i now taskCreated pace =>
    simp only [ClaimStep.run]
    cases hjob : issueClaim round servedWithin joinSettle now taskCreated pace jobs i with
    | none => exact le_rfl
    | some job =>
      by_cases hk : k = i
      · subst hk
        simp only [Function.update_self]
        exact issueClaim_baseline_le hjob
      · simp only [Function.update_of_ne hk, le_refl]
  | lift locked passedOver chosen =>
    simp only [ClaimStep.run, liftAfterClaim]
    split
    · exact liftPassedOver_baseline_le locked passedOver _ jobs k
    · exact le_rfl
  | park i =>
    simp only [ClaimStep.run]
    split
    · by_cases hk : k = i
      · subst hk
        rw [Function.update_self]
      · rw [Function.update_of_ne hk]
    · exact le_rfl

theorem foldl_run_baseline_le (steps : List (ClaimStep n)) (jobs : Fin n → Row) (k : Fin n) :
    (steps.foldl (ClaimStep.run round servedWithin joinSettle) jobs k).claimsBaseline ≤
      (jobs k).claimsBaseline := by
  induction steps generalizing jobs with
  | nil => exact le_rfl
  | cons step steps ih => exact (ih _).trans (run_baseline_le step jobs k)

end Baselines

section Exact

variable {servedWithin joinSettle now taskCreated : ℤ} {pace : Option ℚ} {jobs : Fin n → Row}
  {i k : Fin n} {row after : Row}

theorem ratio_withBaseline (row : Row) (baseline : ℤ) : ratio id (row.withBaseline baseline) =
    ((row.claimsIssued - baseline : ℤ) : ℚ) / row.allocation := rfl

theorem ratio_baselineAt (issued baseline : ℤ) {allocation : ℕ} (hpos : 0 < allocation)
    (target : ℚ) :
    ((issued - min baseline (issued - ⌊target * allocation⌋) : ℤ) : ℚ) / allocation =
      max (((issued - baseline : ℤ) : ℚ) / allocation) (⌊target * allocation⌋ / allocation) := by
  have hcast : (0 : ℚ) < allocation := Nat.cast_pos.2 hpos
  rw [max_div_div_right hcast.le, ← Int.cast_max]
  congr 2
  omega

theorem floor_div_le {allocation : ℕ} (hpos : 0 < allocation) (target : ℚ) :
    (⌊target * allocation⌋ : ℚ) / allocation ≤ target := by
  rw [div_le_iff₀ (Nat.cast_pos.2 hpos)]
  exact Int.floor_le _

theorem head?_eraseIdx {candidates : List Row} {k : ℕ} {own : Row}
    (hown : candidates[k]? = some own) :
    (candidates.eraseIdx k).head? = candidates[if k = 0 then 1 else 0]? := by
  cases candidates with
  | nil => cases hown
  | cons candidate candidates =>
    cases k with
    | zero => simp [List.head?_eq_getElem?]
    | succ k => rfl

/-- The pace is a claim of the lowest other candidate and one of the job's own short of it. -/
theorem paceFor_eq {candidates : List Row} (hpos : ∀ c ∈ candidates, 0 < c.allocation) {k : ℕ}
    {own : Row} (hown : candidates[k]? = some own) :
    paceFor id candidates k = (candidates.eraseIdx k).head?.map fun other ↦
      ratio id other - 1 / other.allocation - 1 / own.allocation := by
  rw [head?_eraseIdx hown]
  simp only [paceFor, hown]
  cases hother : candidates[if k = 0 then 1 else 0]? with
  | none => rfl
  | some other =>
    have hboth : 0 < other.allocation ∧ 0 < own.allocation :=
      ⟨hpos other (List.mem_of_getElem? hother), hpos own (List.mem_of_getElem? hown)⟩
    simp only [Option.bind_eq_bind, Option.bind_some, if_pos hboth, Option.map_some, id_eq, ratio]
    rw [Int.cast_sub _ 1, Int.cast_one, sub_div]

theorem lowest_of_head? {candidates : List Row} {k : ℕ} {other : Row}
    (hsorted : candidates.Pairwise fun a b ↦ ratio id a ≤ ratio id b)
    (hother : (candidates.eraseIdx k).head? = some other) :
    ∀ o ∈ candidates.eraseIdx k, ratio id other ≤ ratio id o := by
  have hrest := hsorted.sublist (List.eraseIdx_sublist candidates k)
  obtain ⟨rest, hcons⟩ := List.head?_eq_some_iff.1 hother
  rw [hcons, List.pairwise_cons] at hrest
  rw [hcons]
  rintro o (_ | ⟨_, ho⟩)
  · exact le_rfl
  · exact hrest.1 o ho

theorem ratio_settled (hpos : 0 < (jobs i).allocation) (hstale : stale servedWithin jobs i = false)
    (hsettling : (jobs i).activatedAt.any (now - joinSettle < ·) = true)
    (h : issueClaim id servedWithin joinSettle now taskCreated pace jobs i = some after) :
    ratio id after = (pace.elim (ratio id (jobs i)) fun p ↦ max (ratio id (jobs i))
      (⌊p * (jobs i).allocation⌋ / (jobs i).allocation)) + 1 / (jobs i).allocation := by
  obtain ⟨hallocation, hissued, hbaseline⟩ := issueClaim_eq_some h
  rw [if_neg (not_not.2 hpos), if_neg (by rw [hstale]; exact Bool.false_ne_true),
    if_pos hsettling] at hbaseline
  have hnext : ratio id after =
      (((jobs i).claimsIssued - after.claimsBaseline : ℤ) : ℚ) / (jobs i).allocation +
        1 / (jobs i).allocation := by
    rw [ratio, hissued, hallocation, ← add_div]
    push_cast
    simp only [id_eq]
    ring
  rw [hnext, hbaseline]
  cases pace with
  | none => rfl
  | some p => exact congrArg (· + _) (ratio_baselineAt _ _ hpos p)

/-- So it ends a claim past the pace, unless it was due to end it further. -/
theorem ratio_settled_le (hpos : 0 < (jobs i).allocation)
    (hstale : stale servedWithin jobs i = false)
    (hsettling : (jobs i).activatedAt.any (now - joinSettle < ·) = true)
    (h : issueClaim id servedWithin joinSettle now taskCreated pace jobs i = some after) :
    ratio id (jobs i) + 1 / (jobs i).allocation ≤ ratio id after ∧
    (pace = none → ratio id after = ratio id (jobs i) + 1 / (jobs i).allocation) ∧
    ∀ p ∈ pace, ratio id after ≤
      max (ratio id (jobs i) + 1 / (jobs i).allocation) (p + 1 / (jobs i).allocation) := by
  have hratio := ratio_settled hpos hstale hsettling h
  cases pace with
  | none =>
    rw [Option.elim_none] at hratio
    exact ⟨hratio.ge, fun _ ↦ hratio, fun _ hp ↦ nomatch hp⟩
  | some p =>
    rw [Option.elim_some, ← max_add_add_right] at hratio
    refine ⟨hratio ▸ le_max_left _ _, nofun, fun p' hp' ↦ ?_⟩
    cases hp'
    rw [hratio]
    exact max_le_max le_rfl (add_le_add_left (floor_div_le hpos p) _)

theorem standingPace_le {candidates : List Row} (hpos : ∀ c ∈ candidates, 0 < c.allocation) {k : ℕ}
    {own : Row} (hown : candidates[k]? = some own) (busy : Bool) :
    ((candidates.eraseIdx k).head? = none → standingPace id busy candidates k = none) ∧
    ∀ other, (candidates.eraseIdx k).head? = some other →
      ∃ p ∈ standingPace id busy candidates k,
        p + 1 / own.allocation ≤ ratio id other - 1 / other.allocation := by
  rw [standingPace, paceFor_eq hpos hown]
  refine ⟨fun hnone ↦ by rw [hnone]; rfl, fun other hother ↦ ?_⟩
  rw [hother]
  refine ⟨_, rfl, ?_⟩
  cases busy
  · exact (sub_add_cancel _ _).le
  · simp only [if_true, id_eq]
    linarith

theorem ratio_liftPassedOver (locked : Fin n → Bool) (passedOver : List (Fin n)) (pace : ℚ) :
    ratio id (jobs k) ≤ ratio id (liftPassedOver id locked passedOver pace jobs k) ∧
      ratio id (liftPassedOver id locked passedOver pace jobs k) ≤
      max (ratio id (jobs k)) pace := by
  rw [liftPassedOver]
  split
  · next h =>
    obtain ⟨-, -, hpos, hlt, -⟩ := h
    have hle : (jobs k).claimsIssued - ⌊pace * (jobs k).allocation⌋ ≤ (jobs k).claimsBaseline :=
      hlt.le
    have hlift := ratio_baselineAt (jobs k).claimsIssued (jobs k).claimsBaseline hpos pace
    rw [min_eq_right hle] at hlift
    rw [ratio_withBaseline, baselineAt, id_eq, hlift]
    exact ⟨le_max_left _ _, max_le_max le_rfl (floor_div_le hpos pace)⟩
  · exact ⟨le_rfl, le_max_left _ _⟩

/-- In exact arithmetic, and for every candidate list, the lifts of a claim do not overshoot: of a
job that settles it is to the lowest other candidate at most, of those passed over to where the
chosen job stood, and no baseline is ever raised. -/
theorem lifts_never_overshoot (servedWithin joinSettle : ℤ) {candidates : List Row}
    (hsorted : candidates.Pairwise fun a b ↦ ratio id a ≤ ratio id b)
    (hpos : ∀ c ∈ candidates, 0 < c.allocation) {k : ℕ} {own : Row}
    (hown : candidates[k]? = some own) (jobs : Fin n → Row) :
    (∀ i now taskCreated busy after, (jobs i).allocation = own.allocation →
      stale servedWithin jobs i = false →
      (jobs i).activatedAt.any (now - joinSettle < ·) = true →
      issueClaim id servedWithin joinSettle now taskCreated (standingPace id busy candidates k)
        jobs i = some after →
      ratio id (jobs i) + 1 / own.allocation ≤ ratio id after ∧
      ((candidates.eraseIdx k).head? = none →
        ratio id after = ratio id (jobs i) + 1 / own.allocation) ∧
      ∀ other, (candidates.eraseIdx k).head? = some other →
        (∀ o ∈ candidates.eraseIdx k, ratio id other ≤ ratio id o) ∧
        ratio id after ≤ max (ratio id (jobs i) + 1 / own.allocation)
          (ratio id other - 1 / other.allocation)) ∧
    (∀ locked passedOver j,
      ratio id (jobs j) ≤ ratio id (liftAfterClaim id locked passedOver own jobs j) ∧
      ratio id (liftAfterClaim id locked passedOver own jobs j) ≤
        max (ratio id (jobs j)) (ratio id own)) ∧
    ∀ (steps : List (ClaimStep n)) j,
      (steps.foldl (ClaimStep.run id servedWithin joinSettle) jobs j).claimsBaseline ≤
        (jobs j).claimsBaseline := by
  refine ⟨fun i now taskCreated busy after hallocation hstale hsettling h ↦ ?_,
    fun locked passedOver j ↦ ?_, fun steps j ↦ foldl_run_baseline_le steps jobs j⟩
  · have hpos' : 0 < (jobs i).allocation := hallocation ▸ hpos own (List.mem_of_getElem? hown)
    obtain ⟨hle, hnone, hsome⟩ := ratio_settled_le hpos' hstale hsettling h
    obtain ⟨hpace, hpace'⟩ := standingPace_le hpos hown busy
    rw [hallocation] at hle hnone hsome
    refine ⟨hle, fun hother ↦ hnone (hpace hother), fun other hother ↦
      ⟨lowest_of_head? hsorted hother, ?_⟩⟩
    obtain ⟨p, hp, hbound⟩ := hpace' other hother
    exact (hsome p hp).trans (max_le_max le_rfl hbound)
  · rw [liftAfterClaim]
    split
    · exact ratio_liftPassedOver locked passedOver _
    · exact ⟨le_rfl, le_max_left _ _⟩

def newcomer : Row := ⟨true, 50, by decide, 0, 0, 0, none, some 1000⟩

def veteran : Row := ⟨true, 50, by decide, 100, 0, 100, some 1100, some 0⟩

/-- A newcomer beside a job of a hundred claims goes a claim of each short of it. -/
theorem exists_lifts_never_overshoot : ∃ after,
    issueClaim id 300 3600 2000 1 (standingPace id false [newcomer, veteran] 0)
      ![newcomer, veteran] 0 = some after ∧
    ratio id after = 99 / 50 ∧
    ratio id after ≤ max (ratio id newcomer + 1 / 50) (ratio id veteran - 1 / 50) := by
  have hsorted : [newcomer, veteran].Pairwise fun a b ↦ ratio id a ≤ ratio id b := by
    rw [List.pairwise_pair]
    decide +kernel
  have h := lifts_never_overshoot 300 3600 hsorted (by decide) (k := 0) rfl ![newcomer, veteran]
  obtain ⟨-, -, hle⟩ := h.1 0 2000 1 false _ rfl (by decide +kernel) (by decide +kernel) rfl
  exact ⟨_, rfl, by decide +kernel, (hle veteran rfl).2⟩

end Exact

section Fairness

def Row.of (job : Fairness.Job) (hle : job.allocation ≤ 100) (tasksTotal : ℤ) : Row :=
  ⟨true, job.allocation, hle, job.claimsIssued, job.claimsBaseline, tasksTotal, job.lastClaimedAt,
    job.activatedAt⟩

variable {servedWithin joinSettle : ℤ} {shared : Fin n → Fairness.Job}
  (hle : ∀ k, (shared k).allocation ≤ 100) (tasksTotal : Fin n → ℤ)

theorem offered_of (i : Fin n) :
    offered (fun k ↦ Row.of (shared k) (hle k) (tasksTotal k)) i = Fairness.others i := by
  refine List.filter_congr fun k _ ↦ ?_
  simp [Row.of, (shared k).allocation_pos]

theorem least_of (k : Fin n) (baseline : ℤ) (target : Option ℚ) :
    least baseline (target.map (baselineAt id (Row.of (shared k) (hle k) (tasksTotal k)))) =
      Fairness.liftTo (shared k) baseline target := by
  cases target <;> rfl

theorem stale_of (i : Fin n) :
    stale servedWithin (fun k ↦ Row.of (shared k) (hle k) (tasksTotal k)) i =
      Fairness.stale servedWithin shared i := by
  rw [stale, latestClaim, offered_of]
  rfl

theorem parityTarget_of (i : Fin n) :
    parityTarget id servedWithin (fun k ↦ Row.of (shared k) (hle k) (tasksTotal k)) i =
      Fairness.parityTarget servedWithin shared i := by
  rw [parityTarget, latestClaim, offered_of]
  rfl

theorem issueClaim_of (now taskCreated : ℤ) (pace : Option ℚ) (i : Fin n) :
    issueClaim id servedWithin joinSettle now taskCreated pace
        (fun k ↦ Row.of (shared k) (hle k) (tasksTotal k)) i =
      some (Row.of (Fairness.issueClaim servedWithin joinSettle now pace shared i) (hle i)
        (tasksTotal i + taskCreated)) := by
  have hpos := (shared i).allocation_pos
  simp only [issueClaim, stale_of, parityTarget_of, least_of]
  simp only [Row.of, Fairness.issueClaim, hpos, Option.any_eq_true, decide_eq_true_eq, if_true,
    not_true_eq_false, if_false, true_and]

end Fairness

end Birdtest.Scheduler.Settling
