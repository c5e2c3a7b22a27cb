import Birdtest.Base.Float8
import Birdtest.Scheduler.Settling

namespace Birdtest.Scheduler.Settling

open Birdtest.Base.Float8

variable {n : ℕ}

section Statements

-- What a float8 operation makes of its exact result.
variable (round : ℚ → ℚ)

def joinFallback (jobs : Fin n → Row) (i : Fin n) : Option ℚ :=
  ((offered jobs i).map fun o ↦ ratio round (jobs o)).max?

def joinTarget (servedWithin : ℤ) (jobs : Fin n → Row) (i : Fin n) : ℚ :=
  ((parityTarget round servedWithin jobs i).or (joinFallback round jobs i)).getD 0

def joinAtParity (servedWithin now : ℤ) (jobs : Fin n → Row) (i : Fin n) : Row :=
  let job := jobs i
  { job with activatedAt := if job.active then some now else job.activatedAt }.withBaseline
    (baselineAt round job (joinTarget round servedWithin jobs i))

def unsettle (servedWithin joinSettle now : ℤ) (jobs : Fin n → Row) (i : Fin n) : Row :=
  let job := jobs i
  if job.active ∧ 0 < job.allocation ∧ job.activatedAt.any (now - joinSettle < ·) then
    job.withBaseline (greatest job.claimsBaseline
      ((parityTarget round servedWithin jobs i).map (baselineAt round job)))
  else job

end Statements

section Targets

def Offered (jobs : Fin n → Row) (i : Fin n) : Set (Fin n) :=
  {k | (jobs k).active ∧ 0 < (jobs k).allocation ∧ k ≠ i}

/-- The jobs being served: each issued a claim within the window before the latest of them all. -/
def Served (servedWithin : ℤ) (jobs : Fin n → Row) (i : Fin n) : Set (Fin n) :=
  {k | k ∈ Offered jobs i ∧ ∃ t ∈ (jobs k).lastClaimedAt,
    ∀ o ∈ Offered jobs i, ∀ t' ∈ (jobs o).lastClaimedAt, t' - servedWithin < t}

/-- The lowest exact ratio of the jobs being served; while there are none, the highest of the jobs
on offer, and zero without any. -/
def JoinsAt (servedWithin : ℤ) (jobs : Fin n → Row) (i : Fin n) (target : ℚ) : Prop :=
  IsLeast ((fun k ↦ ratio id (jobs k)) '' Served servedWithin jobs i) target ∨
  (Served servedWithin jobs i = ∅ ∧
    (IsGreatest ((fun k ↦ ratio id (jobs k)) '' Offered jobs i) target ∨
      (Offered jobs i = ∅ ∧ target = 0)))

variable {round : ℚ → ℚ} {servedWithin joinSettle now : ℤ} {jobs : Fin n → Row} {i k : Fin n}
  {target : ℚ}

theorem mem_offered : k ∈ offered jobs i ↔ k ∈ Offered jobs i := by
  simp [offered, Offered]

theorem mem_served {latest : ℤ} (hlatest : latestClaim jobs i = some latest) :
    k ∈ (offered jobs i).filter (fun o ↦ (jobs o).lastClaimedAt.any (latest - servedWithin < ·)) ↔
      k ∈ Served servedWithin jobs i := by
  obtain ⟨hmem, hmax⟩ := List.max?_eq_some_iff.1 hlatest
  simp only [List.mem_filter, mem_offered, Option.any_eq_true, decide_eq_true_eq]
  constructor
  · rintro ⟨hk, t, ht, hlt⟩
    refine ⟨hk, t, ht, fun o ho t' ht' ↦ ?_⟩
    have hle := hmax t' (List.mem_filterMap.2 ⟨o, mem_offered.2 ho, ht'⟩)
    omega
  · rintro ⟨hk, t, ht, hall⟩
    obtain ⟨o, ho, ho'⟩ := List.mem_filterMap.1 hmem
    exact ⟨hk, t, ht, hall o (mem_offered.1 ho) latest ho'⟩

theorem served_eq_empty (hlatest : latestClaim jobs i = none) :
    Served servedWithin jobs i = ∅ := by
  refine Set.eq_empty_iff_forall_notMem.2 fun k ⟨hk, t, ht, _⟩ ↦ ?_
  have hmem : t ∈ (offered jobs i).filterMap fun o ↦ (jobs o).lastClaimedAt :=
    List.mem_filterMap.2 ⟨k, mem_offered.2 hk, ht⟩
  rw [latestClaim, List.max?_eq_none_iff] at hlatest
  rw [hlatest] at hmem
  exact List.not_mem_nil hmem

theorem isLeast_of_min? {l : List (Fin n)} {f : Fin n → ℚ} {x : ℚ} (h : (l.map f).min? = some x) :
    IsLeast (f '' {k | k ∈ l}) x := by
  obtain ⟨hmem, hle⟩ := List.min?_eq_some_iff.1 h
  obtain ⟨k, hk, rfl⟩ := List.mem_map.1 hmem
  refine ⟨⟨k, hk, rfl⟩, ?_⟩
  rintro _ ⟨o, ho, rfl⟩
  exact hle _ (List.mem_map_of_mem ho)

theorem isGreatest_of_max? {l : List (Fin n)} {f : Fin n → ℚ} {x : ℚ}
    (h : (l.map f).max? = some x) : IsGreatest (f '' {k | k ∈ l}) x := by
  obtain ⟨hmem, hle⟩ := List.max?_eq_some_iff.1 h
  obtain ⟨k, hk, rfl⟩ := List.mem_map.1 hmem
  refine ⟨⟨k, hk, rfl⟩, ?_⟩
  rintro _ ⟨o, ho, rfl⟩
  exact hle _ (List.mem_map_of_mem ho)

theorem parityTarget_isLeast {x : ℚ} (h : parityTarget round servedWithin jobs i = some x) :
    IsLeast ((fun k ↦ ratio round (jobs k)) '' Served servedWithin jobs i) x := by
  obtain ⟨latest, hlatest, hmin⟩ := Option.bind_eq_some_iff.1 h
  have hleast := isLeast_of_min? hmin
  rwa [show {k | k ∈ _} = Served servedWithin jobs i from Set.ext fun k ↦ mem_served hlatest]
    at hleast

theorem served_of_parityTarget (h : parityTarget round servedWithin jobs i = none) :
    Served servedWithin jobs i = ∅ := by
  rw [parityTarget] at h
  cases hlatest : latestClaim jobs i with
  | none => exact served_eq_empty hlatest
  | some latest =>
    rw [hlatest, Option.bind_some, List.min?_eq_none_iff, List.map_eq_nil_iff] at h
    refine Set.eq_empty_iff_forall_notMem.2 fun k hk ↦ ?_
    rw [← mem_served hlatest, h] at hk
    exact List.not_mem_nil hk

theorem joinFallback_isGreatest {x : ℚ} (h : joinFallback round jobs i = some x) :
    IsGreatest ((fun k ↦ ratio round (jobs k)) '' Offered jobs i) x := by
  have hgreatest := isGreatest_of_max? h
  rwa [show {k | k ∈ offered jobs i} = Offered jobs i from Set.ext fun k ↦ mem_offered]
    at hgreatest

theorem offered_of_joinFallback (h : joinFallback round jobs i = none) : Offered jobs i = ∅ := by
  rw [joinFallback, List.max?_eq_none_iff, List.map_eq_nil_iff] at h
  refine Set.eq_empty_iff_forall_notMem.2 fun k hk ↦ ?_
  rw [← mem_offered, h] at hk
  exact List.not_mem_nil hk

theorem joinsAt_joinTarget : JoinsAt servedWithin jobs i (joinTarget id servedWithin jobs i) := by
  rw [joinTarget]
  cases hparity : parityTarget id servedWithin jobs i with
  | some x => exact .inl (parityTarget_isLeast hparity)
  | none =>
    refine .inr ⟨served_of_parityTarget hparity, ?_⟩
    cases hfallback : joinFallback id jobs i with
    | some x => exact .inl (joinFallback_isGreatest hfallback)
    | none => exact .inr ⟨offered_of_joinFallback hfallback, rfl⟩

end Targets

section Rounding

variable {round : ℚ → ℚ} {u : ℚ} {servedWithin joinSettle now : ℤ} {jobs : Fin n → Row}
  {i : Fin n} {target : ℚ}

theorem near_ratio (hround : ∀ x, Near u x (round x)) (hu : 0 ≤ u) (row : Row) :
    Near (u + u * (1 + u)) (ratio id row) (ratio round row) :=
  ((hround _).div _).trans (hround _) hu

theorem near_joinTarget (hround : ∀ x, Near u x (round x)) (hu : 0 ≤ u)
    (hu₁ : u + u * (1 + u) ≤ 1) (h : JoinsAt servedWithin jobs i target) :
    Near (u + u * (1 + u)) target (joinTarget round servedWithin jobs i) := by
  have hδ : 0 ≤ u + u * (1 + u) := by positivity
  have hnear (s : Set (Fin n)) : ∀ k ∈ s, Near (u + u * (1 + u)) (ratio id (jobs k))
      (ratio round (jobs k)) := fun k _ ↦ near_ratio hround hu (jobs k)
  rw [joinTarget]
  cases hparity : parityTarget round servedWithin jobs i with
  | some x =>
    have hleast := parityTarget_isLeast hparity
    rcases h with h | ⟨hempty, -⟩
    · exact near_of_least (hnear _) hu₁ hδ h hleast
    · rw [hempty, Set.image_empty] at hleast
      exact absurd hleast.1 (Set.notMem_empty x)
  | none =>
    have hempty := served_of_parityTarget hparity
    rcases h with h | ⟨-, h⟩
    · rw [hempty, Set.image_empty] at h
      exact absurd h.1 (Set.notMem_empty target)
    · cases hfallback : joinFallback round jobs i with
      | some x =>
        have hgreatest := joinFallback_isGreatest hfallback
        rcases h with h | ⟨hempty', -⟩
        · exact near_of_greatest (hnear _) hu₁ hδ h hgreatest
        · rw [hempty', Set.image_empty] at hgreatest
          exact absurd hgreatest.1 (Set.notMem_empty x)
      | none =>
        have hempty' := offered_of_joinFallback hfallback
        rcases h with h | ⟨-, rfl⟩
        · rw [hempty', Set.image_empty] at h
          exact absurd h.1 (Set.notMem_empty target)
        · simp [Near]

theorem JoinsAt.exists_fraction (h : JoinsAt servedWithin jobs i target) :
    ∃ (m : ℤ) (o : ℕ), 0 < o ∧ o ≤ 100 ∧ target = m / o := by
  have hratio : ∀ k ∈ Offered jobs i, ∃ (m : ℤ) (o : ℕ), 0 < o ∧ o ≤ 100 ∧
      ratio id (jobs k) = m / o :=
    fun k hk ↦ ⟨_, (jobs k).allocation, hk.2.1, (jobs k).allocation_le, rfl⟩
  rcases h with ⟨⟨k, hk, rfl⟩, -⟩ | ⟨-, ⟨⟨k, hk, rfl⟩, -⟩ | ⟨-, rfl⟩⟩
  · exact hratio k hk.1
  · exact hratio k hk
  · exact ⟨0, 1, Nat.one_pos, by decide, by simp⟩

theorem ratio_withBaselineAt (row : Row) (x : ℚ) :
    ratio id (row.withBaseline (baselineAt round row x)) =
      ⌊round (x * row.allocation)⌋ / row.allocation := by
  rw [ratio_withBaseline, baselineAt, sub_sub_cancel]

theorem level_of_near {δ x y : ℚ} {a : ℕ} (ha : 0 < a) (h : Near δ (x * a) y) :
    x - 1 / a - δ * |x| < ⌊y⌋ / a ∧ (⌊y⌋ : ℚ) / a ≤ x + δ * |x| := by
  have hpos : (0 : ℚ) < a := Nat.cast_pos.2 ha
  have hfloor := Int.floor_le y
  have hfloor' := Int.lt_floor_add_one y
  rw [Near, abs_mul, abs_of_pos hpos] at h
  obtain ⟨hlower, hupper⟩ := abs_le.1 h
  constructor
  · rw [lt_div_iff₀ hpos, sub_mul, sub_mul, one_div, inv_mul_cancel₀ hpos.ne']
    linarith
  · rw [div_le_iff₀ hpos, add_mul]
    linarith

/-- While it is far below the precision, rounding does not take the last whole claim past the
target, nor more than a claim short of it. -/
theorem level_of_fraction {δ y : ℚ} {m : ℤ} {o a : ℕ} (ho : 0 < o) (hle : o ≤ 100) (ha : 0 < a)
    (h : Near δ (m / o * a) y) (hδ : δ * |(m / o * a : ℚ)| < 1 / 100) :
    (m : ℚ) / o - 1 / a ≤ ⌊y⌋ / a ∧ (⌊y⌋ : ℚ) / a ≤ m / o := by
  have hpos : (0 : ℚ) < a := Nat.cast_pos.2 ha
  have hpos' : (0 : ℚ) < o := Nat.cast_pos.2 ho
  have hx : (m : ℚ) / o * a = ((m * a : ℤ) : ℚ) / o := by
    push_cast
    ring
  have hfine : (1 : ℚ) / 100 ≤ 1 / o := one_div_le_one_div_of_le hpos' (by exact_mod_cast hle)
  rw [Near] at h
  rw [hx] at h hδ
  obtain ⟨hlower, hupper⟩ := floor_of_near ho (h.trans_lt (hδ.trans_le hfine))
  rw [← hx] at hlower hupper
  constructor
  · rwa [le_div_iff₀ hpos, sub_mul, one_div, inv_mul_cancel₀ hpos.ne']
  · rwa [div_le_iff₀ hpos]

theorem near_claims (hround : ∀ x, Near u x (round x)) (hu : 0 ≤ u) (hu₁ : u + u * (1 + u) ≤ 1)
    (h : JoinsAt servedWithin jobs i target) (a : ℕ) :
    Near ((1 + u) ^ 3 - 1) (target * a) (round (joinTarget round servedWithin jobs i * a)) := by
  have hnear := ((near_joinTarget hround hu hu₁ h).mul a).trans (hround _) hu
  rwa [show u + u * (1 + u) + u * (1 + (u + u * (1 + u))) = (1 + u) ^ 3 - 1 by ring] at hnear

theorem ratio_greatest (row : Row) (hpos : 0 < row.allocation) (x : ℚ) :
    ratio id (row.withBaseline (greatest row.claimsBaseline (some (baselineAt round row x)))) =
      min (ratio id row) (⌊round (x * row.allocation)⌋ / row.allocation) := by
  have hcast : (0 : ℚ) < row.allocation := Nat.cast_pos.2 hpos
  rw [ratio_withBaseline]
  change _ = min (((row.claimsIssued - row.claimsBaseline : ℤ) : ℚ) / row.allocation) _
  rw [min_div_div_right hcast.le, ← Int.cast_min]
  congr 2
  simp only [greatest, baselineAt, Option.elim_some]
  omega

theorem ratio_unsettle (round : ℚ → ℚ) (servedWithin joinSettle now : ℤ) (jobs : Fin n → Row)
    (i : Fin n) :
    ratio id (unsettle round servedWithin joinSettle now jobs i) = ratio id (jobs i) ∨
    ratio id (unsettle round servedWithin joinSettle now jobs i) = min (ratio id (jobs i))
      (⌊round (joinTarget round servedWithin jobs i * (jobs i).allocation)⌋ /
        (jobs i).allocation) := by
  rw [unsettle]
  split
  · next hguard =>
    rw [joinTarget]
    cases parityTarget round servedWithin jobs i with
    | none => exact .inl rfl
    | some x => exact .inr (ratio_greatest (jobs i) hguard.2.1 x)
  · exact .inl rfl

theorem ratio_joinAtParity (round : ℚ → ℚ) (servedWithin now : ℤ) (jobs : Fin n → Row)
    (i : Fin n) : ratio id (joinAtParity round servedWithin now jobs i) =
      ⌊round (joinTarget round servedWithin jobs i * (jobs i).allocation)⌋ / (jobs i).allocation :=
  ratio_withBaselineAt (jobs i) _

theorem unsettle_of_level {level : ℚ} (P : ℚ → Prop)
    (hlevel : ⌊round (joinTarget round servedWithin jobs i * (jobs i).allocation)⌋ /
      (jobs i).allocation = level) (hP : P level) :
    ratio id (unsettle round servedWithin joinSettle now jobs i) ≤ ratio id (jobs i) ∧
      (ratio id (unsettle round servedWithin joinSettle now jobs i) = ratio id (jobs i) ∨
        P (ratio id (unsettle round servedWithin joinSettle now jobs i))) := by
  rcases ratio_unsettle round servedWithin joinSettle now jobs i with h | h
  · exact ⟨h.le, .inl h⟩
  · rw [hlevel] at h
    rw [h]
    refine ⟨min_le_left _ _, ?_⟩
    rcases min_choice (ratio id (jobs i)) level with hmin | hmin
    · exact .inl hmin
    · rw [hmin]
      exact .inr hP

/-- Joining at parity and unsettling, where each operation is off by at most a part of `u`. -/
theorem level_of_round (joinSettle now : ℤ) (hround : ∀ x, Near u x (round x)) (hu : 0 ≤ u)
    (hu₁ : u + u * (1 + u) ≤ 1) (hpos : 0 < (jobs i).allocation)
    (h : JoinsAt servedWithin jobs i target) :
    (target - 1 / (jobs i).allocation - ((1 + u) ^ 3 - 1) * |target| <
        ratio id (joinAtParity round servedWithin now jobs i) ∧
      ratio id (joinAtParity round servedWithin now jobs i) ≤
        target + ((1 + u) ^ 3 - 1) * |target|) ∧
    (ratio id (unsettle round servedWithin joinSettle now jobs i) = ratio id (jobs i) ∨
      target - 1 / (jobs i).allocation - ((1 + u) ^ 3 - 1) * |target| <
        ratio id (unsettle round servedWithin joinSettle now jobs i)) := by
  have hlevel := level_of_near hpos (near_claims hround hu hu₁ h _)
  rw [ratio_joinAtParity]
  exact ⟨hlevel, (unsettle_of_level (target - 1 / (jobs i).allocation -
    ((1 + u) ^ 3 - 1) * |target| < ·) rfl hlevel.1).2⟩

theorem level_of_round_small (joinSettle now : ℤ) (hround : ∀ x, Near u x (round x)) (hu : 0 ≤ u)
    (hu₁ : u + u * (1 + u) ≤ 1) (hpos : 0 < (jobs i).allocation)
    (h : JoinsAt servedWithin jobs i target)
    (hsmall : ((1 + u) ^ 3 - 1) * (|target| * (jobs i).allocation) < 1 / 100) :
    (target - 1 / (jobs i).allocation ≤ ratio id (joinAtParity round servedWithin now jobs i) ∧
      ratio id (joinAtParity round servedWithin now jobs i) ≤ target) ∧
    (ratio id (unsettle round servedWithin joinSettle now jobs i) = ratio id (jobs i) ∨
      target - 1 / (jobs i).allocation ≤
        ratio id (unsettle round servedWithin joinSettle now jobs i)) := by
  obtain ⟨m, o, ho, hle, htarget⟩ := h.exists_fraction
  have hnear := near_claims hround hu hu₁ h (jobs i).allocation
  rw [htarget] at hnear
  have hpos' : (0 : ℚ) < (jobs i).allocation := Nat.cast_pos.2 hpos
  have hδ : ((1 + u) ^ 3 - 1) * |(m / o * (jobs i).allocation : ℚ)| < 1 / 100 := by
    rwa [abs_mul, abs_of_pos hpos', ← htarget]
  have hlevel := level_of_fraction ho hle hpos hnear hδ
  rw [← htarget] at hlevel
  rw [ratio_joinAtParity]
  exact ⟨hlevel, (unsettle_of_level (target - 1 / (jobs i).allocation ≤ ·) rfl hlevel.1).2⟩

/-- A job joins at parity, and is unsettled to no less: in exact arithmetic within a claim of the
target, and in doubles, which can find a whole number of claims a claim short of itself, all but
as close. -/
theorem joins_at_parity (servedWithin joinSettle now : ℤ) (jobs : Fin n → Row) (i : Fin n)
    (target : ℚ) (hpos : 0 < (jobs i).allocation) (h : JoinsAt servedWithin jobs i target) :
    (target - 1 / (jobs i).allocation < ratio id (joinAtParity id servedWithin now jobs i) ∧
      ratio id (joinAtParity id servedWithin now jobs i) ≤ target) ∧
    (target - 1 / (jobs i).allocation - |target| / 2 ^ 51 <
        ratio id (joinAtParity float8 servedWithin now jobs i) ∧
      ratio id (joinAtParity float8 servedWithin now jobs i) ≤ target + |target| / 2 ^ 51) ∧
    ratio id (unsettle float8 servedWithin joinSettle now jobs i) ≤ ratio id (jobs i) ∧
    (ratio id (unsettle float8 servedWithin joinSettle now jobs i) = ratio id (jobs i) ∨
      target - 1 / (jobs i).allocation - |target| / 2 ^ 51 <
        ratio id (unsettle float8 servedWithin joinSettle now jobs i)) ∧
    (|target| * (jobs i).allocation ≤ 2 ^ 44 →
      (target - 1 / (jobs i).allocation ≤ ratio id (joinAtParity float8 servedWithin now jobs i) ∧
        ratio id (joinAtParity float8 servedWithin now jobs i) ≤ target) ∧
      (ratio id (unsettle float8 servedWithin joinSettle now jobs i) = ratio id (jobs i) ∨
        target - 1 / (jobs i).allocation ≤
          ratio id (unsettle float8 servedWithin joinSettle now jobs i))) := by
  have hδ : ((1 + 1 / 2 ^ 53 : ℚ) ^ 3 - 1) ≤ 1 / 2 ^ 51 := by norm_num
  have hu : (0 : ℚ) ≤ 1 / 2 ^ 53 := by positivity
  have hu₁ : (1 / 2 ^ 53 + 1 / 2 ^ 53 * (1 + 1 / 2 ^ 53) : ℚ) ≤ 1 := by norm_num
  have hslack : ((1 + 1 / 2 ^ 53 : ℚ) ^ 3 - 1) * |target| ≤ |target| / 2 ^ 51 :=
    (mul_le_mul_of_nonneg_right hδ (abs_nonneg target)).trans_eq (by ring)
  obtain ⟨hexact, -⟩ := level_of_round joinSettle now near_id le_rfl (by norm_num) hpos h
  obtain ⟨⟨hlower, hupper⟩, hunsettle⟩ := level_of_round joinSettle now near_float8 hu hu₁
    hpos h
  refine ⟨?_, ⟨by linarith, by linarith⟩, ?_,
    hunsettle.imp_right fun h ↦ by linarith, fun hsmall ↦ ?_⟩
  · simpa using hexact
  · exact (unsettle_of_level (fun _ ↦ True) rfl trivial).1
  · refine level_of_round_small joinSettle now near_float8 hu hu₁ hpos h ?_
    calc ((1 + 1 / 2 ^ 53 : ℚ) ^ 3 - 1) * (|target| * (jobs i).allocation)
        ≤ 1 / 2 ^ 51 * 2 ^ 44 := mul_le_mul hδ hsmall (by positivity) (by positivity)
      _ < 1 / 100 := by norm_num

end Rounding

def inService (claims : ℤ) : Row := ⟨true, 49, by decide, claims, 0, claims, some 1000, some 0⟩

def joining : Row := ⟨true, 49, by decide, 7, 0, 7, none, some 900⟩

/-- Beside a job of three claims, one of as large a share joins at three. -/
theorem joins_at_parity_three :
    ratio id (joinAtParity float8 300 2000 ![joining, inService 3] 0) = 3 / 49 ∧
    (3 / 49 : ℚ) - 1 / 49 ≤ ratio id (joinAtParity float8 300 2000 ![joining, inService 3] 0) := by
  have htarget : joinTarget id 300 ![joining, inService 3] 0 = 3 / 49 := by decide +kernel
  have hjoins : JoinsAt 300 ![joining, inService 3] 0 (3 / 49) := htarget ▸ joinsAt_joinTarget
  have h := joins_at_parity 300 3600 2000 ![joining, inService 3] 0 (3 / 49) (by decide) hjoins
  exact ⟨by decide +kernel, (h.2.2.2.2 (by decide +kernel)).1.1⟩

/-- Beside a job of one claim, one of as large a share joins at none: `1 / 49 * 49` is less than one
in doubles. -/
theorem not_joins_at_parity : ¬ ∀ (n : ℕ) (servedWithin now : ℤ) (jobs : Fin n → Row) (i : Fin n)
    (target : ℚ), 0 < (jobs i).allocation → JoinsAt servedWithin jobs i target →
      target - 1 / (jobs i).allocation < ratio id (joinAtParity float8 servedWithin now jobs i) ∧
        ratio id (joinAtParity float8 servedWithin now jobs i) ≤ target := by
  intro h
  have htarget : joinTarget id 300 ![joining, inService 1] 0 = 1 / 49 := by decide +kernel
  have hjoins : JoinsAt 300 ![joining, inService 1] 0 (1 / 49) := htarget ▸ joinsAt_joinTarget
  have hlt := (h 2 300 2000 ![joining, inService 1] 0 (1 / 49) (by decide) hjoins).1
  exact absurd hlt (by decide +kernel)

end Birdtest.Scheduler.Settling
