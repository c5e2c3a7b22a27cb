import Birdtest.Base.Runs
import Birdtest.Base.Shares
import Mathlib.Data.List.Sort
import Mathlib.Data.Rat.Floor
import Mathlib.Tactic.Linarith
import Mathlib.Tactic.Ring

namespace Birdtest.Scheduler.Fairness

open Birdtest.Base.Runs Birdtest.Base.Shares

/-- What the scheduler reads and writes of an active job with a share of the fleet. Times are in
microseconds. -/
structure Job where
  allocation : ℕ
  allocation_pos : 0 < allocation
  claimsIssued : ℤ
  claimsBaseline : ℤ
  lastClaimedAt : Option ℤ
  activatedAt : Option ℤ

namespace Job

def ratio (job : Job) : ℚ := ((job.claimsIssued - job.claimsBaseline : ℤ) : ℚ) / job.allocation

def share (job : Job) : ℚ := 1 / job.allocation

end Job

variable {n : ℕ}

section Claims

def candidateJobs (jobs : Fin n → Job) : List (Fin n × Job) :=
  ((List.finRange n).map fun i ↦ (i, jobs i)).insertionSort fun a b ↦ a.2.ratio ≤ b.2.ratio

def paceFor (jobs : List (Fin n × Job)) (i : ℕ) : Option ℚ := do
  let other ← jobs[if i = 0 then 1 else 0]?
  let own ← jobs[i]?
  some (((other.2.claimsIssued - other.2.claimsBaseline - 1 : ℤ) : ℚ) / other.2.allocation -
    1 / own.2.allocation)

def others (i : Fin n) : List (Fin n) := (List.finRange n).filter (· ≠ i)

def outrun (jobs : Fin n → Job) (i : Fin n) : Bool :=
  (((others i).map fun o ↦
    (((jobs o).claimsIssued - (jobs o).claimsBaseline + 1 : ℤ) : ℚ) / (jobs o).allocation).min?).any
      (· < (jobs i).ratio)

def latestClaim (jobs : Fin n → Job) (i : Fin n) : Option ℤ :=
  ((others i).filterMap fun o ↦ (jobs o).lastClaimedAt).max?

def parityTarget (servedWithin : ℤ) (jobs : Fin n → Job) (i : Fin n) : Option ℚ :=
  (latestClaim jobs i).bind fun latest ↦
    (((others i).filter fun o ↦ (jobs o).lastClaimedAt.any (latest - servedWithin < ·)).map
      fun o ↦ (jobs o).ratio).min?

def stale (servedWithin : ℤ) (jobs : Fin n → Job) (i : Fin n) : Bool :=
  ((jobs i).lastClaimedAt.or (jobs i).activatedAt).any fun served ↦
    (latestClaim jobs i).any (served ≤ · - servedWithin)

/-- `LEAST(baseline, claims_issued - floor(target * allocation))`, the first where there is no
target. -/
def liftTo (job : Job) (baseline : ℤ) (target : Option ℚ) : ℤ :=
  target.elim baseline fun target ↦ min baseline (job.claimsIssued - ⌊target * job.allocation⌋)

def issueClaim (servedWithin joinSettle now : ℤ) (pace : Option ℚ) (jobs : Fin n → Job)
    (i : Fin n) : Job :=
  let job := jobs i
  { job with
    claimsIssued := job.claimsIssued + 1
    lastClaimedAt := some now
    claimsBaseline :=
      if stale servedWithin jobs i then
        liftTo job (liftTo job job.claimsBaseline (parityTarget servedWithin jobs i)) pace
      else if job.activatedAt.any (now - joinSettle < ·) then liftTo job job.claimsBaseline pace
      else job.claimsBaseline
    activatedAt := if stale servedWithin jobs i then some now else job.activatedAt }

/-- A claim that holds its job's dispatch lock. -/
inductive InFlight
  | checked (now : ℤ) (pace : Option ℚ)
  | issued (job : Job)

structure State (n : ℕ) where
  jobs : Fin n → Job
  /-- The candidate lists of the claims that are yet to pass a turn check. -/
  listed : ℕ → Option (List (Fin n × Job))
  /-- By job, the claim that holds its dispatch lock. -/
  dispatch : Fin n → Option InFlight

inductive Action (n : ℕ)
  | list (claim : ℕ)
  | check (claim i : ℕ) (now : ℤ) (recentlyBusy : Bool)
  | issue (i : Fin n)
  | commit (i : Fin n)
  | rollback (i : Fin n)

/-- Claims of jobs that always have work, by workers that can run every job. An `issue` is the
statement's reading of the rows, which others see changed only once the claim commits. -/
def next (servedWithin joinSettle : ℤ) (s : State n) : Action n → Option (State n)
  | .list claim =>
    some { s with listed := Function.update s.listed claim (some (candidateJobs s.jobs)) }
  | .check claim i now recentlyBusy => do
    let jobs ← s.listed claim
    let (job, _) ← jobs[i]?
    if (s.dispatch job).isSome || outrun s.jobs job then none
    else
      let pace := (paceFor jobs i).map fun pace ↦ if recentlyBusy then pace - 1 else pace
      some { s with
        listed := Function.update s.listed claim none
        dispatch := Function.update s.dispatch job (some (.checked now pace)) }
  | .issue i =>
    match s.dispatch i with
    | some (.checked now pace) =>
      let job := issueClaim servedWithin joinSettle now pace s.jobs i
      some { s with dispatch := Function.update s.dispatch i (some (.issued job)) }
    | _ => none
  | .commit i =>
    match s.dispatch i with
    | some (.issued job) =>
      some { s with
        jobs := Function.update s.jobs i job
        dispatch := Function.update s.dispatch i none }
    | _ => none
  | .rollback i => some { s with dispatch := Function.update s.dispatch i none }

def ratios (jobs : Fin n → Job) (i : Fin n) : ℚ := (jobs i).ratio

def shares (jobs : Fin n → Job) (i : Fin n) : ℚ := (jobs i).share

def start (s : State n) : Prop :=
  Level (shares s.jobs) (ratios s.jobs) ∧ (∀ claim, s.listed claim = none) ∧
    ∀ i, s.dispatch i = none

def machine (servedWithin joinSettle : ℤ) : Machine (State n) (Action n) :=
  ⟨start, next servedWithin joinSettle⟩

end Claims

section Lifts

theorem share_pos (job : Job) : 0 < job.share :=
  one_div_pos.2 (Nat.cast_pos.2 job.allocation_pos)

theorem shares_pos (jobs : Fin n → Job) (i : Fin n) : 0 < shares jobs i := share_pos (jobs i)

theorem mem_others {i o : Fin n} : o ∈ others i ↔ o ≠ i := by simp [others]

theorem turn_of_not_outrun {jobs : Fin n → Job} {i : Fin n} (h : outrun jobs i = false) :
    Turn (shares jobs) (ratios jobs) i := by
  intro j hj
  have hmem : (((jobs j).claimsIssued - (jobs j).claimsBaseline + 1 : ℤ) : ℚ) /
      (jobs j).allocation ∈
      (others i).map fun o ↦
        (((jobs o).claimsIssued - (jobs o).claimsBaseline + 1 : ℤ) : ℚ) / (jobs o).allocation :=
    List.mem_map_of_mem (mem_others.2 hj)
  obtain ⟨least, hleast⟩ := Option.isSome_iff_exists.1 (List.isSome_min?_of_mem hmem)
  have hle := (List.min?_eq_some_iff.1 hleast).2 _ hmem
  simp only [outrun, hleast, Option.any_some, decide_eq_false_iff_not, not_lt] at h
  calc (jobs i).ratio ≤ least := h
    _ ≤ _ := hle
    _ = (jobs j).ratio + (jobs j).share := by
      rw [Job.ratio, Job.share, ← add_div, Int.cast_add, Int.cast_one]

theorem parityTarget_le {servedWithin : ℤ} {jobs : Fin n → Job} {i : Fin n} {target : ℚ}
    (h : parityTarget servedWithin jobs i = some target) : ∃ k, target = ratios jobs k := by
  obtain ⟨latest, -, hmin⟩ := Option.bind_eq_some_iff.1 h
  obtain ⟨k, -, hk⟩ := List.mem_map.1 (List.min?_mem hmin)
  exact ⟨k, hk.symm⟩

theorem liftTo_le (job : Job) (baseline : ℤ) (target : Option ℚ) :
    liftTo job baseline target ≤ baseline ∧
      (liftTo job baseline target = baseline ∨ ∃ t ∈ target,
        ((job.claimsIssued - liftTo job baseline target : ℤ) : ℚ) / job.allocation ≤ t) := by
  cases target with
  | none => exact ⟨le_rfl, .inl rfl⟩
  | some t =>
    rw [liftTo, Option.elim_some]
    refine ⟨min_le_left _ _, ?_⟩
    rcases min_choice baseline (job.claimsIssued - ⌊t * job.allocation⌋) with h | h
    · exact .inl h
    · refine .inr ⟨t, rfl, ?_⟩
      rw [h, sub_sub_cancel, div_le_iff₀ (Nat.cast_pos.2 job.allocation_pos)]
      exact Int.floor_le _

/-- A claim moves its job's ratio on from a level no lower than it stood, and higher only where
the pace or, for a job that rejoins, the parity target is no lower. -/
theorem ratio_issueClaim (servedWithin joinSettle now : ℤ) (pace : Option ℚ) (jobs : Fin n → Job)
    (i : Fin n) :
    ∃ level, (issueClaim servedWithin joinSettle now pace jobs i).ratio = level + shares jobs i ∧
      ratios jobs i ≤ level ∧
      (level = ratios jobs i ∨ (∃ p ∈ pace, level ≤ p) ∨
        (stale servedWithin jobs i = true ∧ ∃ t ∈ parityTarget servedWithin jobs i,
          level ≤ t)) := by
  have hpos : (0 : ℚ) < (jobs i).allocation := Nat.cast_pos.2 (jobs i).allocation_pos
  obtain ⟨baseline, hbaseline, hle, hlift⟩ : ∃ baseline,
      (issueClaim servedWithin joinSettle now pace jobs i).claimsBaseline = baseline ∧
      baseline ≤ (jobs i).claimsBaseline ∧ (baseline = (jobs i).claimsBaseline ∨
        (∃ p ∈ pace, (((jobs i).claimsIssued - baseline : ℤ) : ℚ) / (jobs i).allocation ≤ p) ∨
        (stale servedWithin jobs i = true ∧ ∃ t ∈ parityTarget servedWithin jobs i,
          (((jobs i).claimsIssued - baseline : ℤ) : ℚ) / (jobs i).allocation ≤ t)) := by
    refine ⟨_, rfl, ?_⟩
    simp only [issueClaim]
    split
    · next hstale =>
      obtain ⟨hle, hparity⟩ := liftTo_le (jobs i) (jobs i).claimsBaseline
        (parityTarget servedWithin jobs i)
      obtain ⟨hle', hpace⟩ := liftTo_le (jobs i)
        (liftTo (jobs i) (jobs i).claimsBaseline (parityTarget servedWithin jobs i)) pace
      refine ⟨hle'.trans hle, ?_⟩
      rcases hpace with hsame | hpace
      · rw [hsame]
        exact hparity.imp_right fun h ↦ .inr ⟨hstale, h⟩
      · exact .inr (.inl hpace)
    · split
      · obtain ⟨hle, hpace⟩ := liftTo_le (jobs i) (jobs i).claimsBaseline pace
        exact ⟨hle, hpace.imp_right .inl⟩
      · exact ⟨le_rfl, .inl rfl⟩
  refine ⟨(((jobs i).claimsIssued - baseline : ℤ) : ℚ) / (jobs i).allocation, ?_, ?_, ?_⟩
  · change ((((jobs i).claimsIssued + 1 - _ : ℤ) : ℚ)) / ((jobs i).allocation : ℚ) = _
    rw [hbaseline, shares, Job.share, ← add_div]
    push_cast
    ring
  · exact div_le_div_of_nonneg_right (Int.cast_le.2 (by omega)) hpos.le
  · exact hlift.imp_left fun h ↦ by rw [h]; rfl

theorem mem_candidateJobs {jobs : Fin n → Job} {p : Fin n × Job} :
    p ∈ candidateJobs jobs ↔ p.2 = jobs p.1 := by
  rw [candidateJobs, List.mem_insertionSort, List.mem_map]
  constructor
  · rintro ⟨i, -, rfl⟩
    rfl
  · intro h
    exact ⟨p.1, List.mem_finRange _, Prod.ext rfl h.symm⟩

theorem pairwise_candidateJobs (jobs : Fin n → Job) :
    (candidateJobs jobs).Pairwise fun a b ↦ a.2.ratio ≤ b.2.ratio := by
  have : Std.Total fun a b : Fin n × Job ↦ a.2.ratio ≤ b.2.ratio := ⟨fun _ _ ↦ le_total _ _⟩
  have : IsTrans (Fin n × Job) fun a b ↦ a.2.ratio ≤ b.2.ratio := ⟨fun _ _ _ ↦ le_trans⟩
  exact List.pairwise_insertionSort _ _

def Paced (jobs : Fin n → Job) (i : Fin n) (pace : Option ℚ) : Prop :=
  ∀ p ∈ pace, (∃ j, j ≠ i) ∧ ∀ j, j ≠ i → p + shares jobs i ≤ ratios jobs j

theorem Paced.mono {jobs jobs' : Fin n → Job} {i : Fin n} {pace : Option ℚ}
    (h : Paced jobs i pace) (hshares : shares jobs' = shares jobs)
    (hratios : ∀ j, ratios jobs j ≤ ratios jobs' j) : Paced jobs' i pace := by
  intro p hp
  obtain ⟨hother, hle⟩ := h p hp
  refine ⟨hother, fun j hj ↦ ?_⟩
  rw [hshares]
  exact (hle j hj).trans (hratios j)

theorem paced_candidateJobs {jobs : Fin n → Job} {k : ℕ} {p : Fin n × Job}
    (hk : (candidateJobs jobs)[k]? = some p) :
    Paced jobs p.1 (paceFor (candidateJobs jobs) k) := by
  intro pace hpace
  simp only [paceFor, Option.bind_eq_bind] at hpace
  obtain ⟨other, hother, hpace⟩ := Option.bind_eq_some_iff.1 hpace
  rw [hk, Option.bind_some, Option.some.injEq] at hpace
  have hown := mem_candidateJobs.1 (List.mem_of_getElem? hk)
  obtain ⟨hotherlen, hotherget⟩ := List.getElem?_eq_some_iff.1 hother
  have hratio : (((other.2.claimsIssued - other.2.claimsBaseline - 1 : ℤ) : ℚ)) /
      other.2.allocation = other.2.ratio - other.2.share := by
    rw [Job.ratio, Job.share, ← sub_div, Int.cast_sub _ 1, Int.cast_one]
  constructor
  · have hklen := (List.getElem?_eq_some_iff.1 hk).1
    have hlength : (candidateJobs jobs).length = n := by
      rw [candidateJobs, List.length_insertionSort, List.length_map, List.length_finRange]
    have htwo : 2 ≤ n := by
      split at hotherlen <;> omega
    have : Nontrivial (Fin n) := Fin.nontrivial_iff_two_le.2 htwo
    exact exists_ne p.1
  · intro j hj
    have hmem : (j, jobs j) ∈ candidateJobs jobs := mem_candidateJobs.2 rfl
    obtain ⟨m, hm⟩ := List.mem_iff_getElem?.1 hmem
    obtain ⟨hlen, hget⟩ := List.getElem?_eq_some_iff.1 hm
    have hmk : m ≠ k := by
      rintro rfl
      rw [hm, Option.some.injEq] at hk
      exact hj (congrArg Prod.fst hk)
    -- The job compared with heads the list without the job claimed, so none of the rest is lower.
    have hle : (if k = 0 then 1 else 0) ≤ m := by
      split <;> omega
    have hlowest : other.2.ratio ≤ ratios jobs j := by
      rcases Nat.lt_or_eq_of_le hle with hlt | heq
      · have h := List.pairwise_iff_getElem.1 (pairwise_candidateJobs jobs) _ m hotherlen hlen hlt
        rwa [hotherget, hget] at h
      · rw [heq, hm, Option.some.injEq] at hother
        exact hother ▸ le_rfl
    calc pace + shares jobs p.1 = other.2.ratio - other.2.share := by
          rw [← hpace, hratio, hown]
          exact sub_add_cancel _ _
      _ ≤ other.2.ratio := sub_le_self _ (share_pos other.2).le
      _ ≤ ratios jobs j := hlowest

end Lifts

section Invariant

variable {servedWithin joinSettle : ℤ}

def Lifted (jobs : Fin n → Job) (i : Fin n) (job : Job) : Prop :=
  job.share = shares jobs i ∧ ∃ level, job.ratio = level + shares jobs i ∧
    ratios jobs i ≤ level ∧ ∃ k, level ≤ ratios jobs k

def InFlight.Holds (jobs : Fin n → Job) (i : Fin n) : InFlight → Prop
  | .checked _ pace => Paced jobs i pace
  | .issued job => Lifted jobs i job

structure Inv (s : State n) : Prop where
  stacked : Stacked (shares s.jobs) (ratios s.jobs)
  listed {claim : ℕ} {jobs : List (Fin n × Job)} : s.listed claim = some jobs →
    ∀ (k : ℕ) (p : Fin n × Job), jobs[k]? = some p → Paced s.jobs p.1 (paceFor jobs k)
  turn {i : Fin n} {inFlight : InFlight} : s.dispatch i = some inFlight →
    Turn (shares s.jobs) (ratios s.jobs) i
  holds {i : Fin n} {inFlight : InFlight} : s.dispatch i = some inFlight →
    inFlight.Holds s.jobs i

theorem shares_update {jobs : Fin n → Job} {i : Fin n} {job : Job}
    (h : job.share = shares jobs i) : shares (Function.update jobs i job) = shares jobs := by
  funext j
  by_cases hj : j = i
  · subst hj
    rw [shares, Function.update_self, h]
  · rw [shares, Function.update_of_ne hj, shares]

theorem ratios_update (jobs : Fin n → Job) (i : Fin n) (job : Job) :
    ratios (Function.update jobs i job) = Function.update (ratios jobs) i job.ratio := by
  funext j
  by_cases hj : j = i
  · subst hj
    rw [ratios, Function.update_self, Function.update_self]
  · rw [ratios, Function.update_of_ne hj, Function.update_of_ne hj, ratios]

theorem InFlight.Holds.mono {jobs jobs' : Fin n → Job} {i : Fin n} {inFlight : InFlight}
    (h : inFlight.Holds jobs i) (hshares : shares jobs' = shares jobs)
    (hi : ratios jobs' i = ratios jobs i) (hratios : ∀ j, ratios jobs j ≤ ratios jobs' j) :
    inFlight.Holds jobs' i := by
  cases inFlight with
  | checked now pace => exact Paced.mono h hshares hratios
  | issued job =>
    obtain ⟨hshare, level, hratio, hle, k, hk⟩ := h
    refine ⟨hshares ▸ hshare, level, hshares ▸ hratio, hi ▸ hle, k, hk.trans (hratios k)⟩

theorem lifted_issueClaim {jobs : Fin n → Job} {i : Fin n} {now : ℤ} {pace : Option ℚ}
    (h : Paced jobs i pace) :
    Lifted jobs i (issueClaim servedWithin joinSettle now pace jobs i) := by
  obtain ⟨level, hratio, hle, hlevel⟩ := ratio_issueClaim servedWithin joinSettle now pace jobs i
  refine ⟨rfl, level, hratio, hle, ?_⟩
  rcases hlevel with rfl | ⟨p, hp, hlevel⟩ | ⟨-, target, htarget, hlevel⟩
  · exact ⟨i, le_rfl⟩
  · obtain ⟨⟨j, hj⟩, hpace⟩ := h p hp
    have hpos := shares_pos jobs i
    have hle := hpace j hj
    exact ⟨j, by linarith⟩
  · obtain ⟨k, rfl⟩ := parityTarget_le htarget
    exact ⟨k, hlevel⟩

variable {s t : State n} {a : Action n}

theorem Inv.setDispatch (h : Inv s) (i : Fin n) (inFlight : Option InFlight)
    (hnew : ∀ x, inFlight = some x → Turn (shares s.jobs) (ratios s.jobs) i ∧ x.Holds s.jobs i) :
    Inv { s with dispatch := Function.update s.dispatch i inFlight } := by
  have hdispatch {j : Fin n} {x : InFlight}
      (hx : Function.update s.dispatch i inFlight j = some x) :
      Turn (shares s.jobs) (ratios s.jobs) j ∧ x.Holds s.jobs j := by
    by_cases hj : j = i
    · subst hj
      rw [Function.update_self] at hx
      exact hnew x hx
    · rw [Function.update_of_ne hj] at hx
      exact ⟨h.turn hx, h.holds hx⟩
  exact ⟨h.stacked, h.listed, fun hx ↦ (hdispatch hx).1, fun hx ↦ (hdispatch hx).2⟩

theorem Inv.setListed (h : Inv s) (claim : ℕ) (jobs : Option (List (Fin n × Job)))
    (hnew : ∀ l, jobs = some l → ∀ (k : ℕ) (p : Fin n × Job), l[k]? = some p →
      Paced s.jobs p.1 (paceFor l k)) :
    Inv { s with listed := Function.update s.listed claim jobs } := by
  refine ⟨h.stacked, fun {c l} hl ↦ ?_, h.turn, h.holds⟩
  change Function.update s.listed claim jobs c = some l at hl
  by_cases hc : c = claim
  · subst hc
    rw [Function.update_self] at hl
    exact hnew l hl
  · rw [Function.update_of_ne hc] at hl
    exact h.listed hl

theorem Inv.commit (h : Inv s) {i : Fin n} {job : Job}
    (hi : s.dispatch i = some (.issued job)) :
    Inv { s with
      jobs := Function.update s.jobs i job
      dispatch := Function.update s.dispatch i none } := by
  obtain ⟨hshare, level, hratio, hle, hlevel⟩ := h.holds hi
  have hpos := shares_pos s.jobs
  have hshares : shares (Function.update s.jobs i job) = shares s.jobs := shares_update hshare
  have hratios : ratios (Function.update s.jobs i job) =
      Function.update (ratios s.jobs) i (level + shares s.jobs i) := by
    rw [ratios_update, hratio]
  have hmono (j : Fin n) : ratios s.jobs j ≤ ratios (Function.update s.jobs i job) j := by
    rw [hratios]
    exact le_update hpos hle j
  have hdispatch {j : Fin n} {x : InFlight} (hx : Function.update s.dispatch i none j = some x) :
      s.dispatch j = some x ∧ ratios (Function.update s.jobs i job) j = ratios s.jobs j := by
    by_cases hj : j = i
    · subst hj
      rw [Function.update_self] at hx
      exact nomatch hx
    · rw [Function.update_of_ne hj] at hx
      exact ⟨hx, by rw [ratios, Function.update_of_ne hj, ratios]⟩
  constructor
  · rw [hshares, hratios]
    exact h.stacked.update hpos (h.turn hi) hle hlevel
  · intro claim jobs hjobs k p hp
    exact (h.listed hjobs k p hp).mono hshares hmono
  · intro j x hx
    obtain ⟨hx, hj⟩ := hdispatch hx
    rw [hshares]
    exact (h.turn hx).mono hj hmono
  · intro j x hx
    obtain ⟨hx, hj⟩ := hdispatch hx
    exact (h.holds hx).mono hshares hj hmono

theorem Inv.next (h : Inv s) (hs : next servedWithin joinSettle s a = some t) : Inv t := by
  cases a with
  | list claim =>
    simp only [Fairness.next, Option.some.injEq] at hs
    subst hs
    apply h.setListed
    intro l hl k p hp
    cases hl
    exact paced_candidateJobs hp
  | check claim k now recentlyBusy =>
    simp only [Fairness.next, Option.bind_eq_bind] at hs
    obtain ⟨jobs, hjobs, hs⟩ := Option.bind_eq_some_iff.1 hs
    obtain ⟨⟨i, job⟩, hk, hs⟩ := Option.bind_eq_some_iff.1 hs
    simp only [Option.ite_none_left_eq_some, Bool.or_eq_true, not_or, Bool.not_eq_true,
      Option.some.injEq] at hs
    obtain ⟨⟨-, hturn⟩, rfl⟩ := hs
    have hpaced := h.listed hjobs k (i, job) hk
    apply (h.setListed claim none nofun).setDispatch
    intro x hx
    cases hx
    refine ⟨turn_of_not_outrun hturn, ?_⟩
    intro p hp
    obtain ⟨q, hq, rfl⟩ := Option.map_eq_some_iff.1 hp
    obtain ⟨hother, hle⟩ := hpaced q hq
    refine ⟨hother, fun j hj ↦ ?_⟩
    have hle := hle j hj
    split
    · linarith
    · exact hle
  | issue i =>
    simp only [Fairness.next] at hs
    split at hs
    · next now pace hi =>
      rw [Option.some.injEq] at hs
      subst hs
      apply h.setDispatch
      intro x hx
      cases hx
      exact ⟨h.turn hi, lifted_issueClaim (h.holds hi)⟩
    · exact nomatch hs
  | commit i =>
    simp only [Fairness.next] at hs
    split at hs
    · next job hi =>
      rw [Option.some.injEq] at hs
      subst hs
      exact h.commit hi
    · exact nomatch hs
  | rollback i =>
    simp only [Fairness.next, Option.some.injEq] at hs
    subst hs
    apply h.setDispatch
    exact nofun

theorem inv_of_reachable (h : (machine servedWithin joinSettle).Reachable s) : Inv s := by
  apply h.invariant
  · rintro s ⟨hlevel, hlisted, hdispatch⟩
    refine ⟨hlevel.stacked (shares_pos s.jobs), ?_, ?_, ?_⟩
    · intro claim jobs hjobs
      rw [hlisted claim] at hjobs
      exact nomatch hjobs
    · intro i x hx
      rw [hdispatch i] at hx
      exact nomatch hx
    · intro i x hx
      rw [hdispatch i] at hx
      exact nomatch hx
  · exact fun s a t hi _ hs ↦ hi.next hs

end Invariant

section Rejoins

variable {servedWithin joinSettle : ℤ} {s t : State n} {a : Action n}

/-- A job that rejoins does so no more than a claim past any other job. -/
def RejoinsLevel (servedWithin : ℤ) (s : State n) : Action n → Prop
  | .issue i => stale servedWithin s.jobs i = true → ∀ target ∈ parityTarget servedWithin s.jobs i,
      ∀ j, j ≠ i → target ≤ (s.jobs j).ratio + (s.jobs j).share
  | _ => True

structure LevelInv (s : State n) : Prop where
  level : Level (shares s.jobs) (ratios s.jobs)
  issued {i : Fin n} {job : Job} : s.dispatch i = some (.issued job) →
    ∀ j, j ≠ i → job.ratio ≤ ratios s.jobs j + shares s.jobs j + shares s.jobs i

theorem LevelInv.setDispatch (h : LevelInv s) (i : Fin n) (inFlight : Option InFlight)
    (hnew : ∀ job, inFlight = some (.issued job) →
      ∀ j, j ≠ i → job.ratio ≤ ratios s.jobs j + shares s.jobs j + shares s.jobs i) :
    LevelInv { s with dispatch := Function.update s.dispatch i inFlight } := by
  refine ⟨h.level, fun {k job} hk ↦ ?_⟩
  change Function.update s.dispatch i inFlight k = some (.issued job) at hk
  by_cases hki : k = i
  · subst hki
    rw [Function.update_self] at hk
    exact hnew job hk
  · rw [Function.update_of_ne hki] at hk
    exact h.issued hk

theorem LevelInv.issue (h : LevelInv s) {i : Fin n} {now : ℤ} {pace : Option ℚ}
    (hturn : Turn (shares s.jobs) (ratios s.jobs) i) (hpaced : Paced s.jobs i pace)
    (hok : RejoinsLevel servedWithin s (.issue i)) :
    LevelInv { s with
      dispatch := Function.update s.dispatch i
        (some (.issued (issueClaim servedWithin joinSettle now pace s.jobs i))) } := by
  apply h.setDispatch
  intro job hjob j hj
  cases hjob
  obtain ⟨level, hratio, -, hlevel⟩ := ratio_issueClaim servedWithin joinSettle now pace s.jobs i
  rw [hratio]
  apply add_le_add_left
  rcases hlevel with rfl | ⟨p, hp, hlevel⟩ | ⟨hstale, target, htarget, hlevel⟩
  · exact hturn j hj
  · have hle := (hpaced p hp).2 j hj
    have hi := shares_pos s.jobs i
    have hj := shares_pos s.jobs j
    linarith
  · exact hlevel.trans (hok hstale target htarget j hj)

theorem LevelInv.commit (h : LevelInv s) (hinv : Inv s) {i : Fin n} {job : Job}
    (hi : s.dispatch i = some (.issued job)) :
    LevelInv { s with
      jobs := Function.update s.jobs i job
      dispatch := Function.update s.dispatch i none } := by
  obtain ⟨hshare, level, hratio, hle, -⟩ := hinv.holds hi
  have hpos := shares_pos s.jobs
  have hshares : shares (Function.update s.jobs i job) = shares s.jobs := shares_update hshare
  have hratios : ratios (Function.update s.jobs i job) =
      Function.update (ratios s.jobs) i (level + shares s.jobs i) := by
    rw [ratios_update, hratio]
  have hlevel (j : Fin n) (hj : j ≠ i) : level ≤ ratios s.jobs j + shares s.jobs j := by
    have hle := h.issued hi j hj
    rw [hratio] at hle
    exact le_of_add_le_add_right hle
  constructor
  · rw [hshares, hratios]
    exact h.level.update hpos (hinv.turn hi) hle hlevel
  · intro k job' hk j hj
    change Function.update s.dispatch i none k = some (.issued job') at hk
    by_cases hki : k = i
    · subst hki
      rw [Function.update_self] at hk
      exact nomatch hk
    · rw [Function.update_of_ne hki] at hk
      rw [hshares, hratios]
      have hmono := le_update hpos hle j
      exact (h.issued hk j hj).trans (add_le_add_left (add_le_add_left hmono _) _)

theorem LevelInv.next (h : LevelInv s) (hinv : Inv s) (hok : RejoinsLevel servedWithin s a)
    (hs : next servedWithin joinSettle s a = some t) : LevelInv t := by
  cases a with
  | list claim =>
    simp only [Fairness.next, Option.some.injEq] at hs
    subst hs
    exact ⟨h.level, h.issued⟩
  | check claim k now recentlyBusy =>
    simp only [Fairness.next, Option.bind_eq_bind] at hs
    obtain ⟨jobs, -, hs⟩ := Option.bind_eq_some_iff.1 hs
    obtain ⟨⟨i, job⟩, -, hs⟩ := Option.bind_eq_some_iff.1 hs
    simp only [Option.ite_none_left_eq_some, Option.some.injEq] at hs
    obtain ⟨-, rfl⟩ := hs
    obtain ⟨hlevel, hissued⟩ := h.setDispatch i (some (.checked now _)) nofun
    exact ⟨hlevel, hissued⟩
  | issue i =>
    simp only [Fairness.next] at hs
    split at hs
    · next now pace hi =>
      rw [Option.some.injEq] at hs
      subst hs
      exact h.issue (hinv.turn hi) (hinv.holds hi) hok
    · exact nomatch hs
  | commit i =>
    simp only [Fairness.next] at hs
    split at hs
    · next job hi =>
      rw [Option.some.injEq] at hs
      subst hs
      exact h.commit hinv hi
    · exact nomatch hs
  | rollback i =>
    simp only [Fairness.next, Option.some.injEq] at hs
    subst hs
    apply h.setDispatch
    exact nofun

/-- In every interleaving of claims a job is past another by at most one claim of each job; and by
at most a claim of each of the two, if no job has rejoined further than a claim past another. -/
theorem ratio_le (h : (machine servedWithin joinSettle).Reachable s) :
    (∀ i j, (s.jobs i).ratio ≤ (s.jobs j).ratio + ∑ k, (s.jobs k).share) ∧
    ((machine servedWithin joinSettle).ReachableBy (RejoinsLevel servedWithin) s →
      ∀ i j, (s.jobs i).ratio ≤ (s.jobs j).ratio + (s.jobs i).share + (s.jobs j).share) := by
  refine ⟨(inv_of_reachable h).stacked.le_add_sum (shares_pos s.jobs), fun hok ↦ ?_⟩
  have hlevel : LevelInv s := by
    apply hok.invariant_of (fun s ↦ inv_of_reachable)
    · rintro s ⟨hlevel, -, hdispatch⟩
      refine ⟨hlevel, fun {i job} hi ↦ ?_⟩
      rw [hdispatch i] at hi
      exact nomatch hi
    · exact fun s a t hinv hi hok hs ↦ hi.next hinv hok hs
  exact hlevel.level

def quietJobs (_ : Fin 3) : Job := ⟨1, Nat.one_pos, 0, 0, some 7200000000, some 0⟩

def quiet : State 3 := ⟨quietJobs, fun _ ↦ none, fun _ ↦ none⟩

theorem start_quiet : start quiet := by
  refine ⟨fun i j ↦ ?_, fun _ ↦ rfl, fun _ ↦ rfl⟩
  have hi := shares_pos quietJobs i
  have hj := shares_pos quietJobs j
  have heq : ratios quietJobs i = ratios quietJobs j := rfl
  change ratios quietJobs i ≤ ratios quietJobs j + shares quietJobs i + shares quietJobs j
  linarith

instance (servedWithin : ℤ) (s : State n) :
    (a : Action n) → Decidable (RejoinsLevel servedWithin s a)
  | .issue i => inferInstanceAs (Decidable (stale servedWithin s.jobs i = true →
      ∀ target ∈ parityTarget servedWithin s.jobs i,
      ∀ j, j ≠ i → target ≤ (s.jobs j).ratio + (s.jobs j).share))
  | .list _ | .check .. | .commit _ | .rollback _ => inferInstanceAs (Decidable True)

/-- The first job has moved a claim on when the others rejoin. -/
theorem exists_ratio_le : ∃ s : State 3,
    (machine 300000000 3600000000).ReachableBy (RejoinsLevel 300000000) s ∧
    (s.jobs 0).ratio = 1 ∧ (s.jobs 1).ratio = 2 ∧
    (∀ i j, (s.jobs i).ratio ≤ (s.jobs j).ratio + ∑ k, (s.jobs k).share) ∧
    ∀ i j, (s.jobs i).ratio ≤ (s.jobs j).ratio + (s.jobs i).share + (s.jobs j).share := by
  have h : (machine 300000000 3600000000).ReachableBy (RejoinsLevel 300000000) quiet :=
    .start start_quiet
  obtain ⟨s, hs, hp⟩ := h.follow_any
    [.list 0, .check 0 0 10800000000 false, .issue 0, .commit 0,
      .list 1, .check 1 0 10801000000 false, .issue 1, .commit 1]
    (fun s ↦ (s.jobs 0).ratio = 1 ∧ (s.jobs 1).ratio = 2) (by decide +kernel)
  obtain ⟨hzero, hone⟩ := of_decide_eq_true hp
  have hle := ratio_le hs.reachable
  exact ⟨s, hs, hzero, hone, hle.1, hle.2 hs⟩

/-- Two claims that listed the jobs together have moved the first job two claims on when the
second rejoins level with it, past the third. -/
theorem not_ratio_le : ¬ ∀ (n : ℕ) (servedWithin joinSettle : ℤ) (s : State n),
    (machine servedWithin joinSettle).Reachable s →
      ∀ i j, (s.jobs i).ratio ≤ (s.jobs j).ratio + (s.jobs i).share + (s.jobs j).share := by
  intro hle
  have h : (machine 300000000 3600000000).Reachable quiet := .start start_quiet
  obtain ⟨s, hs, hp⟩ := h.follow_any
    [.list 0, .list 1, .check 0 0 10800000000 false, .issue 0, .commit 0,
      .check 1 0 10800000000 false, .issue 0, .commit 0,
      .list 2, .check 2 0 10801000000 false, .issue 1, .commit 1]
    (fun s ↦ (s.jobs 2).ratio + (s.jobs 1).share + (s.jobs 2).share < (s.jobs 1).ratio)
    (by decide +kernel)
  exact absurd (of_decide_eq_true hp) (not_lt.2 (hle 3 _ _ s hs 1 2))

end Rejoins

end Birdtest.Scheduler.Fairness
