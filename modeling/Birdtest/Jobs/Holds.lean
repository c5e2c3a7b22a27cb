import Birdtest.Base.Crowd
import Birdtest.Base.Runs
import Birdtest.Base.Tables

namespace Birdtest.Jobs.Holds

open Birdtest.Base.Crowd Birdtest.Base.Runs Birdtest.Base.Tables

/-- What a hold holds besides the job's dispatch lock: nothing else, or every open claim as well. -/
inductive HoldKind
  | dispatchOnly
  | claims
  deriving DecidableEq

/-- `[usize; 2]` -/
abbrev Counts := HoldKind → ℕ

def Counts.zero : Counts := fun _ ↦ 0

def Counts.isZero (counts : Counts) : Bool := counts .dispatchOnly = 0 ∧ counts .claims = 0

structure HoldsInner (J : Type) where
  held : Table J Counts
  reclaimNotBefore : Table J ℕ
  claimsHoldsTaken : Table J ℕ

def HoldsInner.new {J : Type} : HoldsInner J := ⟨.empty, .empty, .empty⟩

structure DispatchHold (J : Type) where
  job : J
  kind : HoldKind
  grace : ℕ
  committed : Bool
  deriving DecidableEq

section Operations

variable {J : Type} [DecidableEq J] (inner : HoldsInner J) (job : J)

def HoldsInner.counts : Counts := (inner.held.get job).getD .zero

def HoldsInner.add (kind : HoldKind) : HoldsInner J :=
  { inner with
    held := inner.held.put job
      (Function.update (inner.counts job) kind (inner.counts job kind + 1)) }

def hold (kind : HoldKind) (grace : ℕ) : HoldsInner J × DispatchHold J :=
  (inner.add job kind, ⟨job, kind, grace, false⟩)

def claimsHoldsTaken : ℕ := (inner.claimsHoldsTaken.get job).getD 0

def tryClaims (grace : ℕ) (counted : Bool) : HoldsInner J × Option (DispatchHold J) :=
  if 0 < inner.counts job .claims then
    ({ inner with held := inner.held.put job (inner.counts job) }, none)
  else
    let inner := inner.add job .claims
    let inner := if counted then
        { inner with
          claimsHoldsTaken := inner.claimsHoldsTaken.put job (claimsHoldsTaken inner job + 1) }
      else inner
    (inner, some ⟨job, .claims, grace, false⟩)

def tryHoldClaims (grace : ℕ) : HoldsInner J × Option (DispatchHold J) :=
  tryClaims inner job grace true

def tryHoldClaimsUncounted (grace : ℕ) : HoldsInner J × Option (DispatchHold J) :=
  tryClaims inner job grace false

def isHeld : Bool := (inner.held.get job).isSome

def claimsHeld : Bool := (inner.held.get job).any fun counts ↦ 0 < counts .claims

def anyClaimsHeld : Bool := inner.held.rows.any fun entry ↦ 0 < entry.2 .claims

def reclaimable (now : ℕ) (jobs : List J) : HoldsInner J × List J :=
  let inner := { inner with reclaimNotBefore := inner.reclaimNotBefore.retain (now < ·) }
  (inner, jobs.filter fun job ↦ (inner.reclaimNotBefore.get job).isNone)

def HoldsInner.lower (counts : Counts) : HoldsInner J :=
  { inner with
    held := if Counts.isZero counts then inner.held.filter (· ≠ job)
      else inner.held.put job counts }

def HoldsInner.release (hold : DispatchHold J) : HoldsInner J :=
  match inner.held.get hold.job with
  | some counts =>
    inner.lower hold.job (Function.update counts hold.kind (counts hold.kind - 1))
  | none => inner

def drop (hold : DispatchHold J) (now : ℕ) : HoldsInner J :=
  let inner := inner.release hold
  if hold.kind = .claims ∧ ¬ hold.committed then
    { inner with reclaimNotBefore := inner.reclaimNotBefore.put hold.job (now + hold.grace) }
  else inner

end Operations

section Counts

variable {J : Type} [DecidableEq J] {inner : HoldsInner J} {job job' : J} {kind kind' : HoldKind}
variable {hold : DispatchHold J} {counts : Counts}

theorem Counts.isZero_iff : Counts.isZero counts = true ↔ counts = .zero := by
  rw [isZero, decide_eq_true_iff]
  constructor
  · rintro ⟨hdispatch, hclaims⟩
    funext kind
    cases kind with
    | dispatchOnly => exact hdispatch
    | claims => exact hclaims
  · rintro rfl
    exact ⟨rfl, rfl⟩

theorem Counts.update_apply (n : ℕ) :
    Function.update counts kind n kind' = if kind = kind' then n else counts kind' := by
  by_cases hkind : kind = kind'
  · rw [hkind, Function.update_self, if_pos rfl]
  · rw [Function.update_of_ne (Ne.symm hkind), if_neg hkind]

theorem counts_put : ({ inner with held := inner.held.put job counts } : HoldsInner J).counts job' =
    if job = job' then counts else inner.counts job' := by
  by_cases hjob : job = job'
  · rw [if_pos hjob, ← hjob, HoldsInner.counts, Table.get_put_self, Option.getD_some]
  · rw [if_neg hjob, HoldsInner.counts, Table.get_put_of_ne (Ne.symm hjob), HoldsInner.counts]

theorem counts_add : (inner.add job kind).counts job' kind' =
    inner.counts job' kind' + if job = job' ∧ kind = kind' then 1 else 0 := by
  rw [HoldsInner.add, counts_put]
  by_cases hjob : job = job'
  · rw [if_pos hjob, hjob, Counts.update_apply]
    by_cases hkind : kind = kind' <;> simp [hkind]
  · simp [hjob]

theorem get_put_ne_zero (h : inner.held.get job' ≠ some .zero) (hcounts : counts ≠ .zero) :
    (inner.held.put job counts).get job' ≠ some .zero := by
  by_cases hjob : job' = job
  · rw [hjob, Table.get_put_self]
    exact fun heq ↦ hcounts (Option.some.inj heq)
  · rwa [Table.get_put_of_ne hjob]

theorem get_add_ne_zero (h : inner.held.get job' ≠ some .zero) :
    (inner.add job kind).held.get job' ≠ some .zero := by
  refine get_put_ne_zero h fun heq ↦ ?_
  have := congrFun heq kind
  rw [Function.update_self] at this
  exact Nat.succ_ne_zero _ this

theorem counts_lower :
    (inner.lower job counts).counts job' = if job = job' then counts else inner.counts job' := by
  by_cases hzero : Counts.isZero counts = true
  · rw [HoldsInner.lower, HoldsInner.counts, if_pos hzero, Table.get_filter]
    by_cases hjob : job = job'
    · simp [hjob, Counts.isZero_iff.1 hzero]
    · simp [hjob, Ne.symm hjob, HoldsInner.counts]
  · rw [HoldsInner.lower, if_neg hzero]
    exact counts_put

theorem get_lower_ne_zero (h : inner.held.get job' ≠ some .zero) :
    (inner.lower job counts).held.get job' ≠ some .zero := by
  by_cases hzero : Counts.isZero counts = true
  · rw [HoldsInner.lower, if_pos hzero, Table.get_filter]
    split_ifs
    · exact h
    · intro hnone
      cases hnone
  · rw [HoldsInner.lower, if_neg hzero]
    exact get_put_ne_zero h fun heq ↦ hzero (Counts.isZero_iff.2 heq)

theorem release_eq (h : 0 < inner.counts hold.job hold.kind) :
    inner.release hold = inner.lower hold.job (Function.update (inner.counts hold.job) hold.kind
      (inner.counts hold.job hold.kind - 1)) := by
  rw [HoldsInner.release]
  cases hget : inner.held.get hold.job with
  | none =>
    rw [HoldsInner.counts, hget] at h
    exact absurd h (Nat.lt_irrefl 0)
  | some counts =>
    have hcounts : inner.counts hold.job = counts := by
      rw [HoldsInner.counts, hget, Option.getD_some]
    rw [hcounts]

theorem counts_release (h : 0 < inner.counts hold.job hold.kind) :
    (inner.release hold).counts job' kind' +
    (if hold.job = job' ∧ hold.kind = kind' then 1 else 0) =
      inner.counts job' kind' := by
  rw [release_eq h, counts_lower]
  by_cases hjob : hold.job = job'
  · rw [if_pos hjob, Counts.update_apply, ← hjob]
    by_cases hkind : hold.kind = kind'
    · simp only [hkind] at h
      simp only [hkind, and_self, if_true]
      omega
    · simp [hkind]
  · simp [hjob]

end Counts

section Run

variable {J : Type} [DecidableEq J]

/-- A guard that has not been dropped; `tried` is whether a try gave it. -/
structure Guard (J : Type) where
  hold : DispatchHold J
  tried : Bool
  deriving DecidableEq

inductive Event (J : Type)
  /-- A `try_hold_claims` of the job was given its guard. -/
  | took (job : J)
  | dropped (hold : DispatchHold J) (instant : ℕ)

/-- The holds, the guards that are live, the clock, and what has happened, newest first. -/
structure State (J : Type) where
  inner : HoldsInner J
  guards : Multiset (Guard J)
  now : ℕ
  log : List (Event J)

inductive Act (J : Type)
  | hold (job : J) (kind : HoldKind) (grace : ℕ)
  | tryHoldClaims (job : J) (grace : ℕ)
  | tryHoldClaimsUncounted (job : J) (grace : ℕ)
  | committed (g : Guard J)
  | drop (g : Guard J)
  | reclaimable (jobs : List J)
  | pass (time : ℕ)

def next (s : State J) : Act J → Option (State J)
  | .hold job kind grace =>
    let (inner, hold) := hold s.inner job kind grace
    some { s with inner, guards := ⟨hold, false⟩ ::ₘ s.guards }
  | .tryHoldClaims job grace => match tryHoldClaims s.inner job grace with
    | (inner, some hold) =>
      some { s with inner, guards := ⟨hold, true⟩ ::ₘ s.guards, log := .took job :: s.log }
    | (inner, none) => some { s with inner }
  | .tryHoldClaimsUncounted job grace => match tryHoldClaimsUncounted s.inner job grace with
    | (inner, some hold) => some { s with inner, guards := ⟨hold, true⟩ ::ₘ s.guards }
    | (inner, none) => some { s with inner }
  | .committed g =>
    if g ∈ s.guards then
      some { s with
        guards := move s.guards g (some { g with hold := { g.hold with committed := true } }) }
    else none
  | .drop g =>
    if g ∈ s.guards then
      some { s with
        inner := drop s.inner g.hold s.now
        guards := move s.guards g none
        log := .dropped g.hold s.now :: s.log }
    else none
  | .reclaimable jobs => some { s with inner := (reclaimable s.inner s.now jobs).1 }
  | .pass time => some { s with now := s.now + time }

def machine : Machine (State J) (Act J) := ⟨(· = ⟨.new, 0, 0, []⟩), next⟩

def taken (log : List (Event J)) (job : J) : ℕ := log.countP fun
  | .took job' => job' = job
  | .dropped .. => false

/-- When the grace ends of the job's last claims guard that was dropped without `committed`. -/
def graceEnd (log : List (Event J)) (job : J) : Option ℕ := log.findSome? fun
  | .took _ => none
  | .dropped hold instant =>
    if hold.job = job ∧ hold.kind = .claims ∧ hold.committed = false then
      some (instant + hold.grace)
    else none

def live (guards : Multiset (Guard J)) (job : J) (kind : HoldKind) : ℕ :=
  guards.countP fun g ↦ g.hold.job = job ∧ g.hold.kind = kind

/-- The held counts are those of the live guards. -/
structure Counted (inner : HoldsInner J) (guards : Multiset (Guard J)) : Prop where
  held : ∀ job kind, inner.counts job kind = live guards job kind
  nonzero : ∀ job, inner.held.get job ≠ some .zero
  tried : ∀ job, guards.countP (fun g ↦ g.hold.job = job ∧ g.tried = true) ≤ 1
  triedClaims : ∀ g ∈ guards, g.tried = true → g.hold.kind = .claims

/-- The other two maps are those of what has happened. -/
structure Recorded (inner : HoldsInner J) (log : List (Event J)) (now : ℕ) : Prop where
  taken : ∀ job, claimsHoldsTaken inner job = taken log job
  spared : ∀ job t, inner.reclaimNotBefore.get job = some t → graceEnd log job = some t
  grace : ∀ job t, graceEnd log job = some t → now < t → inner.reclaimNotBefore.get job = some t

end Run

section Counted

variable {J : Type} [DecidableEq J] {inner inner' : HoldsInner J} {guards : Multiset (Guard J)}
variable {job : J} {kind : HoldKind} {grace : ℕ} {tried : Bool} {g : Guard J}

theorem Counted.congr (h : Counted inner guards) (hheld : inner'.held = inner.held) :
    Counted inner' guards where
  held job kind := by
    rw [← h.held, HoldsInner.counts, hheld, HoldsInner.counts]
  nonzero job := hheld ▸ h.nonzero job
  tried := h.tried
  triedClaims := h.triedClaims

theorem Counted.add (h : Counted inner guards)
    (htried : tried = true → kind = .claims ∧ inner.counts job .claims = 0) :
    Counted (inner.add job kind) (⟨⟨job, kind, grace, false⟩, tried⟩ ::ₘ guards) where
  held job' kind' := by
    rw [counts_add, h.held, live, live, Multiset.countP_cons]
  nonzero _ := get_add_ne_zero (h.nonzero _)
  tried job' := by
    rw [Multiset.countP_cons]
    split_ifs with hnew
    · obtain ⟨rfl, htrue⟩ := hnew
      obtain ⟨-, hnone⟩ := htried htrue
      rw [h.held, live, Multiset.countP_eq_zero] at hnone
      have : guards.countP (fun g ↦ g.hold.job = job ∧ g.tried = true) = 0 :=
        Multiset.countP_eq_zero.2 fun g hg ⟨hjob, hg'⟩ ↦ hnone g hg ⟨hjob, h.triedClaims g hg hg'⟩
      exact (congrArg (· + 1) this).le
    · exact h.tried job'
  triedClaims := Multiset.forall_mem_cons.2 ⟨fun htrue ↦ (htried htrue).1, h.triedClaims⟩

theorem Counted.refuse (h : Counted inner guards) (hheld : 0 < inner.counts job .claims) :
    Counted { inner with held := inner.held.put job (inner.counts job) } guards where
  held job' kind := by
    rw [counts_put, ← h.held]
    split_ifs with hjob
    · rw [hjob]
    · rfl
  nonzero _ := get_put_ne_zero (h.nonzero _) fun heq ↦ hheld.ne' (congrFun heq .claims)
  tried := h.tried
  triedClaims := h.triedClaims

theorem Counted.commit (h : Counted inner guards) (hg : g ∈ guards) : Counted inner
    (move guards g (some { g with hold := { g.hold with committed := true } })) where
  held job kind := by
    have := countP_move (p := fun g : Guard J ↦ g.hold.job = job ∧ g.hold.kind = kind) hg
      (some { g with hold := { g.hold with committed := true } })
    rw [h.held, live, live]
    exact (Nat.add_right_cancel this).symm
  nonzero := h.nonzero
  tried job := by
    have := countP_move (p := fun g : Guard J ↦ g.hold.job = job ∧ g.tried = true) hg
      (some { g with hold := { g.hold with committed := true } })
    exact (Nat.add_right_cancel this).trans_le (h.tried job)
  triedClaims := forall_move h.triedClaims fun x hx ↦ by
    cases hx
    exact h.triedClaims g hg

theorem Counted.pos (h : Counted inner guards) (hg : g ∈ guards) :
    0 < inner.counts g.hold.job g.hold.kind := by
  rw [h.held]
  exact Multiset.countP_pos_of_mem hg ⟨rfl, rfl⟩

theorem Counted.release (h : Counted inner guards) (hg : g ∈ guards) :
    Counted (inner.release g.hold) (move guards g none) where
  held job kind := by
    have hmove := countP_move (p := fun g : Guard J ↦ g.hold.job = job ∧ g.hold.kind = kind) hg none
    have hrelease : (inner.release g.hold).counts job kind +
        (if g.hold.job = job ∧ g.hold.kind = kind then 1 else 0) = inner.counts job kind :=
      counts_release (h.pos hg)
    rw [h.held, live] at hrelease
    rw [live]
    exact Nat.add_right_cancel (hrelease.trans hmove.symm)
  nonzero job := by
    rw [release_eq (h.pos hg)]
    exact get_lower_ne_zero (h.nonzero job)
  tried job := by
    have hmove := countP_move (p := fun g : Guard J ↦ g.hold.job = job ∧ g.tried = true) hg none
    exact (Nat.le_add_right ..).trans (hmove.trans_le (h.tried job))
  triedClaims := forall_move h.triedClaims nofun

end Counted

section Recorded

variable {J : Type} [DecidableEq J] {inner inner' : HoldsInner J} {log : List (Event J)}
variable {job job' : J} {now time : ℕ} {hold : DispatchHold J}

theorem Recorded.congr (h : Recorded inner log now)
    (htaken : inner'.claimsHoldsTaken = inner.claimsHoldsTaken)
    (hspared : inner'.reclaimNotBefore = inner.reclaimNotBefore) : Recorded inner' log now where
  taken job := by
    rw [← h.taken, claimsHoldsTaken, claimsHoldsTaken, htaken]
  spared := by
    rw [hspared]
    exact h.spared
  grace := by
    rw [hspared]
    exact h.grace

theorem Recorded.took (h : Recorded inner log now) : Recorded
    { inner with
      claimsHoldsTaken := inner.claimsHoldsTaken.put job (claimsHoldsTaken inner job + 1) }
    (.took job :: log) now where
  taken job' := by
    have hcons : Holds.taken (.took job :: log) job' =
        Holds.taken log job' + if job = job' then 1 else 0 := by
      rw [Holds.taken, List.countP_cons]
      by_cases hjob : job = job' <;> simp [hjob, Holds.taken]
    rw [hcons, ← h.taken]
    by_cases hjob : job = job'
    · rw [if_pos hjob, ← hjob, claimsHoldsTaken, Table.get_put_self, Option.getD_some]
    · rw [if_neg hjob, claimsHoldsTaken, Table.get_put_of_ne (Ne.symm hjob), claimsHoldsTaken,
        Nat.add_zero]
  spared := h.spared
  grace := h.grace

theorem release_claimsHoldsTaken : (inner.release hold).claimsHoldsTaken =
    inner.claimsHoldsTaken := by
  rw [HoldsInner.release]
  split <;> rfl

theorem release_reclaimNotBefore : (inner.release hold).reclaimNotBefore =
    inner.reclaimNotBefore := by
  rw [HoldsInner.release]
  split <;> rfl

theorem graceEnd_dropped : graceEnd (.dropped hold now :: log) job =
    if hold.job = job ∧ hold.kind = .claims ∧ hold.committed = false then some (now + hold.grace)
    else graceEnd log job := by
  rw [graceEnd, List.findSome?_cons]
  by_cases hspared : hold.job = job ∧ hold.kind = .claims ∧ hold.committed = false
  · simp [hspared]
  · simp only [if_neg hspared]
    rfl

theorem Recorded.drop (h : Recorded inner log now) :
    Recorded (drop inner hold now) (.dropped hold now :: log) now := by
  have hbase : Recorded (inner.release hold) log now :=
    h.congr release_claimsHoldsTaken release_reclaimNotBefore
  rw [Holds.drop]
  split_ifs with hspared
  · obtain ⟨hkind, hcommitted⟩ := hspared
    rw [Bool.not_eq_true] at hcommitted
    refine ⟨hbase.taken, fun job t ht ↦ ?_, fun job t ht hlt ↦ ?_⟩
    · rw [graceEnd_dropped]
      by_cases hjob : hold.job = job
      · rw [if_pos ⟨hjob, hkind, hcommitted⟩]
        rwa [← hjob, Table.get_put_self] at ht
      · rw [if_neg fun hall ↦ hjob hall.1]
        rw [Table.get_put_of_ne (Ne.symm hjob)] at ht
        exact hbase.spared job t ht
    · rw [graceEnd_dropped] at ht
      by_cases hjob : hold.job = job
      · rw [if_pos ⟨hjob, hkind, hcommitted⟩] at ht
        rwa [← hjob, Table.get_put_self]
      · rw [if_neg fun hall ↦ hjob hall.1] at ht
        rw [Table.get_put_of_ne (Ne.symm hjob)]
        exact hbase.grace job t ht hlt
  · have hlog : ∀ job, graceEnd (.dropped hold now :: log) job = graceEnd log job := by
      intro job
      rw [graceEnd_dropped, if_neg]
      rintro ⟨-, hkind, hcommitted⟩
      exact hspared ⟨hkind, by rw [hcommitted]; exact Bool.false_ne_true⟩
    refine ⟨hbase.taken, fun job t ht ↦ ?_, fun job t ht hlt ↦ ?_⟩
    · rw [hlog]
      exact hbase.spared job t ht
    · rw [hlog] at ht
      exact hbase.grace job t ht hlt

theorem Recorded.reclaimable (h : Recorded inner log now) (jobs : List J) :
    Recorded (reclaimable inner now jobs).1 log now where
  taken := h.taken
  spared job t ht := by
    rw [Holds.reclaimable, Table.get_retain, Option.filter_eq_some_iff] at ht
    exact h.spared job t ht.1
  grace job t ht hlt := by
    rw [Holds.reclaimable, Table.get_retain, Option.filter_eq_some_iff]
    exact ⟨h.grace job t ht hlt, decide_eq_true hlt⟩

theorem Recorded.pass (h : Recorded inner log now) : Recorded inner log (now + time) where
  taken := h.taken
  spared := h.spared
  grace job t ht hlt := h.grace job t ht ((Nat.le_add_right ..).trans_lt hlt)

/-- The jobs left out are those still within the grace of their last such drop. -/
theorem Recorded.reclaimable_eq (h : Recorded inner log now) (jobs : List J) :
    (Holds.reclaimable inner now jobs).2 =
      jobs.filter fun job ↦ ¬ (graceEnd log job).any (now < ·) := by
  rw [Holds.reclaimable]
  refine List.filter_congr fun job _ ↦ ?_
  rw [Table.get_retain]
  cases hend : graceEnd log job with
  | none =>
    cases hget : inner.reclaimNotBefore.get job with
    | none => rfl
    | some t => cases hend.symm.trans (h.spared job t hget)
  | some t =>
    by_cases hlt : now < t
    · simp [h.grace job t hend hlt, hlt]
    · cases hget : inner.reclaimNotBefore.get job with
      | none => simp [hlt]
      | some t' =>
        cases hend.symm.trans (h.spared job t' hget)
        simp [hlt]

end Recorded

section Exact

variable {J : Type} [DecidableEq J] {s t : State J} {inner : HoldsInner J} {a : Act J} {job : J}
variable {guards : Multiset (Guard J)} {grace : ℕ} {counted : Bool}

theorem tryClaims_cases (inner : HoldsInner J) (job : J) (grace : ℕ) (counted : Bool) :
    (0 < inner.counts job .claims ∧ tryClaims inner job grace counted =
      ({ inner with held := inner.held.put job (inner.counts job) }, none)) ∨
    (inner.counts job .claims = 0 ∧ tryClaims inner job grace counted =
      (if counted then
        { inner.add job .claims with
          claimsHoldsTaken := inner.claimsHoldsTaken.put job (claimsHoldsTaken inner job + 1) }
        else inner.add job .claims, some ⟨job, .claims, grace, false⟩)) := by
  rw [tryClaims]
  by_cases hheld : 0 < inner.counts job .claims
  · exact .inl ⟨hheld, if_pos hheld⟩
  · exact .inr ⟨Nat.eq_zero_of_not_pos hheld, if_neg hheld⟩

structure Inv (s : State J) : Prop where
  counted : Counted s.inner s.guards
  recorded : Recorded s.inner s.log s.now

theorem Inv.tryHoldClaims (h : Inv s) (hstep : next s (.tryHoldClaims job grace) = some t) :
    Inv t := by
  rcases tryClaims_cases s.inner job grace true with ⟨hheld, heq⟩ | ⟨hfree, heq⟩
  · rw [next, Holds.tryHoldClaims, heq] at hstep
    cases hstep
    exact ⟨h.counted.refuse hheld, h.recorded.congr rfl rfl⟩
  · rw [next, Holds.tryHoldClaims, heq] at hstep
    cases hstep
    exact ⟨(h.counted.add fun _ ↦ ⟨rfl, hfree⟩).congr rfl, h.recorded.took.congr rfl rfl⟩

theorem Inv.tryHoldClaimsUncounted (h : Inv s)
    (hstep : next s (.tryHoldClaimsUncounted job grace) = some t) : Inv t := by
  rcases tryClaims_cases s.inner job grace false with ⟨hheld, heq⟩ | ⟨hfree, heq⟩
  · rw [next, Holds.tryHoldClaimsUncounted, heq] at hstep
    cases hstep
    exact ⟨h.counted.refuse hheld, h.recorded.congr rfl rfl⟩
  · rw [next, Holds.tryHoldClaimsUncounted, heq] at hstep
    cases hstep
    exact ⟨h.counted.add fun _ ↦ ⟨rfl, hfree⟩, h.recorded.congr rfl rfl⟩

theorem drop_held {hold : DispatchHold J} {now : ℕ} :
    (drop inner hold now).held = (inner.release hold).held := by
  rw [drop]
  split_ifs <;> rfl

theorem Inv.next (h : Inv s) (hstep : next s a = some t) : Inv t := by
  cases a with
  | hold job kind grace =>
    cases hstep
    exact ⟨h.counted.add nofun, h.recorded.congr rfl rfl⟩
  | tryHoldClaims job grace => exact h.tryHoldClaims hstep
  | tryHoldClaimsUncounted job grace => exact h.tryHoldClaimsUncounted hstep
  | committed g =>
    obtain ⟨hg, heq⟩ := Option.ite_none_right_eq_some.1 hstep
    cases heq
    exact ⟨h.counted.commit hg, h.recorded⟩
  | drop g =>
    obtain ⟨hg, heq⟩ := Option.ite_none_right_eq_some.1 hstep
    cases heq
    exact ⟨(h.counted.release hg).congr drop_held, h.recorded.drop⟩
  | reclaimable jobs =>
    cases hstep
    exact ⟨h.counted.congr rfl, h.recorded.reclaimable jobs⟩
  | pass time =>
    cases hstep
    exact ⟨h.counted, h.recorded.pass⟩

theorem Inv.start : Inv (⟨.new, 0, 0, []⟩ : State J) where
  counted := ⟨fun _ _ ↦ rfl, fun _ ↦ nofun, fun _ ↦ Nat.zero_le _,
    fun _ hg ↦ absurd hg (Multiset.notMem_zero _)⟩
  recorded := ⟨fun _ ↦ rfl, fun _ _ ↦ nofun, fun _ _ ↦ nofun⟩

theorem inv_of_reachable (h : machine.Reachable s) : Inv s :=
  h.invariant (fun _ hs ↦ hs ▸ Inv.start) fun _ _ _ hinv _ hstep ↦ hinv.next hstep

theorem Counted.isHeld_iff (h : Counted inner guards) :
    isHeld inner job = true ↔ ∃ g ∈ guards, g.hold.job = job := by
  rw [isHeld, Option.isSome_iff_exists]
  constructor
  · rintro ⟨counts, hget⟩
    have hcounts : inner.counts job = counts := by rw [HoldsInner.counts, hget, Option.getD_some]
    by_contra hnone
    refine h.nonzero job (hget.trans (congrArg some (funext fun kind ↦ ?_)))
    rw [← hcounts, h.held]
    exact Multiset.countP_eq_zero.2 fun g hg hjob ↦ hnone ⟨g, hg, hjob.1⟩
  · rintro ⟨g, hg, rfl⟩
    have hpos := h.pos hg
    rw [HoldsInner.counts] at hpos
    cases hget : inner.held.get g.hold.job with
    | none =>
      rw [hget] at hpos
      exact absurd hpos (Nat.lt_irrefl 0)
    | some counts => exact ⟨counts, rfl⟩

theorem claimsHeld_iff_counts : claimsHeld inner job = true ↔ 0 < inner.counts job .claims := by
  rw [claimsHeld, HoldsInner.counts]
  cases inner.held.get job with
  | none => exact ⟨nofun, fun h ↦ absurd h (Nat.lt_irrefl 0)⟩
  | some counts => exact decide_eq_true_iff

theorem Counted.claimsHeld_iff (h : Counted inner guards) :
    claimsHeld inner job = true ↔ ∃ g ∈ guards, g.hold.job = job ∧ g.hold.kind = .claims := by
  rw [claimsHeld_iff_counts, h.held, live, Multiset.countP_pos]

theorem anyClaimsHeld_iff : anyClaimsHeld inner = true ↔ ∃ job, claimsHeld inner job = true := by
  rw [anyClaimsHeld, List.any_eq_true]
  constructor
  · rintro ⟨⟨job, counts⟩, hmem, hpos⟩
    refine ⟨job, ?_⟩
    rw [claimsHeld, Table.mem_rows.1 hmem]
    exact hpos
  · rintro ⟨job, hheld⟩
    rw [claimsHeld, Option.any_eq_true] at hheld
    obtain ⟨counts, hget, hpos⟩ := hheld
    exact ⟨(job, counts), Table.mem_rows.2 hget, hpos⟩

theorem log_suffix (hstep : next s a = some t) : s.log <:+ t.log := by
  cases a with
  | hold job kind grace => cases hstep; exact List.suffix_rfl
  | tryHoldClaims job grace =>
    rcases tryClaims_cases s.inner job grace true with ⟨-, heq⟩ | ⟨-, heq⟩
    · rw [next, tryHoldClaims, heq] at hstep
      cases hstep
      exact List.suffix_rfl
    · rw [next, tryHoldClaims, heq] at hstep
      cases hstep
      exact List.suffix_cons ..
  | tryHoldClaimsUncounted job grace =>
    rcases tryClaims_cases s.inner job grace false with ⟨-, heq⟩ | ⟨-, heq⟩
    · rw [next, tryHoldClaimsUncounted, heq] at hstep
      cases hstep
      exact List.suffix_rfl
    · rw [next, tryHoldClaimsUncounted, heq] at hstep
      cases hstep
      exact List.suffix_rfl
  | committed g =>
    obtain ⟨-, heq⟩ := Option.ite_none_right_eq_some.1 hstep
    cases heq
    exact List.suffix_rfl
  | drop g =>
    obtain ⟨-, heq⟩ := Option.ite_none_right_eq_some.1 hstep
    cases heq
    exact List.suffix_cons ..
  | reclaimable jobs => cases hstep; exact List.suffix_rfl
  | pass time => cases hstep; exact List.suffix_rfl

/-- The holds answer exactly for the live guards, and for what has been tried and dropped. -/
theorem holds_exact (h : machine.Reachable s) :
    (∀ job kind, s.inner.counts job kind = live s.guards job kind) ∧
    (∀ job, s.inner.held.get job ≠ some .zero) ∧
    (∀ g ∈ s.guards, 0 < s.inner.counts g.hold.job g.hold.kind) ∧
    (∀ job, isHeld s.inner job = true ↔ ∃ g ∈ s.guards, g.hold.job = job) ∧
    (∀ job, claimsHeld s.inner job = true ↔
      ∃ g ∈ s.guards, g.hold.job = job ∧ g.hold.kind = .claims) ∧
    (anyClaimsHeld s.inner = true ↔ ∃ g ∈ s.guards, g.hold.kind = .claims) ∧
    (∀ job, s.guards.countP (fun g ↦ g.hold.job = job ∧ g.tried = true) ≤ 1) ∧
    (∀ jobs, (reclaimable s.inner s.now jobs).2 =
      jobs.filter fun job ↦ ¬ (graceEnd s.log job).any (s.now < ·)) ∧
    ∀ job, claimsHoldsTaken s.inner job = taken s.log job ∧
      ∀ a t, next s a = some t → claimsHoldsTaken s.inner job ≤ claimsHoldsTaken t.inner job := by
  have hinv := inv_of_reachable h
  refine ⟨hinv.counted.held, hinv.counted.nonzero, fun g hg ↦ hinv.counted.pos hg,
    fun job ↦ hinv.counted.isHeld_iff, fun job ↦ hinv.counted.claimsHeld_iff, ?_,
    hinv.counted.tried,
    hinv.recorded.reclaimable_eq, fun job ↦ ⟨hinv.recorded.taken job, fun a t hstep ↦ ?_⟩⟩
  · simp only [anyClaimsHeld_iff, hinv.counted.claimsHeld_iff]
    exact ⟨fun ⟨_, g, hg, _, hkind⟩ ↦ ⟨g, hg, hkind⟩, fun ⟨g, hg, hkind⟩ ↦ ⟨_, g, hg, rfl, hkind⟩⟩
  · rw [hinv.recorded.taken, (hinv.next hstep).recorded.taken]
    exact (log_suffix hstep).sublist.countP_le

/-- A seeding, then two purges one after the other. -/
theorem exists_holds_exact : ∃ s : State ℕ, machine.Reachable s ∧ claimsHoldsTaken s.inner 0 = 2 ∧
    s.inner.counts 0 .claims = live s.guards 0 .claims := by
  have hrun : ∃ s, (machine (J := ℕ)).follow (fun _ _ ↦ True) ⟨.new, 0, 0, []⟩
      [.hold 0 .dispatchOnly 1, .tryHoldClaims 0 1, .drop ⟨⟨0, .claims, 1, false⟩, true⟩,
        .tryHoldClaims 0 1] = some s ∧ claimsHoldsTaken s.inner 0 = 2 :=
    ⟨_, rfl, rfl⟩
  obtain ⟨s, hs, htaken⟩ := hrun
  have hreach : machine.Reachable s := Machine.ReachableBy.follow (.start rfl) hs
  exact ⟨s, hreach, htaken, (holds_exact hreach).1 0 .claims⟩

end Exact

end Birdtest.Jobs.Holds
