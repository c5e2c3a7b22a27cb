import Birdtest.Base.Runs
import Birdtest.Base.Tables
import Mathlib.Data.Nat.Notation
import Mathlib.Logic.Function.Basic

namespace Birdtest.Jobstats

open Birdtest.Base.Runs
open Birdtest.Base.Tables (of_update_eq_some)

variable {J : Type}

/-- A payload with the instant its build started, in nanoseconds. The JSON is known by the build
that made it. -/
structure CachedPayload where
  started : ℕ
  json : ℕ
  deriving DecidableEq

structure Build (J : Type) where
  job : J
  started : ℕ
  running : Bool
  deriving DecidableEq

structure State (J : Type) where
  now : ℕ
  payloads : J → Option CachedPayload
  forgotten : J → Option ℕ
  builds : ℕ → Option (Build J)
  /-- The calls of `forget` that have read the clock and wait for the payloads' lock. -/
  calls : ℕ → Option (J × ℕ)
  /-- The calls of `forget` that have returned, and when each was made. -/
  returned : List (J × ℕ)

inductive Action (J : Type)
  | tick (elapsed : ℕ)
  | start (build : ℕ) (job : J)
  | finish (build : ℕ)
  | fail (build : ℕ)
  | call (call : ℕ) (job : J)
  | forget (call : ℕ)

section Cache

variable [DecidableEq J]

def forgottenKept : ℕ := 3600 * 1000000000

def buildPayload (maxAge : ℕ) (s : State J) (job : J) (started json : ℕ) :
    (J → Option CachedPayload) × Bool :=
  if maxAge = 0 then (s.payloads, true)
  else
    let superseded := (s.forgotten job).any (started < ·) ||
      (s.payloads job).any fun entry ↦ started < entry.started
    let payloads := fun k ↦ (s.payloads k).filter fun entry ↦ s.now - entry.started < maxAge
    (if superseded then payloads else Function.update payloads job (some ⟨started, json⟩),
      !superseded)

def refreshPayload (maxAge : ℕ) (s : State J) (build : ℕ) : Option ℕ :=
  (s.builds build).bind fun b ↦
    if (buildPayload maxAge s b.job b.started build).2 || maxAge = 0 then some build else none

def cachedPayload (maxAge : ℕ) (s : State J) (job : J) (since : Option ℕ) : Option ℕ :=
  ((s.payloads job).filter fun entry ↦
    s.now - entry.started < maxAge || since.any (· ≤ entry.started + maxAge)).map (·.json)

def forget (s : State J) (job : J) (now : ℕ) : State J :=
  { s with
    payloads := Function.update s.payloads job none
    forgotten := Function.update
      (fun k ↦ (s.forgotten k).filter fun mark ↦ now - mark < forgottenKept) job (some now)
    returned := (job, now) :: s.returned }

def next (maxAge : ℕ) (s : State J) : Action J → Option (State J)
  | .tick elapsed => some { s with now := s.now + elapsed }
  | .start build job =>
    if (s.builds build).isSome then none
    else some { s with builds := Function.update s.builds build (some ⟨job, s.now, true⟩) }
  | .finish build =>
    match s.builds build with
    | some ⟨job, started, true⟩ => some { s with
        payloads := (buildPayload maxAge s job started build).1
        builds := Function.update s.builds build (some ⟨job, started, false⟩) }
    | _ => none
  | .fail build =>
    match s.builds build with
    | some ⟨job, started, true⟩ =>
      some { s with builds := Function.update s.builds build (some ⟨job, started, false⟩) }
    | _ => none
  | .call call job => some { s with calls := Function.update s.calls call (some (job, s.now)) }
  | .forget call =>
    match s.calls call with
    | some (job, now) =>
      some { forget s job now with calls := Function.update s.calls call none }
    | none => none

def start (s : State J) : Prop :=
  (∀ job, s.payloads job = none) ∧ (∀ job, s.forgotten job = none) ∧
    (∀ build, s.builds build = none) ∧ (∀ call, s.calls call = none) ∧ s.returned = []

/-- Builds, for requests and for live pushes, and calls of `forget`, of all the jobs. -/
def machine (maxAge : ℕ) : Machine (State J) (Action J) := ⟨start, next maxAge⟩

end Cache

section Current

def State.Running (s : State J) (build : ℕ) (job : J) (started : ℕ) : Prop :=
  s.builds build = some ⟨job, started, true⟩

/-- A build of the job that started then is not kept. -/
def State.Marked (s : State J) (job : J) (started : ℕ) : Prop :=
  ∃ mark, s.forgotten job = some mark ∧ started < mark

/-- No mark is lost that some running build has to find: a `forget` writes its mark over none
later, and drops for its age none that a build started before. And no payload is dropped, for its
age or by a `forget`, while a build that started before it runs and will not find a mark. -/
def InOrder (maxAge : ℕ) (s : State J) : Action J → Prop
  | .forget call => ∀ job called, s.calls call = some (job, called) →
      (∀ mark, s.forgotten job = some mark → mark ≤ called) ∧
      (∀ k mark, k ≠ job → s.forgotten k = some mark → forgottenKept ≤ called - mark →
        ∀ build started, s.Running build k started → mark ≤ started) ∧
      (∀ entry, s.payloads job = some entry → ∀ build started, s.Running build job started →
        started < entry.started → started < called)
  | .finish build => ∀ job started, s.Running build job started →
      ∀ k entry, s.payloads k = some entry → maxAge ≤ s.now - entry.started →
        (k = job → started < entry.started) → ∀ other started', other ≠ build →
          s.Running other k started' → started' < entry.started → s.Marked k started'
  | _ => True

structure Inv (s : State J) : Prop where
  built {job : J} {entry : CachedPayload} : s.payloads job = some entry →
    s.builds entry.json = some ⟨job, entry.started, false⟩
  started_le {build : ℕ} {b : Build J} : s.builds build = some b → b.started ≤ s.now
  call_le {call : ℕ} {job : J} {called : ℕ} : s.calls call = some (job, called) → called ≤ s.now
  returned_le {job : J} {called : ℕ} : (job, called) ∈ s.returned → called ≤ s.now
  mark {job : J} {mark : ℕ} : s.forgotten job = some mark → (job, mark) ∈ s.returned
  current {job : J} {called : ℕ} {entry : CachedPayload} : (job, called) ∈ s.returned →
    s.payloads job = some entry → called ≤ entry.started
  marked {job : J} {called build started : ℕ} : (job, called) ∈ s.returned →
    s.Running build job started → called ≤ started ∨ s.Marked job started

variable [DecidableEq J] {maxAge : ℕ} {s t : State J} {a : Action J}

omit [DecidableEq J] in
theorem not_marked_iff {job : J} {started : ℕ} :
    (s.forgotten job).any (started < ·) = false ↔ ¬ s.Marked job started := by
  cases h : s.forgotten job <;> simp [State.Marked, h]

theorem buildPayload_eq_some {job k : J} {started json : ℕ} {entry : CachedPayload}
    (h : (buildPayload maxAge s job started json).1 k = some entry) :
    s.payloads k = some entry ∨ (k = job ∧ entry = ⟨started, json⟩ ∧ ¬ s.Marked job started ∧
      ∀ old, s.payloads job = some old → old.started ≤ started) := by
  simp only [buildPayload] at h
  split at h
  · exact .inl h
  · split at h
    · exact .inl (Option.eq_some_of_filter_eq_some h)
    · next hsuperseded =>
      rw [Bool.not_eq_true, Bool.or_eq_false_iff, not_marked_iff] at hsuperseded
      obtain ⟨hmark, hold⟩ := hsuperseded
      dsimp only at h
      by_cases hk : k = job
      · subst hk
        rw [Function.update_self, Option.some.injEq] at h
        refine .inr ⟨rfl, h.symm, hmark, fun old hpayload ↦ ?_⟩
        simpa [hpayload] using hold
      · rw [Function.update_of_ne hk] at h
        exact .inl (Option.eq_some_of_filter_eq_some h)

theorem buildPayload_eq_none {job k : J} {started json : ℕ}
    (h : (buildPayload maxAge s job started json).1 k = none) :
    s.payloads k = none ∨ ∃ entry, s.payloads k = some entry ∧ maxAge ≤ s.now - entry.started ∧
      (k = job → started < entry.started ∨ s.Marked job started) := by
  cases hpayload : s.payloads k with
  | none => exact .inl rfl
  | some entry =>
    refine .inr ⟨entry, rfl, ?_⟩
    simp only [buildPayload] at h
    split at h
    · exact absurd h (by simp [hpayload])
    · split at h
      · next hsuperseded =>
        refine ⟨by simpa [hpayload] using h, ?_⟩
        rintro rfl
        rw [Bool.or_eq_true, hpayload] at hsuperseded
        rcases hsuperseded with hmark | hold
        · exact .inr (not_not.1 fun hnot ↦ by simp [not_marked_iff.2 hnot] at hmark)
        · exact .inl (by simpa using hold)
      · dsimp only at h
        by_cases hk : k = job
        · subst hk
          rw [Function.update_self] at h
          exact nomatch h
        · rw [Function.update_of_ne hk] at h
          exact ⟨by simpa [hpayload] using h, fun heq ↦ absurd heq hk⟩

theorem not_marked_of_kept {job : J} {started json : ℕ} (hage : maxAge ≠ 0)
    (h : (buildPayload maxAge s job started json).2 = true) : ¬ s.Marked job started := by
  rw [buildPayload, if_neg hage] at h
  simp only [Bool.not_eq_true', Bool.or_eq_false_iff] at h
  exact not_marked_iff.1 h.1

/-- Of a job's own mark, one no earlier stands once a call that is in order returns; another's is
dropped only where no running build has to find it. -/
theorem marked_forget {job k : J} {called build started : ℕ} (hrunning : s.Running build k started)
    (hlater : ∀ mark, s.forgotten job = some mark → mark ≤ called)
    (hdropped : ∀ k mark, k ≠ job → s.forgotten k = some mark → forgottenKept ≤ called - mark →
      ∀ build started, s.Running build k started → mark ≤ started)
    (h : s.Marked k started) : (forget s job called).Marked k started := by
  obtain ⟨mark, hmark, hlt⟩ := h
  by_cases hk : k = job
  · subst hk
    exact ⟨called, by simp only [forget, Function.update_self],
      Nat.lt_of_lt_of_le hlt (hlater mark hmark)⟩
  · refine ⟨mark, ?_, hlt⟩
    simp only [forget, Function.update_of_ne hk, hmark]
    rw [Option.filter_some_pos]
    rw [decide_eq_true_eq]
    by_contra hnot
    have hle := hdropped k mark hk hmark (Nat.not_lt.1 hnot) build started hrunning
    omega

omit [DecidableEq J] in
theorem running_of_ended {build b : ℕ} {job k : J} {started started' : ℕ}
    (h : Function.update s.builds build (some ⟨job, started, false⟩) b =
      some ⟨k, started', true⟩) : b ≠ build ∧ s.Running b k started' := by
  obtain ⟨-, hended⟩ | hother := of_update_eq_some h
  · cases hended
  · exact hother

omit [DecidableEq J] in
theorem ended_le (h : Inv s) {build b : ℕ} {job : J} {started : ℕ} {b' : Build J}
    (hrunning : s.Running build job started)
    (hb : Function.update s.builds build (some ⟨job, started, false⟩) b = some b') :
    b'.started ≤ s.now := by
  obtain ⟨-, rfl⟩ | ⟨-, hb⟩ := of_update_eq_some hb
  · have hle : started ≤ s.now := h.started_le hrunning
    exact hle
  · exact h.started_le hb

omit [DecidableEq J] in
theorem Inv.fail (h : Inv s) {build : ℕ} {job : J} {started : ℕ}
    (hrunning : s.Running build job started) :
    Inv { s with builds := Function.update s.builds build (some ⟨job, started, false⟩) } where
  built {k entry} hk := by
    have hne : entry.json ≠ build := by
      rintro rfl
      have hbuilt := h.built hk
      rw [hrunning] at hbuilt
      simp at hbuilt
    exact (Function.update_of_ne hne ..).trans (h.built hk)
  started_le hb := ended_le h hrunning hb
  call_le := h.call_le
  returned_le := h.returned_le
  mark := h.mark
  current := h.current
  marked hreturned hb := h.marked hreturned (running_of_ended hb).2

theorem Inv.finish (h : Inv s) {build : ℕ} {job : J} {started : ℕ}
    (hrunning : s.Running build job started) :
    Inv { s with
      payloads := (buildPayload maxAge s job started build).1
      builds := Function.update s.builds build (some ⟨job, started, false⟩) } := by
  have hended := h.fail hrunning
  refine ⟨?_, hended.started_le, h.call_le, h.returned_le, h.mark, ?_, hended.marked⟩
  · intro k entry hk
    rcases buildPayload_eq_some hk with hold | ⟨rfl, rfl, -⟩
    · exact hended.built hold
    · exact Function.update_self ..
  · intro k called entry hreturned hk
    rcases buildPayload_eq_some hk with hold | ⟨rfl, rfl, hmark, -⟩
    · exact h.current hreturned hold
    · exact (h.marked hreturned hrunning).resolve_right hmark

omit [DecidableEq J] in
theorem Inv.start (h : Inv s) {build : ℕ} {job : J} (hfree : s.builds build = none) :
    Inv { s with builds := Function.update s.builds build (some ⟨job, s.now, true⟩) } where
  built {k entry} hk := by
    have hne : entry.json ≠ build := by
      rintro rfl
      have hbuilt := h.built hk
      rw [hfree] at hbuilt
      exact nomatch hbuilt
    exact (Function.update_of_ne hne ..).trans (h.built hk)
  started_le {b b'} hb := by
    obtain ⟨-, rfl⟩ | ⟨-, hb⟩ := of_update_eq_some hb
    · exact Nat.le_refl _
    · exact h.started_le hb
  call_le := h.call_le
  returned_le := h.returned_le
  mark := h.mark
  current := h.current
  marked {k called b started} hreturned hb := by
    obtain ⟨-, hstarted⟩ | ⟨-, hb⟩ := of_update_eq_some hb
    · have hle := h.returned_le hreturned
      cases hstarted
      exact .inl hle
    · exact h.marked hreturned hb

theorem Inv.forget (h : Inv s) {call : ℕ} {job : J} {called : ℕ}
    (hcall : s.calls call = some (job, called))
    (hlater : ∀ mark, s.forgotten job = some mark → mark ≤ called)
    (hdropped : ∀ k mark, k ≠ job → s.forgotten k = some mark → forgottenKept ≤ called - mark →
      ∀ build started, s.Running build k started → mark ≤ started) :
    Inv { forget s job called with calls := Function.update s.calls call none } where
  built {k entry} hk := by
    by_cases hkj : k = job
    · subst hkj
      simp [Jobstats.forget] at hk
    · simp only [Jobstats.forget, Function.update_of_ne hkj] at hk
      exact h.built hk
  started_le := h.started_le
  call_le {c k called'} hc := by
    by_cases heq : c = call
    · subst heq
      simp at hc
    · simp only [Function.update_of_ne heq] at hc
      exact h.call_le hc
  returned_le hreturned := by
    rcases List.mem_cons.1 hreturned with heq | hreturned
    · cases heq
      exact h.call_le hcall
    · exact h.returned_le hreturned
  mark {k mark} hk := by
    by_cases hkj : k = job
    · subst hkj
      simp only [Jobstats.forget, Function.update_self, Option.some.injEq] at hk
      exact hk ▸ List.mem_cons_self
    · simp only [Jobstats.forget, Function.update_of_ne hkj] at hk
      exact List.mem_cons_of_mem _ (h.mark (Option.eq_some_of_filter_eq_some hk))
  current {k called' entry} hreturned hk := by
    by_cases hkj : k = job
    · subst hkj
      simp [Jobstats.forget] at hk
    · simp only [Jobstats.forget, Function.update_of_ne hkj] at hk
      rcases List.mem_cons.1 hreturned with heq | hreturned
      · exact absurd (congrArg Prod.fst heq) hkj
      · exact h.current hreturned hk
  marked {k called' b started} hreturned hb := by
    rcases List.mem_cons.1 hreturned with heq | hreturned
    · cases heq
      rcases Nat.lt_or_ge started called with hlt | hge
      · exact .inr ⟨called, by simp only [Jobstats.forget, Function.update_self], hlt⟩
      · exact .inl hge
    · exact (h.marked hreturned hb).imp_right (marked_forget hb hlater hdropped)

theorem Inv.next (h : Inv s) (hok : InOrder maxAge s a) (hs : next maxAge s a = some t) :
    Inv t := by
  cases a with
  | tick elapsed =>
    simp only [Jobstats.next, Option.some.injEq] at hs
    subst hs
    have hle {called : ℕ} (hcalled : called ≤ s.now) : called ≤ s.now + elapsed := by omega
    exact ⟨h.built, fun hb ↦ hle (h.started_le hb), fun hc ↦ hle (h.call_le hc),
      fun hr ↦ hle (h.returned_le hr), h.mark, h.current, h.marked⟩
  | start build job =>
    simp only [Jobstats.next, Option.ite_none_left_eq_some, Option.not_isSome_iff_eq_none,
      Option.some.injEq] at hs
    obtain ⟨hfree, rfl⟩ := hs
    exact h.start hfree
  | finish build =>
    simp only [Jobstats.next] at hs
    split at hs
    · next job started hrunning =>
      rw [Option.some.injEq] at hs
      subst hs
      exact h.finish hrunning
    · exact nomatch hs
  | fail build =>
    simp only [Jobstats.next] at hs
    split at hs
    · next job started hrunning =>
      rw [Option.some.injEq] at hs
      subst hs
      exact h.fail hrunning
    · exact nomatch hs
  | call call job =>
    simp only [Jobstats.next, Option.some.injEq] at hs
    subst hs
    refine ⟨h.built, h.started_le, ?_, h.returned_le, h.mark, h.current, h.marked⟩
    intro c k called hc
    by_cases heq : c = call
    · subst heq
      simp only [Function.update_self, Option.some.injEq, Prod.mk.injEq] at hc
      exact Nat.le_of_eq hc.2.symm
    · simp only [Function.update_of_ne heq] at hc
      exact h.call_le hc
  | forget call =>
    simp only [Jobstats.next] at hs
    split at hs
    · next job called hcall =>
      rw [Option.some.injEq] at hs
      subst hs
      obtain ⟨hlater, hdropped, -⟩ := hok job called hcall
      exact h.forget hcall hlater hdropped
    · exact nomatch hs

theorem inv_of_reachableBy (h : (machine maxAge).ReachableBy (InOrder maxAge) s) : Inv s := by
  apply h.invariant
  · rintro s ⟨hpayloads, hforgotten, hbuilds, hcalls, hreturned⟩
    have hnone {k : J} {called : ℕ} (h : (k, called) ∈ s.returned) : False := by
      rw [hreturned] at h
      exact List.not_mem_nil h
    refine ⟨?_, ?_, ?_, fun h ↦ (hnone h).elim, ?_, fun h ↦ (hnone h).elim,
      fun h ↦ (hnone h).elim⟩
    · intro job entry h
      exact nomatch (hpayloads job).symm.trans h
    · intro build b h
      exact nomatch (hbuilds build).symm.trans h
    · intro call job called h
      exact nomatch (hcalls call).symm.trans h
    · intro job mark h
      exact nomatch (hforgotten job).symm.trans h
  · exact fun s a t hi hok hs ↦ hi.next hok hs

/-- Once a payload was kept, the job's payload is none built from an earlier start, nor will a
build that runs put one there. -/
structure Since (job : J) (kept : ℕ) (s : State J) : Prop where
  le_now : kept ≤ s.now
  payload {entry : CachedPayload} : s.payloads job = some entry → kept ≤ entry.started
  running {build started : ℕ} : s.payloads job = none → s.Running build job started →
    kept ≤ started ∨ s.Marked job started

theorem Since.finish {job : J} {kept : ℕ} (h : Since job kept s) (hinv : Inv s) {build : ℕ} {k : J}
    {started : ℕ} (hrunning : s.Running build k started)
    (hok : InOrder maxAge s (.finish build)) :
    Since job kept { s with
      payloads := (buildPayload maxAge s k started build).1
      builds := Function.update s.builds build (some ⟨k, started, false⟩) } := by
  refine ⟨h.le_now, fun {entry} hentry ↦ ?_, fun {b started'} hnone hb ↦ ?_⟩
  · rcases buildPayload_eq_some hentry with hold | ⟨rfl, rfl, hmark, hreplaced⟩
    · exact h.payload hold
    · cases hpayload : s.payloads job with
      | none => exact (h.running hpayload hrunning).resolve_right hmark
      | some old => exact Nat.le_trans (h.payload hpayload) (hreplaced old hpayload)
  · obtain ⟨hne, hb⟩ := running_of_ended hb
    rcases buildPayload_eq_none hnone with hnone | ⟨entry, hentry, hage, hsuperseded⟩
    · exact h.running hnone hb
    · have hkept := h.payload hentry
      have hlater (heq : job = k) : started < entry.started := by
        rcases hsuperseded heq with hlt | ⟨mark, hmark, hlt⟩
        · exact hlt
        · have hle := hinv.current (hinv.mark (heq ▸ hmark)) hentry
          omega
      rcases Nat.lt_or_ge started' entry.started with hlt | hge
      · exact .inr (hok k started hrunning job entry hentry hage hlater b started' hne hb hlt)
      · exact .inl (Nat.le_trans hkept hge)

theorem Since.forget {job : J} {kept : ℕ} (h : Since job kept s) {call : ℕ} {k : J} {called : ℕ}
    (hcall : s.calls call = some (k, called)) (hok : InOrder maxAge s (.forget call)) :
    Since job kept { forget s k called with calls := Function.update s.calls call none } := by
  obtain ⟨hlater, hdropped, hentry⟩ := hok k called hcall
  refine ⟨h.le_now, fun {entry} hpayload ↦ ?_, fun {b started} hnone hb ↦ ?_⟩
  · by_cases hjob : job = k
    · subst hjob
      simp [Jobstats.forget] at hpayload
    · simp only [Jobstats.forget, Function.update_of_ne hjob] at hpayload
      exact h.payload hpayload
  · by_cases hjob : job = k
    · subst hjob
      have hmark (hlt : started < called) :
          (Jobstats.forget s job called).Marked job started :=
        ⟨called, by simp only [Jobstats.forget, Function.update_self], hlt⟩
      cases hpayload : s.payloads job with
      | none =>
        exact (h.running hpayload hb).imp_right (marked_forget hb hlater hdropped)
      | some entry =>
        rcases Nat.lt_or_ge started entry.started with hlt | hge
        · exact .inr (hmark (hentry entry hpayload b started hb hlt))
        · exact .inl (Nat.le_trans (h.payload hpayload) hge)
    · simp only [Jobstats.forget, Function.update_of_ne hjob] at hnone
      exact (h.running hnone hb).imp_right (marked_forget hb hlater hdropped)

theorem Since.next {job : J} {kept : ℕ} (h : Since job kept s) (hinv : Inv s)
    (hok : InOrder maxAge s a) (hs : next maxAge s a = some t) : Since job kept t := by
  cases a with
  | tick elapsed =>
    simp only [Jobstats.next, Option.some.injEq] at hs
    subst hs
    exact ⟨Nat.le_trans h.le_now (Nat.le_add_right _ _), h.payload, h.running⟩
  | start build k =>
    simp only [Jobstats.next, Option.ite_none_left_eq_some, Option.some.injEq] at hs
    obtain ⟨-, rfl⟩ := hs
    refine ⟨h.le_now, h.payload, fun {b started} hnone hb ↦ ?_⟩
    simp only [State.Running] at hb
    by_cases heq : b = build
    · subst heq
      simp only [Function.update_self, Option.some.injEq, Build.mk.injEq] at hb
      exact .inl (hb.2.1 ▸ h.le_now)
    · rw [Function.update_of_ne heq] at hb
      exact h.running hnone hb
  | finish build =>
    simp only [Jobstats.next] at hs
    split at hs
    · next k started hrunning =>
      rw [Option.some.injEq] at hs
      subst hs
      exact h.finish hinv hrunning hok
    · exact nomatch hs
  | fail build =>
    simp only [Jobstats.next] at hs
    split at hs
    · next k started hrunning =>
      rw [Option.some.injEq] at hs
      subst hs
      exact ⟨h.le_now, h.payload, fun hnone hb ↦ h.running hnone (running_of_ended hb).2⟩
    · exact nomatch hs
  | call call k =>
    simp only [Jobstats.next, Option.some.injEq] at hs
    subst hs
    exact ⟨h.le_now, h.payload, h.running⟩
  | forget call =>
    simp only [Jobstats.next] at hs
    split at hs
    · next k called hcall =>
      rw [Option.some.injEq] at hs
      subst hs
      exact h.forget hcall hok
    · exact nomatch hs

theorem since_of_reachableBy {job : J} {entry : CachedPayload} (hinv : Inv s)
    (hentry : s.payloads job = some entry)
    (h : ((machine maxAge).startingAt s).ReachableBy (InOrder maxAge) t) :
    Since job entry.started t := by
  have hboth : Inv t ∧ Since job entry.started t := by
    apply h.invariant (I := fun t ↦ Inv t ∧ Since job entry.started t)
    · rintro _ rfl
      refine ⟨hinv, hinv.started_le (hinv.built hentry), fun {e} he ↦ ?_, fun hnone ↦ ?_⟩
      · rw [hentry, Option.some.injEq] at he
        exact Nat.le_of_eq (congrArg CachedPayload.started he)
      · rw [hentry] at hnone
        exact nomatch hnone
    · exact fun s a t hi hok hs ↦ ⟨hi.1.next hok hs, hi.2.next hi.1 hok hs⟩
  exact hboth.2

/-- In every run in order: once a `forget` has returned, nothing built from a start before it was
called is kept, answered from what is kept, or returned to be pushed; and a job's payload is never
one built from an earlier start than one kept before. -/
theorem payload_current (h : (machine maxAge).ReachableBy (InOrder maxAge) s) :
    (∀ job called, (job, called) ∈ s.returned →
      (∀ entry, s.payloads job = some entry →
        ∃ b, s.builds entry.json = some b ∧ b.job = job ∧ called ≤ b.started) ∧
      (∀ since json, cachedPayload maxAge s job since = some json →
        ∃ b, s.builds json = some b ∧ b.job = job ∧ called ≤ b.started) ∧
      (maxAge ≠ 0 → ∀ build started, s.Running build job started →
        (refreshPayload maxAge s build).isSome = true → called ≤ started)) ∧
    ∀ t, ((machine maxAge).startingAt s).ReachableBy (InOrder maxAge) t →
      ∀ job entry entry', s.payloads job = some entry → t.payloads job = some entry' →
        entry.started ≤ entry'.started := by
  have hinv := inv_of_reachableBy h
  refine ⟨fun job called hreturned ↦ ?_, fun t ht job entry entry' hentry hentry' ↦ ?_⟩
  · have hkept (entry : CachedPayload) (hentry : s.payloads job = some entry) :
        ∃ b, s.builds entry.json = some b ∧ b.job = job ∧ called ≤ b.started :=
      ⟨_, hinv.built hentry, rfl, hinv.current hreturned hentry⟩
    refine ⟨hkept, fun since json hjson ↦ ?_, fun hage build started hrunning hrefresh ↦ ?_⟩
    · obtain ⟨entry, hentry, rfl⟩ := Option.map_eq_some_iff.1 hjson
      exact hkept entry (Option.eq_some_of_filter_eq_some hentry)
    · have hkeeps : (buildPayload maxAge s job started build).2 = true := by
        rw [refreshPayload, hrunning, Option.bind_some] at hrefresh
        by_contra hnot
        simp [hnot, hage] at hrefresh
      exact (hinv.marked hreturned hrunning).resolve_right (not_marked_of_kept hage hkeeps)
  · exact (since_of_reachableBy hinv hentry ht).payload hentry'

def idle : State Unit := ⟨0, fun _ ↦ none, fun _ ↦ none, fun _ ↦ none, fun _ ↦ none, []⟩

theorem start_idle : start idle := ⟨fun _ ↦ rfl, fun _ ↦ rfl, fun _ ↦ rfl, fun _ ↦ rfl, rfl⟩

/-- The first build is superseded by a `forget`; the second, started after it, is kept. -/
theorem exists_payload_current : ∃ s : State Unit,
    (machine 10000000000).ReachableBy (InOrder 10000000000) s ∧ s.returned = [((), 2)] ∧
    cachedPayload 10000000000 s () none = some 1 ∧
    ∀ since json, cachedPayload 10000000000 s () since = some json →
      ∃ b, s.builds json = some b ∧ b.job = () ∧ 2 ≤ b.started := by
  have h₀ : (machine 10000000000).ReachableBy (InOrder 10000000000) idle := .start start_idle
  have h₁ := h₀.step (a := Action.start 0 ()) trivial rfl
  have h₂ := h₁.step (a := Action.tick 2) trivial rfl
  have h₃ := h₂.step (a := Action.call 0 ()) trivial rfl
  have h₄ := h₃.step (a := Action.forget 0) (fun _ _ _ ↦ ⟨nofun, nofun, nofun⟩) rfl
  have h₅ := h₄.step (a := Action.finish 0) (fun _ _ _ _ _ ↦ nofun) rfl
  have h₆ := h₅.step (a := Action.start 1 ()) trivial rfl
  have h₇ := h₆.step (a := Action.finish 1) (fun _ _ _ _ _ ↦ nofun) rfl
  exact ⟨_, h₇, rfl, rfl, ((payload_current h₇).1 () 2 List.mem_cons_self).2.1⟩

/-- A call made first and writing its mark last lets through a build that started before the
other call. -/
theorem not_payload_current : ∃ s t : State Unit, (machine 10000000000).Reachable s ∧
    ((), 3) ∈ s.returned ∧ s.Running 0 () 2 ∧ refreshPayload 10000000000 s 0 = some 0 ∧
    next 10000000000 s (.finish 0) = some t ∧ t.payloads () = some ⟨2, 0⟩ ∧
    cachedPayload 10000000000 t () none = some 0 := by
  have h : (machine 10000000000).Reachable idle := .start start_idle
  have h₁ := h.step (a := Action.tick 1) trivial rfl
  have h₂ := h₁.step (a := Action.call 0 ()) trivial rfl
  have h₃ := h₂.step (a := Action.tick 1) trivial rfl
  have h₄ := h₃.step (a := Action.start 0 ()) trivial rfl
  have h₅ := h₄.step (a := Action.tick 1) trivial rfl
  have h₆ := h₅.step (a := Action.call 1 ()) trivial rfl
  have h₇ := h₆.step (a := Action.forget 1) trivial rfl
  have h₈ := h₇.step (a := Action.forget 0) trivial rfl
  exact ⟨_, _, h₈, List.mem_cons_of_mem _ List.mem_cons_self, rfl, rfl, rfl, rfl, rfl⟩

end Current

end Birdtest.Jobstats
