import Birdtest.Base.Crowd
import Birdtest.Base.Runs
import Birdtest.Base.Tables

namespace Birdtest.Sse

open Birdtest.Base.Crowd Birdtest.Base.Runs Birdtest.Base.Tables

variable {J : Type} [DecidableEq J]

structure Push where
  pending : Bool
  urgent : Bool
  deriving DecidableEq

abbrev Pushes (J : Type) [DecidableEq J] := Table J Push

section Operations

variable (pushes : Pushes J) (job : J)

def askForPush (urgent : Bool) : Pushes J × Bool :=
  match pushes.get job with
  | some push => (pushes.put job ⟨true, push.urgent || urgent⟩, false)
  | none => (pushes.put job ⟨false, false⟩, true)

def beginPush : Pushes J × Bool := askForPush pushes job false

def beginUrgentPush : Pushes J × Bool := askForPush pushes job true

def urgent : Option Bool := (pushes.get job).map Push.urgent

def abandonPush : Pushes J := pushes.filter (· ≠ job)

def endPush : Pushes J × Bool :=
  match pushes.get job with
  | some push =>
    if push.pending then (pushes.put job { push with pending := false }, true)
    else (pushes.filter (· ≠ job), false)
  | none => (pushes.filter (· ≠ job), false)

def spendUrgent : Pushes J :=
  match pushes.get job with
  | some push => pushes.put job { push with urgent := false }
  | none => pushes

end Operations

/-- Where `push_stats_until_idle` is: `preparing` and `building` say how many builds its round may
still try. -/
inductive Stage
  | told
  | preparing (tries : ℕ)
  | ready (tries : ℕ)
  | building (tries : ℕ)
  | deleted
  | built
  | cooling
  | ending
  deriving DecidableEq

structure Loop (J : Type) where
  job : J
  stage : Stage
  deriving DecidableEq

inductive Event (J : Type)
  | asked (job : J) (urgent : Bool)
  | started (job : J)
  | abandoned (job : J)
  deriving DecidableEq

inductive Built
  | published | superseded | notFound | failed

inductive Step
  | go
  | finish (built : Built)
  | woken

/-- The loops are of those whom their ask told to push; the newest event is first. -/
structure State (J : Type) [DecidableEq J] where
  pushes : Pushes J
  loops : Multiset (Loop J)
  log : List (Event J)

inductive Action (J : Type)
  | ask (job : J) (urgent : Bool)
  | step (loop : Loop J) (step : Step)

def buildsPerRound : ℕ := 3

/-- One step of a loop: what it leaves of the pushes, where it goes on and what it does there. -/
def advance (pushes : Pushes J) (job : J) : Stage → Step →
    Option (Pushes J × Option Stage × List (Event J))
  | .told, .go => some (pushes, some (.preparing buildsPerRound), [])
  | .preparing 0, .go => some (pushes, some .built, [])
  | .preparing (tries + 1), .go => some (spendUrgent pushes job, some (.ready tries), [])
  | .ready tries, .go => some (pushes, some (.building tries), [.started job])
  | .building tries, .finish built =>
    match built with
    | .published | .failed => some (pushes, some .built, [])
    | .superseded => some (pushes, some (.preparing tries), [])
    | .notFound => some (pushes, some .deleted, [])
  | .deleted, .go => some (abandonPush pushes job, none, [.abandoned job])
  | .built, .go =>
    some (pushes, some (if (urgent pushes job).isSome then .cooling else .ending), [])
  -- the interval has passed
  | .cooling, .go => some (pushes, some .ending, [])
  | .cooling, .woken =>
    if urgent pushes job = some true then some (spendUrgent pushes job, some .ending, []) else none
  | .ending, .go =>
    let ended := endPush pushes job
    some (ended.1, if ended.2 then some (.preparing buildsPerRound) else none, [])
  | _, _ => none

def next (s : State J) : Action J → Option (State J)
  | .ask job urgent =>
    let asked := if urgent then beginUrgentPush s.pushes job else beginPush s.pushes job
    some ⟨asked.1, if asked.2 then ⟨job, .told⟩ ::ₘ s.loops
      else s.loops, .asked job urgent :: s.log⟩
  | .step loop step =>
    if loop ∈ s.loops then
      (advance s.pushes loop.job loop.stage step).map fun (pushes, stage, events) ↦
        ⟨pushes, move s.loops loop (stage.map (⟨loop.job, ·⟩)), events ++ s.log⟩
    else none

def machine (J : Type) [DecidableEq J] : Machine (State J) (Action J) where
  start s := s.pushes = .empty ∧ s.loops = 0 ∧ s.log = []
  next := next

section Advance

def Stage.before : Stage → Bool
  | .told | .preparing (_ + 1) | .ready _ => true
  | _ => false

/-- The most steps it can take before it starts a build, gives the job up or ends. -/
def Stage.rank : Stage → ℕ
  | .ready _ | .deleted => 1
  | .preparing (_ + 1) => 2
  | .told | .ending => 3
  | .cooling => 4
  | .built => 5
  | .preparing 0 => 6
  | .building _ => 7

def pending (pushes : Pushes J) (job : J) : Bool := (pushes.get job).any Push.pending

variable {pushes pushes' : Pushes J} {job job' : J} {stage : Stage} {stage' : Option Stage}
variable {events : List (Event J)} {step : Step}

theorem get_spendUrgent_of_ne (h : job' ≠ job) :
    (spendUrgent pushes job).get job' = pushes.get job' := by
  unfold spendUrgent
  split
  · exact Table.get_put_of_ne h
  · rfl

theorem isSome_spendUrgent : ((spendUrgent pushes job).get job).isSome =
    (pushes.get job).isSome := by
  unfold spendUrgent
  split
  · next hpush => rw [Table.get_put_self, hpush, Option.isSome_some, Option.isSome_some]
  · rfl

theorem pending_spendUrgent : pending (spendUrgent pushes job) job = pending pushes job := by
  unfold spendUrgent
  split
  · next hpush => rw [pending, Table.get_put_self, pending, hpush, Option.any_some, Option.any_some]
  · rfl

theorem get_filter_self : (pushes.filter (· ≠ job)).get job = none := by
  rw [Table.get_filter, if_neg (by simp)]

theorem get_filter_of_ne (h : job' ≠ job) : (pushes.filter (· ≠ job)).get job' =
    pushes.get job' := by
  rw [Table.get_filter, if_pos (by simpa using h)]

theorem endPush_of_pending (h : pending pushes job = true) :
    ∃ push, endPush pushes job = (pushes.put job push, true) := by
  obtain ⟨push, hpush, hpending⟩ := (Option.any_eq_true ..).1 h
  exact ⟨{ push with pending := false }, by simp only [endPush, hpush, if_pos hpending]⟩

theorem endPush_of_not_pending (h : pending pushes job = false) :
    endPush pushes job = (pushes.filter (· ≠ job), false) := by
  unfold endPush
  split
  · next push hpush =>
    rw [pending, hpush, Option.any_some] at h
    rw [h]
    rfl
  · rfl

structure Advances (pushes : Pushes J) (job : J) (stage : Stage) (pushes' : Pushes J)
    (stage' : Option Stage) (events : List (Event J)) : Prop where
  others : ∀ job', job' ≠ job → pushes'.get job' = pushes.get job'
  entry : (pushes.get job).isSome → (pushes'.get job).isSome = stage'.isSome
  said : events = [] ∨ events = [.started job] ∨ events = [.abandoned job]
  owed : events = [] → stage.before = true ∨ pending pushes job = true →
    pending pushes' job = true ∨ ∃ after ∈ stage', after.before = true
  rank : events = [] → stage.before = true ∨ pending pushes job = true →
    ∃ after ∈ stage', after.rank < stage.rank

theorem advances_quiet {after : Stage} (hafter : after.rank < stage.rank)
    (hbefore : stage.before = true → after.before = true) :
    Advances pushes job stage pushes (some after) [] where
  others _ _ := rfl
  entry h := by rw [h, Option.isSome_some]
  said := .inl rfl
  owed _ h := h.elim (fun h ↦ .inr ⟨after, rfl, hbefore h⟩) .inl
  rank _ _ := ⟨after, rfl, hafter⟩

theorem advances_spent {after : Stage} (hafter : after.rank < stage.rank)
    (hbefore : stage.before = true → after.before = true) :
    Advances pushes job stage (spendUrgent pushes job) (some after) [] where
  others _ h := get_spendUrgent_of_ne h
  entry h := by rw [isSome_spendUrgent, h, Option.isSome_some]
  said := .inl rfl
  owed _ h := by
    rw [pending_spendUrgent]
    exact h.elim (fun h ↦ .inr ⟨after, rfl, hbefore h⟩) .inl
  rank _ _ := ⟨after, rfl, hafter⟩

theorem advances_end : Advances pushes job .ending (endPush pushes job).1
    (if (endPush pushes job).2 then some (.preparing buildsPerRound) else none) [] := by
  cases h : pending pushes job with
  | true =>
    obtain ⟨push, hend⟩ := endPush_of_pending h
    rw [hend]
    refine ⟨fun _ hne ↦ Table.get_put_of_ne hne, fun _ ↦ ?_, .inl rfl, fun _ _ ↦ .inr ⟨_, rfl, rfl⟩,
      fun _ _ ↦ ⟨_, rfl, by decide⟩⟩
    rw [Table.get_put_self]
    rfl
  | false =>
    rw [endPush_of_not_pending h]
    have hnot : ¬ (Stage.ending.before = true ∨ pending pushes job = true) := by
      rw [h]
      nofun
    refine ⟨fun _ hne ↦ get_filter_of_ne hne, fun _ ↦ ?_, .inl rfl, fun _ howed ↦ absurd howed hnot,
      fun _ howed ↦ absurd howed hnot⟩
    rw [get_filter_self]
    rfl

theorem advances_delete : Advances pushes job .deleted (abandonPush pushes job) none
    [.abandoned job] where
  others _ h := get_filter_of_ne h
  entry _ := by
    rw [abandonPush, get_filter_self]
    rfl
  said := .inr (.inr rfl)
  owed := nofun
  rank := nofun

theorem advances_finish {tries : ℕ} {built : Built}
    (h : advance pushes job (.building tries) (.finish built) = some (pushes', stage', events)) :
    Advances pushes job (.building tries) pushes' stage' events := by
  cases built with
  | superseded =>
    cases h
    cases tries with
    | zero => exact advances_quiet (by decide) nofun
    | succ tries => exact advances_quiet (by simp [Stage.rank]) nofun
  | published | failed | notFound =>
    cases h
    exact advances_quiet (by simp [Stage.rank]) nofun

theorem advances_of_advance (h : advance pushes job stage step = some (pushes', stage', events)) :
    Advances pushes job stage pushes' stage' events := by
  cases stage with
  | told =>
    cases step <;> cases h
    exact advances_quiet (by decide) fun _ ↦ rfl
  | preparing tries =>
    cases tries with
    | zero =>
      cases step <;> cases h
      exact advances_quiet (by decide) nofun
    | succ tries =>
      cases step <;> cases h
      exact advances_spent (by simp [Stage.rank]) fun _ ↦ rfl
  | ready tries =>
    cases step <;> cases h
    exact ⟨fun _ _ ↦ rfl, fun h ↦ h, .inr (.inl rfl), nofun, nofun⟩
  | building tries =>
    cases step with
    | finish built => exact advances_finish h
    | go | woken => cases h
  | deleted =>
    cases step <;> cases h
    exact advances_delete
  | built =>
    cases step <;> cases h
    split
    · exact advances_quiet (by decide) nofun
    · exact advances_quiet (by decide) nofun
  | cooling =>
    cases step with
    | go =>
      cases h
      exact advances_quiet (by decide) nofun
    | woken =>
      simp only [advance, Option.ite_none_right_eq_some] at h
      obtain ⟨-, h⟩ := h
      cases h
      exact advances_spent (by decide) nofun
    | finish built => cases h
  | ending =>
    cases step <;> cases h
    exact advances_end

end Advance

section Owed

variable {job job' : J} {log : List (Event J)} {urgent : Bool}

def outstanding (job : J) : List (Event J) → Bool
  | [] => false
  | .asked job' _ :: log => if job' = job then true else outstanding job log
  | .started job' :: log | .abandoned job' :: log =>
    if job' = job then false
    else outstanding job log

theorem outstanding_of_asked {newer older : List (Event J)} (hstarted : .started job ∉ newer)
    (habandoned : .abandoned job ∉ newer) :
    outstanding job (newer ++ .asked job urgent :: older) = true := by
  induction newer with
  | nil => exact if_pos rfl
  | cons event newer ih =>
    rw [List.mem_cons, not_or] at hstarted habandoned
    have ih := ih hstarted.2 habandoned.2
    cases event with
    | asked job' urgent =>
      rw [List.cons_append, outstanding, ih, ite_self]
    | started job' =>
      have hne : job' ≠ job := fun heq ↦ hstarted.1 (by rw [heq])
      rw [List.cons_append, outstanding, if_neg hne, ih]
    | abandoned job' =>
      have hne : job' ≠ job := fun heq ↦ habandoned.1 (by rw [heq])
      rw [List.cons_append, outstanding, if_neg hne, ih]

theorem said_of_not_outstanding {newer older : List (Event J)} (h : outstanding job older = true)
    (hnot : outstanding job (newer ++ older) = false) :
    .started job ∈ newer ∨ .abandoned job ∈ newer := by
  induction newer with
  | nil => exact absurd (h.symm.trans hnot) nofun
  | cons event newer ih =>
    rw [List.mem_cons, List.mem_cons]
    cases event with
    | asked job' urgent =>
      rw [List.cons_append, outstanding] at hnot
      split at hnot
      · cases hnot
      · exact (ih hnot).imp .inr .inr
    | started job' =>
      rw [List.cons_append, outstanding] at hnot
      split at hnot
      · next heq => exact .inl (.inl (by rw [heq]))
      · exact (ih hnot).imp .inr .inr
    | abandoned job' =>
      rw [List.cons_append, outstanding] at hnot
      split at hnot
      · next heq => exact .inr (.inl (by rw [heq]))
      · exact (ih hnot).imp .inr .inr

def State.Owes (s : State J) (job : J) : Prop :=
  pending s.pushes job = true ∨ ∃ loop ∈ s.loops, loop.job = job ∧ loop.stage.before = true

structure Inv (s : State J) : Prop where
  loops : ∀ job, s.loops.countP (·.job = job) = if (s.pushes.get job).isSome then 1 else 0
  owes : ∀ job, outstanding job s.log = true → s.Owes job

variable {s t : State J} {loop : Loop J}

theorem State.Owes.congr (h : s.Owes job) (hpushes : t.pushes.get job = s.pushes.get job)
    (hloops : ∀ loop ∈ s.loops, loop.job = job → loop ∈ t.loops) : t.Owes job := by
  rcases h with hpending | ⟨loop, hloop, hjob, hbefore⟩
  · exact .inl (by rwa [pending, hpushes])
  · exact .inr ⟨loop, hloops loop hloop hjob, hjob, hbefore⟩

theorem Inv.entry (h : Inv s) (hloop : loop ∈ s.loops) : (s.pushes.get loop.job).isSome := by
  have hpos : 0 < s.loops.countP (·.job = loop.job) := Multiset.countP_pos.2 ⟨loop, hloop, rfl⟩
  rw [h.loops loop.job] at hpos
  by_contra hnone
  rw [if_neg hnone] at hpos
  exact Nat.lt_irrefl _ hpos

theorem Inv.eq_of_job {loop' : Loop J} (h : Inv s) (hloop : loop ∈ s.loops)
    (hloop' : loop' ∈ s.loops) (hjob : loop'.job = loop.job) : loop' = loop := by
  by_contra hne
  have hle := h.loops loop.job
  rw [if_pos (h.entry hloop), ← countP_erase hloop, if_pos rfl, Nat.add_eq_right,
    Multiset.countP_eq_zero] at hle
  exact hle loop' ((Multiset.mem_erase_of_ne hne).2 hloop') hjob

theorem Inv.owed (h : Inv s) (hloop : loop ∈ s.loops) (howes : outstanding loop.job s.log = true) :
    loop.stage.before = true ∨ pending s.pushes loop.job = true := by
  rcases h.owes _ howes with hpending | ⟨loop', hloop', hjob, hbefore⟩
  · exact .inr hpending
  · rw [h.eq_of_job hloop hloop' hjob] at hbefore
    exact .inl hbefore

theorem asked_eq (pushes : Pushes J) (job : J) (urgent : Bool) :
    (if urgent then beginUrgentPush pushes job else beginPush pushes job) =
      askForPush pushes job urgent := by
  cases urgent <;> rfl

theorem Inv.tell {push : Push} (h : Inv s) (hentry : (s.pushes.get job).isSome)
    (hpending : push.pending = true) (urgent : Bool) :
    Inv ⟨s.pushes.put job push, s.loops, .asked job urgent :: s.log⟩ where
  loops job' := by
    rw [h.loops job']
    by_cases hjob : job' = job
    · rw [hjob, Table.get_put_self, if_pos hentry]
      rfl
    · rw [Table.get_put_of_ne hjob]
  owes job' howes := by
    by_cases hjob : job' = job
    · exact .inl (by rwa [hjob, pending, Table.get_put_self, Option.any_some])
    · rw [outstanding, if_neg (Ne.symm hjob)] at howes
      exact (h.owes job' howes).congr (Table.get_put_of_ne hjob) fun _ hloop _ ↦ hloop

theorem Inv.own {push : Push} (h : Inv s) (hentry : s.pushes.get job = none) (urgent : Bool) :
    Inv ⟨s.pushes.put job push, ⟨job, .told⟩ ::ₘ s.loops, .asked job urgent :: s.log⟩ where
  loops job' := by
    rw [Multiset.countP_cons, h.loops job']
    by_cases hjob : job' = job
    · rw [hjob, Table.get_put_self, hentry, if_pos rfl]
      rfl
    · rw [Table.get_put_of_ne hjob, if_neg (Ne.symm hjob), Nat.add_zero]
  owes job' howes := by
    by_cases hjob : job' = job
    · exact .inr ⟨_, Multiset.mem_cons_self .., hjob.symm, rfl⟩
    · rw [outstanding, if_neg (Ne.symm hjob)] at howes
      exact (h.owes job' howes).congr (Table.get_put_of_ne hjob) fun _ hloop _ ↦
        Multiset.mem_cons_of_mem hloop

theorem Inv.ask (h : Inv s) {urgent : Bool} (hs : next s (.ask job urgent) = some t) : Inv t := by
  simp only [next, asked_eq, Option.some.injEq] at hs
  subst hs
  unfold askForPush
  split
  · next push hpush => exact h.tell (by rw [hpush]; rfl) rfl urgent
  · next hnone => exact h.own hnone urgent

theorem outstanding_append {events : List (Event J)}
    (h : events = [] ∨ events = [.started job] ∨ events = [.abandoned job]) :
    outstanding job' (events ++ log) = true → outstanding job' log = true ∧
    (events = [] ∨ job' ≠ job) := by
  rcases h with rfl | rfl | rfl
  · exact fun h ↦ ⟨h, .inl rfl⟩
  · rw [List.singleton_append, outstanding]
    split
    · nofun
    · next hne => exact fun h ↦ ⟨h, .inr (Ne.symm hne)⟩
  · rw [List.singleton_append, outstanding]
    split
    · nofun
    · next hne => exact fun h ↦ ⟨h, .inr (Ne.symm hne)⟩

theorem Inv.step {pushes : Pushes J} {after : Option Stage} {events : List (Event J)} (h : Inv s)
    (hloop : loop ∈ s.loops) (hadv : Advances s.pushes loop.job loop.stage pushes after events) :
    Inv ⟨pushes, move s.loops loop (after.map (⟨loop.job, ·⟩)), events ++ s.log⟩ where
  loops job' := by
    have hmove := countP_move (p := fun loop : Loop J ↦ loop.job = job') hloop
      (after.map (⟨loop.job, ·⟩))
    rw [h.loops job'] at hmove
    by_cases hjob : loop.job = job'
    · subst hjob
      rw [hadv.entry (h.entry hloop)]
      rw [if_pos rfl, if_pos (h.entry hloop)] at hmove
      cases after with
      | none => exact Nat.add_right_cancel (hmove.trans rfl)
      | some after =>
        simp only [Option.map_some, Option.elim_some, if_true] at hmove
        exact Nat.add_right_cancel hmove
    · rw [hadv.others job' (Ne.symm hjob)]
      rw [if_neg hjob, Nat.add_zero] at hmove
      rw [hmove]
      cases after with
      | none => rfl
      | some after => simp only [Option.map_some, Option.elim_some, if_neg hjob, Nat.add_zero]
  owes job' howes := by
    obtain ⟨howes, hevents⟩ := outstanding_append hadv.said howes
    by_cases hjob : job' = loop.job
    · subst hjob
      have howed := h.owed hloop howes
      rcases hadv.owed (hevents.resolve_right (· rfl)) howed with hpending | ⟨after, rfl, hafter⟩
      · exact .inl hpending
      · exact .inr ⟨⟨loop.job, after⟩, Multiset.mem_add.2 (.inl (Multiset.mem_singleton_self _)),
          rfl, hafter⟩
    · refine (h.owes job' howes).congr (hadv.others job' hjob) fun other hother hjob' ↦ ?_
      have hne : other ≠ loop := fun heq ↦ hjob (hjob'.symm.trans (congrArg Loop.job heq))
      exact Multiset.mem_add.2 (.inr ((Multiset.mem_erase_of_ne hne).2 hother))

theorem step_of_next {step : Step} (hs : next s (.step loop step) = some t) : loop ∈ s.loops ∧
    ∃ pushes after events, advance s.pushes loop.job loop.stage step =
    some (pushes, after, events) ∧
      t = ⟨pushes, move s.loops loop (after.map (⟨loop.job, ·⟩)), events ++ s.log⟩ := by
  simp only [next, Option.ite_none_right_eq_some] at hs
  obtain ⟨hloop, hs⟩ := hs
  obtain ⟨⟨pushes, after, events⟩, hadvance, rfl⟩ := Option.map_eq_some_iff.1 hs
  exact ⟨hloop, pushes, after, events, hadvance, rfl⟩

theorem Inv.next {a : Action J} (h : Inv s) (hs : Sse.next s a = some t) : Inv t := by
  cases a with
  | ask job urgent => exact h.ask hs
  | step loop step =>
    obtain ⟨hloop, pushes, after, events, hadvance, rfl⟩ := step_of_next hs
    exact h.step hloop (advances_of_advance hadvance)

theorem inv_of_reachable (h : (machine J).Reachable s) : Inv s := by
  refine h.invariant ?_ fun s a t hs _ ht ↦ hs.next ht
  rintro s ⟨hpushes, hloops, hlog⟩
  refine ⟨fun job ↦ ?_, fun job howes ↦ ?_⟩
  · rw [hloops, hpushes]
    rfl
  · rw [hlog] at howes
    cases howes

end Owed

section Progress

variable {s t : State J} {job : J} {loop : Loop J}

def isStepOf (job : J) : Action J → Bool
  | .ask _ _ => false
  | .step loop _ => loop.job = job

def Loop.rankFor (job : J) (loop : Loop J) : ℕ := if loop.job = job then loop.stage.rank else 0

def State.rank (s : State J) (job : J) : ℕ := (s.loops.map (Loop.rankFor job)).sum

theorem exists_log {a : Action J} (hs : next s a = some t) : ∃ later, t.log = later ++ s.log := by
  cases a with
  | ask job urgent =>
    simp only [next, Option.some.injEq] at hs
    exact ⟨[.asked job urgent], by rw [← hs]; rfl⟩
  | step loop step =>
    obtain ⟨-, pushes, after, events, -, rfl⟩ := step_of_next hs
    exact ⟨events, rfl⟩

theorem exists_log_follow {as : List (Action J)}
    (hrun : (machine J).follow (fun _ _ ↦ True) s as = some t) :
    ∃ later, t.log = later ++ s.log := by
  induction as generalizing s with
  | nil =>
    simp only [Machine.follow, Option.some.injEq] at hrun
    exact ⟨[], by rw [hrun, List.nil_append]⟩
  | cons a as ih =>
    simp only [Machine.follow, if_true, Option.bind_eq_some_iff] at hrun
    obtain ⟨u, hu, hrun⟩ := hrun
    obtain ⟨events, hevents⟩ := exists_log hu
    obtain ⟨later, hlater⟩ := ih hrun
    exact ⟨later ++ events, by rw [hlater, hevents, List.append_assoc]⟩

theorem Inv.entry_of_outstanding (h : Inv s) (howes : outstanding job s.log = true) :
    (s.pushes.get job).isSome := by
  rcases h.owes job howes with hpending | ⟨loop, hloop, rfl, -⟩
  · obtain ⟨push, hpush, -⟩ := (Option.any_eq_true ..).1 hpending
    rw [hpush, Option.isSome_some]
  · exact h.entry hloop

theorem Inv.exists_loop (h : Inv s) (hentry : (s.pushes.get job).isSome) :
    ∃ loop ∈ s.loops, loop.job = job := by
  have hcount := h.loops job
  rw [if_pos hentry] at hcount
  exact Multiset.countP_pos.1 (hcount ▸ Nat.one_pos)

theorem Inv.rank_ask {job' : J} {urgent : Bool} (h : Inv s)
    (hs : Sse.next s (.ask job' urgent) = some t) (howes : outstanding job s.log = true) :
    t.rank job = s.rank job := by
  simp only [Sse.next, asked_eq, Option.some.injEq] at hs
  subst hs
  unfold askForPush
  split
  · rfl
  · next hnone =>
    have hne : job' ≠ job := by
      rintro rfl
      have hentry := h.entry_of_outstanding howes
      rw [hnone] at hentry
      cases hentry
    simp only [State.rank, if_true, Multiset.map_cons, Multiset.sum_cons]
    rw [Loop.rankFor, if_neg hne, Nat.zero_add]

/-- Until a build starts or the job is given up, its loop comes nearer to it with each of its steps,
and no other step takes it further off. -/
theorem Inv.rank_next {a : Action J} (h : Inv s) (hs : Sse.next s a = some t)
    (howes : outstanding job s.log = true) (howes' : outstanding job t.log = true) :
    t.rank job + (if isStepOf job a then 1 else 0) ≤ s.rank job := by
  cases a with
  | ask job' urgent => exact (h.rank_ask hs howes).le
  | step loop step =>
    obtain ⟨hloop, pushes, after, events, hadvance, rfl⟩ := step_of_next hs
    have hadv := advances_of_advance hadvance
    have hmove := sum_move (f := Loop.rankFor job) hloop (after.map (⟨loop.job, ·⟩))
    obtain ⟨-, hevents⟩ := outstanding_append hadv.said howes'
    by_cases hjob : loop.job = job
    · subst hjob
      obtain ⟨after, rfl, hlt⟩ := hadv.rank (hevents.resolve_right (· rfl)) (h.owed hloop howes)
      have hold : loop.rankFor loop.job = loop.stage.rank := if_pos rfl
      have hnew : (⟨loop.job, after⟩ : Loop J).rankFor loop.job = after.rank := if_pos rfl
      rw [Option.map_some, Option.elim_some, hold, hnew] at hmove
      simp only [State.rank, isStepOf, decide_true, if_true, Option.map_some]
      omega
    · have hafter : (after.map fun stage ↦ (⟨loop.job, stage⟩ : Loop J)).elim 0
          (Loop.rankFor job) = 0 := by
        cases after with
        | none => rfl
        | some after => exact if_neg hjob
      rw [hafter, Loop.rankFor, if_neg hjob] at hmove
      simp only [State.rank, isStepOf, decide_eq_true_eq, if_neg hjob]
      exact hmove.le

theorem Stage.rank_le (stage : Stage) : stage.rank ≤ 7 := by
  cases stage with
  | preparing tries => cases tries <;> simp [Stage.rank]
  | told | ready tries | building tries | deleted | built | cooling | ending => simp [Stage.rank]

theorem Stage.rank_pos (stage : Stage) : 0 < stage.rank := by
  cases stage with
  | preparing tries => cases tries <;> simp [Stage.rank]
  | told | ready tries | building tries | deleted | built | cooling | ending => simp [Stage.rank]

theorem Inv.rank_le (h : Inv s) : s.rank job ≤ 7 := by
  have hloop : ∀ loop : Loop J, loop.rankFor job ≤ if loop.job = job then 7 else 0 := by
    intro loop
    unfold Loop.rankFor
    split
    · exact loop.stage.rank_le
    · exact Nat.le_refl _
  have hsum : s.rank job ≤ 7 * s.loops.countP fun loop ↦ loop.job = job := sum_le_mul_countP hloop
  rw [h.loops job] at hsum
  refine hsum.trans ?_
  split <;> decide

theorem Inv.rank_pos (h : Inv s) (howes : outstanding job s.log = true) : 0 < s.rank job := by
  obtain ⟨loop, hloop, rfl⟩ := h.exists_loop (h.entry_of_outstanding howes)
  have hle := le_sum (f := Loop.rankFor loop.job) hloop
  rw [Loop.rankFor, if_pos rfl] at hle
  exact loop.stage.rank_pos.trans_le hle

/-- In a run, the job's ask is met or its loop has come nearer by each of its steps. -/
theorem Inv.rank_follow {as : List (Action J)} (h : Inv s)
    (hrun : (machine J).follow (fun _ _ ↦ True) s as = some t)
    (howes : outstanding job s.log = true) :
    ∃ later, t.log = later ++ s.log ∧ ((.started job ∈ later ∨ .abandoned job ∈ later) ∨
      Inv t ∧ outstanding job t.log = true ∧ t.rank job + as.countP (isStepOf job) ≤
      s.rank job) := by
  induction as generalizing s with
  | nil =>
    simp only [Machine.follow, Option.some.injEq] at hrun
    subst hrun
    exact ⟨[], rfl, .inr ⟨h, howes, Nat.le_refl _⟩⟩
  | cons a as ih =>
    simp only [Machine.follow, if_true, Option.bind_eq_some_iff] at hrun
    obtain ⟨u, hu, hrun⟩ := hrun
    obtain ⟨events, hevents⟩ := exists_log hu
    cases howes' : outstanding job u.log with
    | false =>
      obtain ⟨later, hlater⟩ := exists_log_follow hrun
      have hsaid := said_of_not_outstanding howes (hevents ▸ howes')
      exact ⟨later ++ events, by rw [hlater, hevents, List.append_assoc],
        .inl (hsaid.imp (List.mem_append_right _) (List.mem_append_right _))⟩
    | true =>
      obtain ⟨later, hlater, hcase⟩ := ih (h.next hu) hrun howes'
      refine ⟨later ++ events, by rw [hlater, hevents, List.append_assoc], ?_⟩
      rcases hcase with hsaid | ⟨ht, hout, hrank⟩
      · exact .inl (hsaid.imp (List.mem_append_left _) (List.mem_append_left _))
      · refine .inr ⟨ht, hout, ?_⟩
        have hnext := h.rank_next hu howes howes'
        rw [List.countP_cons]
        omega

end Progress

/-- A job has one loop at most, and an entry only while it has one. An ask with no build started and
no push abandoned since has a loop, which is yet to start its round's first build or is answered
that it must go round again, and which starts a build, or gives the job up, within its next seven
steps. -/
theorem pushes_kept {s : State J} (h : (machine J).Reachable s) :
    (∀ job, s.loops.countP (·.job = job) ≤ 1) ∧
    (∀ job, (∀ loop ∈ s.loops, loop.job ≠ job) → s.pushes.get job = none) ∧
    ∀ newer job urgent older, s.log = newer ++ .asked job urgent :: older →
      .started job ∉ newer → .abandoned job ∉ newer →
      (∃ loop ∈ s.loops, loop.job = job ∧
        (loop.stage.before = true ∨ (endPush s.pushes job).2 = true)) ∧
      ∀ as t, (machine J).follow (fun _ _ ↦ True) s as = some t → 7 ≤ as.countP (isStepOf job) →
        ∃ later, t.log = later ++ s.log ∧ (.started job ∈ later ∨ .abandoned job ∈ later) := by
  have hinv := inv_of_reachable h
  refine ⟨fun job ↦ ?_, fun job hnone ↦ ?_, fun newer job urgent older hlog hstarted habandoned ↦
    ?_⟩
  · rw [hinv.loops job]
    split <;> decide
  · have hcount := hinv.loops job
    rw [Multiset.countP_eq_zero.2 hnone] at hcount
    cases hentry : s.pushes.get job with
    | none => rfl
    | some push =>
      rw [hentry] at hcount
      cases hcount
  · have howes : outstanding job s.log = true := hlog ▸ outstanding_of_asked hstarted habandoned
    obtain ⟨loop, hloop, rfl⟩ := hinv.exists_loop (hinv.entry_of_outstanding howes)
    refine ⟨⟨loop, hloop, rfl, ?_⟩, fun as t hrun hsteps ↦ ?_⟩
    · refine (hinv.owed hloop howes).imp_right fun hpending ↦ ?_
      obtain ⟨push, hend⟩ := endPush_of_pending hpending
      rw [hend]
    · obtain ⟨later, hlater, hsaid | ⟨ht, hout, hrank⟩⟩ := hinv.rank_follow hrun howes
      · exact ⟨later, hlater, hsaid⟩
      · have hle : s.rank loop.job ≤ 7 := hinv.rank_le
        have hpos := ht.rank_pos hout
        omega

/-- An ask while a build runs is met by the next. -/
theorem exists_pushes_kept : ∃ s t : State ℕ, ∃ later, (machine ℕ).Reachable s ∧
    s.log = [.asked 0 false, .started 0, .asked 0 false] ∧ t.log = later ++ s.log ∧
    (.started 0 ∈ later ∨ .abandoned 0 ∈ later) := by
  obtain ⟨s, hs⟩ : ∃ s, (machine ℕ).follow (fun _ _ ↦ True) ⟨.empty, 0, []⟩ [.ask 0 false,
    .step ⟨0, .told⟩ .go, .step ⟨0, .preparing 3⟩ .go, .step ⟨0, .ready 2⟩ .go, .ask 0 false] =
      some s := ⟨_, rfl⟩
  obtain ⟨t, ht⟩ :
      ∃ t, (machine ℕ).follow (fun _ _ ↦ True) s [.step ⟨0, .building 2⟩ (.finish .published),
    .step ⟨0, .built⟩ .go, .step ⟨0, .cooling⟩ .go, .step ⟨0, .ending⟩ .go,
      .step ⟨0, .preparing 3⟩ .go,
    .step ⟨0, .ready 2⟩ .go, .step ⟨0, .building 2⟩ (.finish .failed)] = some t := by
    cases hs
    exact ⟨_, rfl⟩
  have hlog : s.log = [.asked 0 false, .started 0, .asked 0 false] := by
    cases hs
    rfl
  have hreach : (machine ℕ).Reachable s :=
    Machine.ReachableBy.follow (.start ⟨rfl, rfl, rfl⟩) hs
  obtain ⟨-, -, hasks⟩ := pushes_kept hreach
  obtain ⟨later, hlater, hsaid⟩ := (hasks [] 0 false _ hlog nofun nofun).2 _ t ht (by decide)
  exact ⟨s, t, later, hreach, hlog, hlater, hsaid⟩

end Birdtest.Sse
