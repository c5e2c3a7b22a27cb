import Birdtest.Base.Runs
import Birdtest.Jobs.Game.Results
import Birdtest.Jobs.Registry
import Mathlib.Data.Int.ConditionallyCompleteOrder
import Mathlib.Order.CompletePartialOrder
import Mathlib.Order.ConditionallyCompleteLattice.Basic
import Mathlib.Order.Interval.Set.Disjoint

namespace Birdtest.Jobs.Game

open Birdtest.Base.Runs Birdtest.Jobs.Registry Birdtest.Stats

variable {I F P : Type}

section NextRequest

def nextSeed (batch : ℤ) (seeds : List ℤ) : ℤ :=
  match seeds.max? with
  | some max => max + batch
  | none => 1

def pastTheCap (nextSeed maxUnits : ℤ) : Bool := maxUnits < nextSeed

def nextBatch (batch maxUnits : ℤ) (seeds : List ℤ) : Option (ℤ × ℤ) :=
  let next := nextSeed batch seeds
  if pastTheCap next maxUnits then none else some (next, batch)

def gameNextRequest (config : GameConfig F) (seeds : List ℤ) : Option (ℤ × ℤ) :=
  nextBatch config.gamesPerBatch config.maxGames seeds

def gamePairNextRequest (config : GamePairConfig F) (seeds : List ℤ) : Option (ℤ × ℤ) :=
  nextBatch config.pairsPerBatch config.maxPairs seeds

def nextRequest : JobKind F → List ℤ → Option (ℤ × ℤ)
  | .games config => gameNextRequest config
  | .gamePairs config => gamePairNextRequest config

end NextRequest

/-- A claim that holds the job's dispatch lock, and whether it has found that no task is
available. -/
structure Claim (I : Type) where
  identity : I
  noneAvailable : Bool

/-- A job's tasks, each with the units its request asks for, and its accepted results, each with
the place of its task. -/
structure State (I : Type) where
  tasks : List (Task I ℤ)
  results : List (ℕ × GameResultsRecord)
  claim : Option (Claim I)

inductive Action (I P : Type)
  | lock (identity : I)
  | takeAvailable (i : ℕ)
  | noneAvailable
  | generate
  | rollback
  | submit (i : ℕ) (response : GameResultsResponse P)
  | decline (i : ℕ)
  | lapse (i : ℕ)

section Machine

variable [DecidableEq I] (checks : Checks P) (kind : JobKind F)

def next (s : State I) : Action I P → Option (State I)
  | .lock identity =>
    if s.claim.isNone then some { s with claim := some ⟨identity, false⟩ }
    else none
  | .takeAvailable i =>
    s.claim.bind fun claim ↦
      if claim.noneAvailable then none
      else
        (takeAvailable s.tasks claim.identity i).map fun tasks ↦ { s with tasks, claim := none }
  | .noneAvailable =>
    s.claim.bind fun claim ↦
      if noneAvailable s.tasks claim.identity then
        some { s with claim := some ⟨claim.identity, true⟩ }
      else none
  | .generate =>
    s.claim.bind fun claim ↦
      if claim.noneAvailable then
        match nextRequest kind (s.tasks.map Task.seed) with
        | none => some { s with claim := none }
        | some (seed, units) =>
          some { s with
            tasks := insertOnDemandTask s.tasks seed units claim.identity
            claim := none }
      else none
  | .rollback => some { s with claim := none }
  | .submit i response =>
    (complete s.tasks i).bind fun (_, _, tasks) ↦
      (decodeResult checks kind response).toOption.map fun record ↦
        { s with tasks, results := s.results ++ [(i, record)] }
  | .decline i => (decline s.tasks i).map fun tasks ↦ { s with tasks }
  | .lapse i => (lapse s.tasks i).map fun tasks ↦ { s with tasks }

def created (s : State I) : Prop := s.tasks = [] ∧ s.results = [] ∧ s.claim = none

def machine : Machine (State I) (Action I P) := ⟨created, next checks kind⟩

def jobHasOpenClaim (s : State I) : Bool :=
  s.tasks.any fun task ↦
    match task.state with
    | .claimed _ => true
    | _ => false

end Machine

section Seeds

def seeds (batch : ℤ) (n : ℕ) : List ℤ := (List.range n).map fun i : ℕ ↦ 1 + i * batch

theorem seeds_succ (batch : ℤ) (n : ℕ) : seeds batch (n + 1) = seeds batch n ++
    [1 + n * batch] := by
  rw [seeds, List.range_succ, List.map_append, List.map_singleton, seeds]

theorem nextSeed_seeds {batch : ℤ} (hbatch : 0 ≤ batch) (n : ℕ) :
    nextSeed batch (seeds batch n) = 1 + n * batch := by
  cases n with
  | zero => simp [nextSeed, seeds]
  | succ n =>
    have hmax : (seeds batch (n + 1)).max? = some (1 + n * batch) := by
      rw [List.max?_eq_some_iff]
      refine ⟨List.mem_map.2 ⟨n, List.mem_range.2 (Nat.lt_succ_self n), rfl⟩, fun seed hseed ↦ ?_⟩
      obtain ⟨i, hi, rfl⟩ := List.mem_map.1 hseed
      have hle : (i : ℤ) ≤ n := Int.ofNat_le.2 (Nat.le_of_lt_succ (List.mem_range.1 hi))
      have := Int.mul_le_mul_of_nonneg_right hle hbatch
      omega
    rw [nextSeed, hmax, Int.natCast_succ, Int.add_mul]
    simp only
    omega

theorem nextRequest_seeds (kind : JobKind F) (n : ℕ) :
    nextRequest kind (seeds kind.batch n) =
      if kind.testParams.maxUnits ≤ n * kind.batch then none
      else some (1 + n * kind.batch, kind.batch) := by
  have hbatch : ∀ batch maxUnits : ℤ, 1 ≤ batch → nextBatch batch maxUnits (seeds batch n) =
      if maxUnits ≤ n * batch then none else some (1 + n * batch, batch) := by
    intro batch maxUnits hpos
    rw [nextBatch, nextSeed_seeds (by omega)]
    by_cases hle : maxUnits ≤ n * batch
    · rw [if_pos hle]
      exact if_pos (decide_eq_true (by omega))
    · rw [if_neg hle]
      exact if_neg (by rw [pastTheCap, decide_eq_true_eq]; omega)
  cases kind with
  | games config => exact hbatch _ _ config.gamesPerBatch_pos
  | gamePairs config => exact hbatch _ _ config.pairsPerBatch_pos

end Seeds

section Slots

variable {kind : JobKind F} {slots : List (Slot ℤ)} {results : List (ℕ × GameResultsRecord)}

/-- Every task a batch past the one before it, none past the cap, and a result for each that is
completed. -/
structure Inv (kind : JobKind F) (slots : List (Slot ℤ)) (results : List (ℕ × GameResultsRecord)) :
    Prop where
  seed : slots.map Slot.seed = seeds kind.batch slots.length
  units : ∀ slot ∈ slots, slot.request = kind.batch
  cap : (slots.length : ℤ) * kind.batch < kind.testParams.maxUnits + kind.batch
  completed : results.length = slots.countP Slot.completed
  played : ∀ result ∈ results, Played kind result.2

theorem JobKind.batch_pos (kind : JobKind F) : 1 ≤ kind.batch := by
  cases kind with
  | games config => exact config.gamesPerBatch_pos
  | gamePairs config => exact config.pairsPerBatch_pos

theorem JobKind.maxUnits_pos (kind : JobKind F) : 1 ≤ kind.testParams.maxUnits := by
  cases kind with
  | games config => exact config.maxGames_pos
  | gamePairs config => exact config.maxPairs_pos

theorem JobKind.int32 (kind : JobKind F) :
    kind.batch < 2 ^ 31 ∧ kind.testParams.maxUnits < 2 ^ 31 := by
  cases kind with
  | games config => exact config.int32
  | gamePairs config => exact config.int32

theorem Inv.generate (h : Inv kind slots results) {seed units : ℤ}
    (hs : nextRequest kind (slots.map Slot.seed) = some (seed, units)) :
    Inv kind (slots ++ [⟨seed, units, false⟩]) results := by
  rw [h.seed, nextRequest_seeds] at hs
  split at hs
  · cases hs
  · next hlt =>
    cases hs
    refine ⟨?_, ?_, ?_, ?_, h.played⟩
    · rw [List.map_append, h.seed, List.length_append, List.length_singleton, seeds_succ]
      rfl
    · intro slot hslot
      rcases List.mem_append.1 hslot with hslot | hslot
      · exact h.units slot hslot
      · rw [List.mem_singleton.1 hslot]
    · rw [List.length_append, List.length_singleton, Int.natCast_succ, Int.add_mul]
      omega
    · rw [h.completed, List.countP_append]
      rfl

theorem countP_complete {slot : Slot ℤ} {i : ℕ} (hi : slots[i]? = some slot)
    (hopen : slot.completed = false) :
    (slots.set i { slot with completed := true }).countP Slot.completed =
      slots.countP Slot.completed + 1 := by
  obtain ⟨hlt, hget⟩ := List.getElem?_eq_some_iff.1 hi
  rw [List.countP_set hlt, hget, hopen]
  simp

theorem Inv.submit (h : Inv kind slots results) {slot : Slot ℤ} {i : ℕ}
    (hi : slots[i]? = some slot) (hopen : slot.completed = false) {record : GameResultsRecord}
    (hplayed : Played kind record) :
    Inv kind (slots.set i { slot with completed := true }) (results ++ [(i, record)]) := by
  refine ⟨?_, ?_, ?_, ?_, ?_⟩
  · have hseed : (slots.set i { slot with completed := true }).map Slot.seed =
        slots.map Slot.seed :=
      map_set_eq hi rfl
    rw [hseed, h.seed, List.length_set]
  · intro slot' hslot'
    rcases List.mem_or_eq_of_mem_set hslot' with hslot' | rfl
    · exact h.units slot' hslot'
    · exact h.units slot (List.mem_of_getElem? hi)
  · rw [List.length_set]
    exact h.cap
  · rw [countP_complete hi hopen, List.length_append, h.completed]
    rfl
  · intro result hresult
    rcases List.mem_append.1 hresult with hresult | hresult
    · exact h.played result hresult
    · rw [List.mem_singleton.1 hresult]
      exact hplayed

end Slots

section Invariant

variable [DecidableEq I] {checks : Checks P} {kind : JobKind F} {s s' : State I}

theorem Inv.next (h : Inv kind (slots s.tasks) s.results) {a : Action I P}
    (hs : next checks kind s a = some s') : Inv kind (slots s'.tasks) s'.results := by
  cases a with
  | lock identity =>
    obtain ⟨-, hs⟩ := Option.ite_none_right_eq_some.1 hs
    cases hs
    exact h
  | takeAvailable i =>
    obtain ⟨claim, -, hs⟩ := Option.bind_eq_some_iff.1 hs
    obtain ⟨-, hs⟩ := Option.ite_none_left_eq_some.1 hs
    obtain ⟨tasks, htasks, rfl⟩ := Option.map_eq_some_iff.1 hs
    rw [slots_takeAvailable htasks]
    exact h
  | noneAvailable =>
    obtain ⟨claim, -, hs⟩ := Option.bind_eq_some_iff.1 hs
    obtain ⟨-, hs⟩ := Option.ite_none_right_eq_some.1 hs
    cases hs
    exact h
  | generate =>
    obtain ⟨claim, -, hs⟩ := Option.bind_eq_some_iff.1 hs
    obtain ⟨-, hs⟩ := Option.ite_none_right_eq_some.1 hs
    split at hs
    · cases hs
      exact h
    · next seed units hrequest =>
      cases hs
      rw [← seeds_slots] at hrequest
      rw [slots_insertOnDemandTask]
      exact h.generate hrequest
  | rollback =>
    cases hs
    exact h
  | submit i response =>
    obtain ⟨⟨identity, task, tasks⟩, htasks, hs⟩ := Option.bind_eq_some_iff.1 hs
    obtain ⟨record, hrecord, rfl⟩ := Option.map_eq_some_iff.1 hs
    obtain ⟨hi, hopen, hslots⟩ := slots_complete htasks
    have hplayed : Played kind record := by
      cases hdecode : decodeResult checks kind response with
      | error message => rw [hdecode] at hrecord; cases hrecord
      | ok record' =>
        rw [hdecode] at hrecord
        cases hrecord
        exact played_of_decodeResult hdecode
    simp only
    rw [hslots]
    exact h.submit hi hopen hplayed
  | decline i =>
    obtain ⟨tasks, htasks, rfl⟩ := Option.map_eq_some_iff.1 hs
    simp only
    rw [slots_decline htasks]
    exact h
  | lapse i =>
    obtain ⟨tasks, htasks, rfl⟩ := Option.map_eq_some_iff.1 hs
    simp only
    rw [slots_lapse htasks]
    exact h

theorem inv_of_reachable (h : (machine checks kind).Reachable s) :
    Inv kind (slots s.tasks) s.results := by
  refine h.invariant (I := fun s ↦ Inv kind (slots s.tasks) s.results) ?_
    fun s a s' hi _ hs ↦ hi.next hs
  rintro s ⟨htasks, hresults, -⟩
  have hmax := kind.maxUnits_pos
  have hbatch := kind.batch_pos
  rw [htasks, hresults]
  refine ⟨rfl, nofun, ?_, rfl, nofun⟩
  change (0 : ℤ) * kind.batch < _
  omega

end Invariant

section Cap

variable [DecidableEq I] [Double F] {checks : Checks P} {kind : JobKind F} {s : State I}

def dispatched (s : State I) : ℤ := (s.tasks.map Task.request).sum

theorem sum_requests {slots : List (Slot ℤ)} {batch : ℤ}
    (h : ∀ slot ∈ slots, slot.request = batch) :
    (slots.map Slot.request).sum = slots.length * batch := by
  induction slots with
  | nil => simp
  | cons slot slots ih =>
    have hrest := ih fun slot' hslot' ↦ h slot' (List.mem_cons_of_mem _ hslot')
    have hfirst := h slot List.mem_cons_self
    rw [List.map_cons, List.sum_cons, hrest, hfirst, List.length_cons, Int.natCast_succ,
      Int.add_mul]
    omega

theorem ceilDiv_le_iff (max : ℤ) {batch : ℤ} (hbatch : 1 ≤ batch) (n : ℕ) :
    (max + batch - 1) / batch ≤ n ↔ max ≤ n * batch := by
  rw [← Int.lt_add_one_iff, Int.ediv_lt_iff_lt_mul (by omega), Int.add_mul]
  omega

/-- A job whose batch and cap are any that a job may have: its tasks' seeds are a batch apart from
1, so that no two tasks share one; it makes no more tasks than it takes to play its cap, and as
many before its next request is nothing; the units handed out stay within a batch of the cap;
and once nothing is left to hand out and every task is completed, no claim is open and the finish
check ends the job. -/
theorem cap_dispatched (h : (machine checks kind).Reachable s) :
    (∀ (i : ℕ) (task : Task I ℤ), s.tasks[i]? = some task →
      task.seed = 1 + i * kind.batch ∧ task.request = kind.batch ∧
        task.seed + kind.batch < 2 ^ 63) ∧
    s.tasks.Pairwise (fun task task' ↦ Disjoint (Set.Ico task.seed (task.seed + task.request))
      (Set.Ico task'.seed (task'.seed + task'.request))) ∧
    (s.tasks.length : ℤ) ≤ (kind.testParams.maxUnits + kind.batch - 1) / kind.batch ∧
    (nextRequest kind (s.tasks.map Task.seed) = none ↔
      (s.tasks.length : ℤ) = (kind.testParams.maxUnits + kind.batch - 1) / kind.batch) ∧
    dispatched s < kind.testParams.maxUnits + kind.batch ∧
    (nextRequest kind (s.tasks.map Task.seed) = none →
      kind.testParams.maxUnits ≤ dispatched s ∧
      ((∀ task ∈ s.tasks, task.state = .completed) →
        kind.testParams.maxUnits ≤ (gameStats kind (s.results.map Prod.snd)).unitsCompleted ∧
        jobHasOpenClaim s = false ∧
        (finishConditionMet kind (s.results.map Prod.snd)).isSome = true)) := by
  have hinv := inv_of_reachable h
  have hbatch := kind.batch_pos
  have hcap := hinv.cap
  rw [length_slots] at hcap
  have hseed (i : ℕ) (task : Task I ℤ) (hi : s.tasks[i]? = some task) :
      task.seed = 1 + i * kind.batch ∧ task.request = kind.batch := by
    have hslot := getElem?_slots hi
    have hget := congrArg (fun l : List ℤ ↦ l[i]?) hinv.seed
    simp only [List.getElem?_map, hslot, seeds, Option.map_some] at hget
    rw [List.getElem?_range (by
      rw [length_slots]
      exact (List.getElem?_eq_some_iff.1 hi).1), Option.map_some, Option.some.injEq] at hget
    exact ⟨hget, hinv.units task.slot (List.mem_of_getElem? hslot)⟩
  have hrequest : nextRequest kind (s.tasks.map Task.seed) = none ↔
      kind.testParams.maxUnits ≤ s.tasks.length * kind.batch := by
    rw [← seeds_slots, hinv.seed, nextRequest_seeds, length_slots]
    split
    · next hle => exact ⟨fun _ ↦ hle, fun _ ↦ rfl⟩
    · next hlt => exact ⟨nofun, fun hle ↦ absurd hle hlt⟩
  have hdispatched : dispatched s = s.tasks.length * kind.batch := by
    have hsum := sum_requests hinv.units
    rw [length_slots] at hsum
    rw [← hsum, dispatched, slots, List.map_map]
    rfl
  have hlength :
      (s.tasks.length : ℤ) ≤ (kind.testParams.maxUnits + kind.batch - 1) / kind.batch := by
    rw [Int.le_ediv_iff_mul_le (by omega)]
    omega
  refine ⟨fun i task hi ↦ ?_, ?_, hlength, ?_, hdispatched ▸ hcap, fun hnone ↦ ⟨?_, fun hall ↦ ?_⟩⟩
  · obtain ⟨hseedi, hunits⟩ := hseed i task hi
    refine ⟨hseedi, hunits, ?_⟩
    have hlt : (i : ℤ) + 1 ≤ s.tasks.length := by
      have := (List.getElem?_eq_some_iff.1 hi).1
      omega
    have hle := Int.mul_le_mul_of_nonneg_right hlt (Int.le_trans Int.one_nonneg hbatch)
    have hint32 := kind.int32
    rw [Int.add_mul] at hle
    omega
  · rw [List.pairwise_iff_getElem]
    intro i j hi hj hij
    obtain ⟨hseedi, hunitsi⟩ := hseed i _ (List.getElem?_eq_getElem hi)
    obtain ⟨hseedj, hunitsj⟩ := hseed j _ (List.getElem?_eq_getElem hj)
    have hlt : (i : ℤ) + 1 ≤ j := by omega
    have hle := Int.mul_le_mul_of_nonneg_right hlt (Int.le_trans Int.one_nonneg hbatch)
    rw [Int.add_mul] at hle
    rw [Set.Ico_disjoint_Ico, hseedi, hseedj, hunitsi, hunitsj]
    omega
  · have hceil := ceilDiv_le_iff kind.testParams.maxUnits hbatch s.tasks.length
    rw [hrequest, ← hceil]
    omega
  · rw [hdispatched]
    exact hrequest.1 hnone
  · have hcompleted : (s.results.map Prod.snd).length = s.tasks.length := by
      rw [List.length_map, hinv.completed, List.countP_eq_length.2 fun slot hslot ↦ ?_,
        length_slots]
      obtain ⟨task, htask, rfl⟩ := List.mem_map.1 hslot
      exact Task.slot_completed.2 (hall task htask)
    have hplayed : ∀ record ∈ s.results.map Prod.snd, Played kind record := by
      intro record hrecord
      obtain ⟨result, hresult, rfl⟩ := List.mem_map.1 hrecord
      exact hinv.played result hresult
    have hunits := unitsCompleted_eq hplayed (by omega)
    rw [hcompleted] at hunits
    have hmax := hrequest.1 hnone
    refine ⟨by omega, ?_, finishConditionMet_of_le (by omega)⟩
    rw [jobHasOpenClaim, List.any_eq_false]
    intro task htask
    rw [hall task htask]
    exact Bool.false_ne_true

instance : Double Float where
  ofNat n := Float.ofNat n
  sqrt := Float.sqrt
  ln := Float.log
  max a b := if a < b then b else a
  min a b := if a < b then a else b
  lt a b := a < b
  infinity := 1.0 / 0.0

def twoPairs : JobKind Float :=
  .gamePairs ⟨1, true, 1, 2, 95.0, by decide, by decide, by decide, by decide⟩

def noChecks : Checks Unit := ⟨fun _ _ ↦ .ok (), fun _ ↦ .ok (), fun _ ↦ .ok ()⟩

def split : GameResultsResponse Unit := ⟨⟨2, 1, 1, 0⟩, some ![0, 0, 1, 0, 0], none, ()⟩

theorem exists_cap_dispatched : ∃ s : State ℕ, (machine noChecks twoPairs).Reachable s ∧
    s.tasks.map Task.seed = [1, 2] ∧ jobHasOpenClaim s = false ∧
    (finishConditionMet twoPairs (s.results.map Prod.snd)).isSome = true := by
  have hstart : (machine noChecks twoPairs).Reachable (⟨[], [], none⟩ : State ℕ) :=
    .start ⟨rfl, rfl, rfl⟩
  obtain ⟨s, hs, hp⟩ := hstart.follow_any
    [.lock 0, .noneAvailable, .generate, .decline 0, .lock 0, .noneAvailable, .generate, .lock 1,
      .takeAvailable 0, .submit 1 split, .submit 0 split]
    (fun s ↦ s.tasks.map Task.seed = [1, 2] ∧ (∀ task ∈ s.tasks, task.state = .completed) ∧
      nextRequest twoPairs (s.tasks.map Task.seed) = none) (by decide)
  obtain ⟨hseeds, hall, hnone⟩ := of_decide_eq_true hp
  exact ⟨s, hs, hseeds, (((cap_dispatched hs).2.2.2.2.2 hnone).2 hall).2⟩

end Cap

end Birdtest.Jobs.Game
