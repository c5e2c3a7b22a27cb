import Birdtest.Jobs.OpeningRack.Coverage

namespace Birdtest.Jobs.OpeningRack.Dispatch

open Birdtest.Base.Runs Birdtest.Base.Checked
open Birdtest.Jobs.Racks Birdtest.Jobs.Registry Birdtest.Jobs.OpeningRack.Consensus
open Birdtest.Jobs.OpeningRack.Requests

variable {I M F : Type}

def checkBatch (index : RackIndex) (request : Request) (reported : List Text) :
    Except Panic (Except BatchError Unit) :=
  (taskRacks index request).map fun expected ↦ checkBatchAgainstTask expected reported

def State.requests (s : State I M F) : List Request := s.tasks.map (·.request)

section Check

variable {index : RackIndex} {request : Request} {expected reported seen racks : List Text}

theorem firstTwice_of_nodup (h : racks.Nodup) (hseen : ∀ rack ∈ racks, rack ∉ seen) :
    firstTwice seen racks = none := by
  induction racks generalizing seen with
  | nil => rfl
  | cons rack racks ih =>
    obtain ⟨hrack, hnodup⟩ := List.nodup_cons.1 h
    obtain ⟨hhead, htail⟩ := List.forall_mem_cons.1 hseen
    rw [firstTwice, if_neg hhead]
    refine ih hnodup fun rack' hmem hcons ↦ ?_
    rcases List.mem_cons.1 hcons with rfl | hmem'
    · exact hrack hmem
    · exact htail rack' hmem hmem'

theorem checkBatchAgainstTask_iff (hnodup : expected.Nodup) :
    checkBatchAgainstTask expected reported = .ok () ↔ reported.Perm expected := by
  refine ⟨checkBatchAgainstTask_ok, fun h ↦ ?_⟩
  have hstray : reported.find? (· ∉ expected) = none :=
    List.find?_eq_none.2 fun rack hrack ↦ by simpa using h.subset hrack
  rw [checkBatchAgainstTask, if_neg (not_not.2 h.length_eq), hstray,
    firstTwice_of_nodup (h.nodup_iff.2 hnodup) (fun _ _ ↦ List.not_mem_nil)]

theorem checkBatch_iff (hracks : taskRacks index request = .ok racks) (hnodup : racks.Nodup) :
    checkBatch index request reported = .ok (.ok ()) ↔ reported.Perm racks := by
  rw [checkBatch, hracks, ← checkBatchAgainstTask_iff hnodup]
  exact ⟨Except.ok.inj, congrArg _⟩

theorem exists_slice (h : index.total < multiplier) (start count : ℤ) :
    ∃ racks, taskRacks index ⟨start, count, none⟩ = .ok racks ∧ racks.Nodup := by
  obtain ⟨order, horder⟩ := exists_order h
  have hstart : asU64 start < 2 ^ 64 := by
    rw [asU64]
    omega
  exact ⟨_, horder.racksInRange hstart _,
    (List.take_sublist _ _).nodup ((List.drop_sublist _ _).nodup horder.nodup)⟩

end Check

section History

variable [DecidableEq I] [LinearOrder M] (arithmetic : Arithmetic F) (config : OpeningRackConfig)

def handedOut (s : State I M F) : Action I M F → List (List Text)
  | .commit =>
    match s.claim with
    | some ⟨_, .request _ racks⟩ => [racks]
    | _ => []
  | _ => []

def handing : Machine (State I M F × List (List Text)) (Action I M F) where
  start p := created arithmetic p.1 ∧ p.2 = []
  next p a := (next arithmetic config p.1 a).map fun s ↦ (s, p.2 ++ handedOut p.1 a)

variable {arithmetic config} {s s' : State I M F} {p : State I M F × List (List Text)}

theorem reachable_of_handing (h : (handing arithmetic config).Reachable p) :
    (machine arithmetic config).Reachable p.1 := by
  induction h with
  | start h => exact .start h.1
  | step _ _ hs ih =>
    obtain ⟨s', hs', rfl⟩ := Option.map_eq_some_iff.1 hs
    exact .step ih trivial hs'

theorem exists_handing (h : (machine arithmetic config).Reachable s) :
    ∃ handed, (handing arithmetic config).Reachable (s, handed) := by
  induction h with
  | start h => exact ⟨[], .start ⟨h, rfl⟩⟩
  | step _ _ hs ih =>
    obtain ⟨handed, hreach⟩ := ih
    exact ⟨_, .step hreach trivial (Option.map_eq_some_iff.2 ⟨_, hs, rfl⟩)⟩

omit [DecidableEq I] [LinearOrder M] in
theorem requests_of_slots {tasks : List (Task I Request)} (h : slots tasks = s.slots) :
    tasks.map (·.request) = s.requests := by
  have hmap := congrArg (List.map Slot.request) h
  rwa [State.slots, slots, slots, List.map_map, List.map_map] at hmap

theorem requests_next {a : Action I M F} (h : next arithmetic config s a = some s') :
    (s'.requests = s.requests ∧ handedOut s a = []) ∨
      ∃ identity start racks, s.claim = some ⟨identity, .request start racks⟩ ∧
        s'.requests = s.requests ++ [insertRequest config.index start racks] ∧
        handedOut s a = [racks] := by
  cases a with
  | lock identity =>
    obtain ⟨-, h⟩ := Option.ite_none_right_eq_some.1 h
    cases h
    exact .inl ⟨rfl, rfl⟩
  | takeAvailable i =>
    obtain ⟨claim, -, h⟩ := Option.bind_eq_some_iff.1 h
    split at h
    · obtain ⟨tasks, htasks, rfl⟩ := Option.map_eq_some_iff.1 h
      exact .inl ⟨requests_of_slots (slots_takeAvailable htasks), rfl⟩
    · cases h
  | noneAvailable =>
    obtain ⟨claim, -, h⟩ := Option.bind_eq_some_iff.1 h
    split at h
    · obtain ⟨-, h⟩ := Option.ite_none_right_eq_some.1 h
      cases h
      exact .inl ⟨rfl, rfl⟩
    · cases h
  | statement =>
    obtain ⟨claim, -, rfl⟩ := Option.map_eq_some_iff.1 h
    exact .inl ⟨rfl, rfl⟩
  | commit =>
    obtain ⟨⟨identity, phase⟩, hclaim, h⟩ := Option.bind_eq_some_iff.1 h
    split at h
    · next start racks hphase =>
      cases h
      obtain rfl : phase = .request start racks := hphase
      refine .inr ⟨identity, start, racks, hclaim, List.map_append, ?_⟩
      rw [handedOut, hclaim]
    · cases h
  | rollback =>
    cases h
    exact .inl ⟨rfl, rfl⟩
  | submit i reported =>
    obtain ⟨⟨identity, task, tasks⟩, htasks, h⟩ := Option.bind_eq_some_iff.1 h
    obtain ⟨hk, -, hslots⟩ := slots_complete htasks
    simp only at h
    split at h
    case h_1 => cases h
    case h_2 =>
    split at h
    case h_1 => cases h
    case h_2 =>
    obtain ⟨job, -, rfl⟩ := Option.map_eq_some_iff.1 h
    refine .inl ⟨?_, rfl⟩
    have hrequests : (slots tasks).map Slot.request = (slots s.tasks).map Slot.request := by
      rw [hslots]
      exact map_set_eq hk rfl
    rwa [slots, slots, List.map_map, List.map_map] at hrequests
  | decline i =>
    obtain ⟨tasks, htasks, rfl⟩ := Option.map_eq_some_iff.1 h
    exact .inl ⟨requests_of_slots (slots_decline htasks), rfl⟩
  | lapse i =>
    obtain ⟨tasks, htasks, rfl⟩ := Option.map_eq_some_iff.1 h
    exact .inl ⟨requests_of_slots (slots_lapse htasks), rfl⟩
  | edit settings =>
    obtain ⟨-, h⟩ := Option.ite_none_right_eq_some.1 h
    cases h
    exact .inl ⟨rfl, rfl⟩

structure ReadsBack (index : RackIndex) (request : Request) (racks : List Text) : Prop where
  taskRacks : taskRacks index request = .ok racks
  nodup : racks.Nodup
  listed : ∀ listed ∈ request.racks, listed = racks

theorem readsBack_insertRequest {order : List Text} {slots : List (Slot Request)}
    {racks : List Text} (horder : Scattered config.index order)
    (h : Offered config order slots racks) :
    ReadsBack config.index (insertRequest config.index
      ((slots.length * config.racksPerBatch : ℕ) : ℤ) racks) racks := by
  refine ⟨h.taskRacks horder, h.nodup, fun listed hlisted ↦ ?_⟩
  rw [insertRequest] at hlisted
  split_ifs at hlisted
  · exact (Option.some.inj hlisted).symm
  · cases hlisted

theorem readsBack_of_reachable (h : (handing arithmetic config).Reachable p) :
    List.Forall₂ (ReadsBack config.index) p.1.requests p.2 := by
  obtain ⟨order, horder⟩ := exists_order config.total_lt
  induction h with
  | start h =>
    obtain ⟨⟨-, -, htasks, -⟩, hhanded⟩ := h
    rw [State.requests, htasks, hhanded]
    exact .nil
  | step hreach _ hs ih =>
    obtain ⟨s', hs', rfl⟩ := Option.map_eq_some_iff.1 hs
    obtain ⟨hrequests, hhanded⟩ | ⟨identity, start, racks, hclaim, hrequests, hhanded⟩ :=
      requests_next hs'
    · rw [hrequests, hhanded, List.append_nil]
      exact ih
    · rw [hrequests, hhanded]
      obtain ⟨rfl, hoffered⟩ :=
        (inv_of_reachable (reachable_of_handing hreach) horder).ready _ hclaim
      exact List.rel_append ih (.cons (readsBack_insertRequest horder hoffered) .nil)

/-- A task's row reads back as the racks that were handed out with it, and a batch passes where it
reports these in any order and nothing else. So it is with any slice of the space. -/
theorem check_batch_exact (h : (machine arithmetic config).Reachable s) :
    (∃ handed, (handing arithmetic config).Reachable (s, handed)) ∧
    (∀ handed, (handing arithmetic config).Reachable (s, handed) →
      handed.length = s.tasks.length ∧
      ∀ (i : ℕ) (task : Task I Request) (racks : List Text), s.tasks[i]? = some task →
        handed[i]? = some racks →
        taskRacks config.index task.request = .ok racks ∧
        (∀ listed ∈ task.request.racks, listed = racks) ∧
        ∀ reported, checkBatch config.index task.request reported = .ok (.ok ()) ↔
          reported.Perm racks) ∧
    ∀ start count, ∃ racks, taskRacks config.index ⟨start, count, none⟩ = .ok racks ∧
      ∀ reported, checkBatch config.index ⟨start, count, none⟩ reported = .ok (.ok ()) ↔
        reported.Perm racks := by
  refine ⟨exists_handing h, fun handed hreach ↦ ?_, fun start count ↦ ?_⟩
  · have hall := readsBack_of_reachable hreach
    refine ⟨?_, fun i task racks htask hracks ↦ ?_⟩
    · rw [← hall.length_eq, State.requests, List.length_map]
    · have hrequest : s.requests[i]? = some task.request := by
        rw [State.requests, List.getElem?_map, htask]
        rfl
      obtain ⟨hi, hrequest⟩ := List.getElem?_eq_some_iff.1 hrequest
      obtain ⟨hi', hracks⟩ := List.getElem?_eq_some_iff.1 hracks
      have hreads := hall.get hi hi'
      rw [List.get_eq_getElem, List.get_eq_getElem] at hreads
      rw [hrequest, hracks] at hreads
      exact ⟨hreads.taskRacks, hreads.listed, fun _ ↦ checkBatch_iff hreads.taskRacks hreads.nodup⟩
  · obtain ⟨racks, hracks, hnodup⟩ := exists_slice config.total_lt start count
    exact ⟨racks, hracks, fun _ ↦ checkBatch_iff hracks hnodup⟩

end History

theorem exists_check_batch_exact : ∃ (s : State ℕ ℕ ℤ) (handed : List (List Text)),
    (handing wholeNumbers twoRacks).Reachable (s, handed) ∧ handed = [[['B']], [['A']], [['A']]] ∧
    ∀ task ∈ s.tasks[2]?, ∀ reported,
      checkBatch twoRacks.index task.request reported = .ok (.ok ()) ↔ reported.Perm [['A']] := by
  obtain ⟨⟨s, handed⟩, hs, hp⟩ := Machine.ReachableBy.follow_any
    (.start ⟨⟨⟨rfl, rfl, rfl, rfl, rfl⟩, by decide, rfl, rfl⟩, rfl⟩ :
      (handing wholeNumbers twoRacks).Reachable (fresh, [])) reissuedRun
    (fun p ↦ p.2 = [[['B']], [['A']], [['A']]]) (by decide)
  obtain rfl : handed = _ := of_decide_eq_true hp
  refine ⟨s, _, hs, rfl, fun task htask ↦ ?_⟩
  exact (((check_batch_exact (reachable_of_handing hs)).2.1 _ hs).2 2 task _ htask rfl).2.2

end Birdtest.Jobs.OpeningRack.Dispatch
