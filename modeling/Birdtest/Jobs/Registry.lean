import Mathlib.Data.Int.Notation
import Mathlib.Data.List.Basic

namespace Birdtest.Jobs.Registry

variable {I Q : Type}

inductive TaskState (I : Type)
  | available
  | claimed (identity : I)
  | completed
  deriving DecidableEq

structure Task (I Q : Type) where
  seed : ℤ
  request : Q
  state : TaskState I
  declinedBy : List I

section Tasks

variable (tasks : List (Task I Q))

def takeAvailable (identity : I) (i : ℕ) : Option (List (Task I Q)) :=
  tasks[i]?.bind fun task ↦
    match task.state with
    | .available => some (tasks.set i { task with state := .claimed identity })
    | _ => none

/-- `next_available`, where it answers none: a task that the identity declined is not one it
may take. -/
def noneAvailable [DecidableEq I] (identity : I) : Bool :=
  tasks.all fun task ↦ task.state ≠ .available ∨ identity ∈ task.declinedBy

def insertOnDemandTask (seed : ℤ) (request : Q) (identity : I) : List (Task I Q) :=
  tasks ++ [⟨seed, request, .claimed identity, []⟩]

/-- The task, whoever holds it, and the tasks once it is completed. -/
def complete (i : ℕ) : Option (I × Task I Q × List (Task I Q)) :=
  tasks[i]?.bind fun task ↦
    match task.state with
    | .claimed identity => some (identity, task, tasks.set i { task with state := .completed })
    | _ => none

def decline (i : ℕ) : Option (List (Task I Q)) :=
  tasks[i]?.bind fun task ↦
    match task.state with
    | .claimed identity => some (tasks.set i
        { task with state := .available, declinedBy := identity :: task.declinedBy })
    | _ => none

def lapse (i : ℕ) : Option (List (Task I Q)) :=
  tasks[i]?.bind fun task ↦
    match task.state with
    | .claimed _ => some (tasks.set i { task with state := .available })
    | _ => none

end Tasks

def TaskState.isCompleted : TaskState I → Bool
  | .completed => true
  | _ => false

structure Slot (Q : Type) where
  seed : ℤ
  request : Q
  completed : Bool

def Task.slot (task : Task I Q) : Slot Q := ⟨task.seed, task.request, task.state.isCompleted⟩

def slots (tasks : List (Task I Q)) : List (Slot Q) := tasks.map Task.slot

section Slots

theorem map_set_eq {α β : Type} {l : List α} {i : ℕ} {a b : α} {f : α → β} (hi : l[i]? = some a)
    (h : f b = f a) : (l.set i b).map f = l.map f := by
  obtain ⟨hlt, -⟩ := List.getElem?_eq_some_iff.1 hi
  refine List.ext_getElem? fun j ↦ ?_
  rw [List.getElem?_map, List.getElem?_map]
  rcases Nat.decEq i j with hij | rfl
  · rw [List.getElem?_set_ne hij]
  · rw [List.getElem?_set_self hlt, hi, Option.map_some, Option.map_some, h]

variable {tasks tasks' : List (Task I Q)} {task task' : Task I Q} {identity : I} {i : ℕ}

theorem Task.slot_completed : task.slot.completed = true ↔ task.state = .completed := by
  cases h : task.state <;> simp [Task.slot, TaskState.isCompleted, h]

theorem length_slots : (slots tasks).length = tasks.length := List.length_map _

theorem seeds_slots : (slots tasks).map Slot.seed = tasks.map Task.seed := by
  rw [slots, List.map_map]
  rfl

theorem getElem?_slots (h : tasks[i]? = some task) : (slots tasks)[i]? = some task.slot := by
  rw [slots, List.getElem?_map, h]
  rfl

theorem slots_set (hi : tasks[i]? = some task) (h : task'.slot = task.slot) :
    slots (tasks.set i task') = slots tasks := map_set_eq hi h

theorem slots_takeAvailable (h : takeAvailable tasks identity i = some tasks') :
    slots tasks' = slots tasks := by
  obtain ⟨task, htask, h⟩ := Option.bind_eq_some_iff.1 h
  split at h
  · next hstate =>
    cases h
    exact slots_set htask (by rw [Task.slot, Task.slot, hstate]; rfl)
  · cases h

theorem slots_decline (h : decline tasks i = some tasks') : slots tasks' = slots tasks := by
  obtain ⟨task, htask, h⟩ := Option.bind_eq_some_iff.1 h
  split at h
  · next hstate =>
    cases h
    exact slots_set htask (by rw [Task.slot, Task.slot, hstate]; rfl)
  · cases h

theorem slots_lapse (h : lapse tasks i = some tasks') : slots tasks' = slots tasks := by
  obtain ⟨task, htask, h⟩ := Option.bind_eq_some_iff.1 h
  split at h
  · next hstate =>
    cases h
    exact slots_set htask (by rw [Task.slot, Task.slot, hstate]; rfl)
  · cases h

theorem slots_insertOnDemandTask (seed : ℤ) (request : Q) :
    slots (insertOnDemandTask tasks seed request identity) =
      slots tasks ++ [⟨seed, request, false⟩] := by
  rw [slots, insertOnDemandTask, List.map_append]
  rfl

theorem slots_complete (h : complete tasks i = some (identity, task, tasks')) :
    (slots tasks)[i]? = some task.slot ∧ task.slot.completed = false ∧
      slots tasks' = (slots tasks).set i { task.slot with completed := true } := by
  obtain ⟨found, hfound, h⟩ := Option.bind_eq_some_iff.1 h
  split at h
  · next hstate =>
    cases h
    refine ⟨getElem?_slots hfound, by rw [Task.slot, hstate]; rfl, ?_⟩
    rw [slots, slots, List.map_set]
    rfl
  · cases h

end Slots

end Birdtest.Jobs.Registry
