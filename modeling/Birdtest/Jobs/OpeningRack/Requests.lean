import Birdtest.Base.Batches
import Birdtest.Jobs.Racks.Scatter

namespace Birdtest.Jobs.OpeningRack.Requests

open Birdtest.Base.Bags Birdtest.Base.Batches Birdtest.Base.Checked Birdtest.Jobs.Racks

def wrapI64 (n : ℤ) : ℤ := Int.bmod n (2 ^ 64)

def asU64 (n : ℤ) : ℕ := (n % 2 ^ 64).toNat

theorem wrapI64_eq {n : ℤ} (hpos : 0 ≤ n) (hlt : n < 2 ^ 63) : wrapI64 n = n :=
  Int.bmod_eq_of_le (by omega) (by omega)

theorem asU64_eq {n : ℕ} (h : n < 2 ^ 64) : asU64 n = n := by
  rw [asU64]
  omega

section NextRequest

variable (index : RackIndex) (racksPerBatch : ℕ) (seeds : List ℤ)

def totalRacks : ℤ := wrapI64 index.total

def nextStart : ℤ :=
  match seeds.max? with
  | none => 0
  | some last => wrapI64 (last + racksPerBatch)

/-- The racks of the next task: a slice of the rack space, and once it is covered those of
`reissued`, where the settings reissue racks. -/
def nextRacks (reissues : Bool) (reissued : List Text) (start : ℤ) : Except Panic (List Text) :=
  if start < totalRacks index then index.racksInRange (asU64 start) racksPerBatch
  else if reissues then .ok reissued
  else .ok []

def nextRequest (reissues : Bool) (reissued : List Text) :
    Except Panic (Option (ℤ × List Text)) := do
  let start := nextStart racksPerBatch seeds
  let racks ← nextRacks index racksPerBatch reissues reissued start
  .ok (if racks = [] then none else some (start, racks))

end NextRequest

structure Request where
  rackStart : ℤ
  rackCount : ℤ
  racks : Option (List Text)
  deriving DecidableEq

def insertRequest (index : RackIndex) (start : ℤ) (racks : List Text) : Request where
  rackStart := start
  rackCount := racks.length
  racks := if totalRacks index ≤ start then some racks else none

def taskRacks (index : RackIndex) (request : Request) : Except Panic (List Text) :=
  match request.racks with
  | some racks => .ok racks
  | none => index.racksInRange (asU64 request.rackStart) (asU64 request.rackCount)

section Slices

variable {index : RackIndex} {racksPerBatch : ℕ}

theorem total_lt {n : ℕ} (h : n < multiplier) : n < 2 ^ 61 :=
  h.trans (by norm_num [multiplier])

theorem totalRacks_eq (h : index.total < multiplier) : totalRacks index = index.total := by
  have := total_lt h
  exact wrapI64_eq (by omega) (by omega)

/-- The order in which a job's first pass takes the racks of its space. -/
structure Scattered (index : RackIndex) (order : List Text) : Prop where
  perm : order.Perm index.racks
  rackAt : ∀ i : ℕ, index.rackAt i = .ok order[i]?
  total_lt : index.total < multiplier

theorem exists_order (h : index.total < multiplier) : ∃ order, Scattered index order := by
  obtain ⟨order, hperm, hrackAt⟩ := RackIndex.exists_scattered h
  exact ⟨order, hperm, hrackAt, h⟩

variable {order : List Text}

theorem Scattered.length (h : Scattered index order) : order.length = index.total :=
  h.perm.length_eq.trans (RackIndex.length_racks h.total_lt)

theorem Scattered.nodup (h : Scattered index order) : order.Nodup :=
  h.perm.nodup_iff.2 (.of_map _ (nodup_draws (nodup_bag index.sorted)))

theorem Scattered.racksInRange (h : Scattered index order) {start : ℕ} (hstart : start < 2 ^ 64)
    (count : ℕ) : index.racksInRange start count = .ok ((order.drop start).take count) :=
  RackIndex.racksInRange_eq h.total_lt h.perm h.rackAt hstart count

def cursors (racksPerBatch n : ℕ) : List ℤ :=
  (List.range n).map fun i ↦ ((i * racksPerBatch : ℕ) : ℤ)

theorem max?_cursors (racksPerBatch n : ℕ) :
    (cursors racksPerBatch (n + 1)).max? = some ((n * racksPerBatch : ℕ) : ℤ) := by
  rw [List.max?_eq_some_iff]
  refine ⟨List.mem_map.2 ⟨n, List.mem_range.2 (Nat.lt_succ_self n), rfl⟩, fun seed hseed ↦ ?_⟩
  obtain ⟨i, hi, rfl⟩ := List.mem_map.1 hseed
  exact Int.ofNat_le.2 (Nat.mul_le_mul_right _ (Nat.le_of_lt_succ (List.mem_range.1 hi)))

theorem nextStart_cursors {n : ℕ} (h : n * racksPerBatch < 2 ^ 63) :
    nextStart racksPerBatch (cursors racksPerBatch n) = ((n * racksPerBatch : ℕ) : ℤ) := by
  cases n with
  | zero => simp [nextStart, cursors]
  | succ n =>
    rw [nextStart, max?_cursors]
    rw [Nat.succ_mul] at h ⊢
    exact wrapI64_eq (by omega) (by omega)

theorem Scattered.nextRacks_lt (h : Scattered index order) {start : ℕ} (hlt : start < index.total)
    (reissues : Bool) (reissued : List Text) :
    nextRacks index racksPerBatch reissues reissued start =
      .ok ((order.drop start).take racksPerBatch) := by
  have hfits := Requests.total_lt h.total_lt
  rw [nextRacks, totalRacks_eq h.total_lt, if_pos (by omega), asU64_eq (by omega)]
  exact h.racksInRange (by omega) _

theorem Scattered.nextRacks_ge (h : Scattered index order) {start : ℕ} (hge : index.total ≤ start) :
    nextRacks index racksPerBatch false [] start = .ok [] := by
  rw [nextRacks, totalRacks_eq h.total_lt, if_neg (by omega)]
  rfl

theorem Scattered.taskRacks_insertRequest (h : Scattered index order) {start : ℕ}
    (hlt : start < index.total) :
    taskRacks index (insertRequest index start ((order.drop start).take racksPerBatch)) =
      .ok ((order.drop start).take racksPerBatch) := by
  have hfits := Requests.total_lt h.total_lt
  have hlength : ((order.drop start).take racksPerBatch).length ≤ index.total := by
    rw [List.length_take, List.length_drop, h.length]
    omega
  rw [insertRequest, totalRacks_eq h.total_lt, if_neg (by omega)]
  simp only [taskRacks]
  rw [asU64_eq (by omega), asU64_eq (by omega), h.racksInRange (by omega)]
  exact congrArg _ (List.take_eq_take_iff.2 (by rw [List.length_take]; omega))

end Slices

section Batches

variable {index : RackIndex}

/-- The scattered order of a rack space, as long as its total is below the multiplier: `scatter`
permutes its indices, `rack_at` reads off each rack of the space once, and the tasks a first pass
makes, at the cursors that `next_request` reads from the tasks before them, take every rack in
turn, until nothing is left. -/
theorem batches_cover (h : index.total < multiplier) {racksPerBatch : ℕ}
    (hpos : 1 ≤ racksPerBatch) (hlt : racksPerBatch < 2 ^ 31) :
    (∃ e : Equiv.Perm (Fin index.total), ∀ i : Fin index.total, index.scatter i = .ok (e i : ℕ)) ∧
    ∃ racks : List Text,
      (∀ i : ℕ, index.rackAt i = .ok racks[i]?) ∧
      racks.length = index.total ∧
      (racks.map Multiset.ofList).Nodup ∧
      (∀ m, m ∈ racks.map Multiset.ofList ↔ m ∈ within (bag index.tiles) index.size) ∧
      ∃ batches : List (List Text),
        batches.flatten = racks ∧ (∀ batch ∈ batches, batch ≠ []) ∧
        (∀ i (hi : i < batches.length),
          nextRequest index racksPerBatch (cursors racksPerBatch i) false [] =
            .ok (some (((i * racksPerBatch : ℕ) : ℤ), batches[i]))) ∧
        nextRequest index racksPerBatch (cursors racksPerBatch batches.length) false [] =
          .ok none := by
  obtain ⟨order, horder⟩ := exists_order h
  have hfits := total_lt h
  have hnodup := nodup_bag index.sorted
  refine ⟨RackIndex.exists_perm_scatter h, order, horder.rackAt, horder.length,
    ((horder.perm.map _).nodup_iff).2 (nodup_draws hnodup), fun m ↦ ?_, ?_⟩
  · rw [(horder.perm.map Multiset.ofList).mem_iff]
    exact mem_map_draws hnodup
  -- As many batches as it takes to reach the end of the space.
  obtain ⟨n, hn, hlast⟩ : ∃ n, index.total ≤ n * racksPerBatch ∧
      ∀ i < n, i * racksPerBatch < index.total := by
    have hex : ∃ n, index.total ≤ n * racksPerBatch := ⟨index.total, Nat.le_mul_of_pos_right _ hpos⟩
    exact ⟨Nat.find hex, Nat.find_spec hex, fun i hi ↦ Nat.lt_of_not_le (Nat.find_min hex hi)⟩
  refine ⟨(List.range n).map fun i ↦ (order.drop (i * racksPerBatch)).take racksPerBatch,
    ?_, ?_, fun i hi ↦ ?_, ?_⟩
  · rw [← List.flatMap_def, flatMap_batches, List.take_of_length_le (horder.length ▸ hn)]
  · intro batch hbatch
    obtain ⟨i, hi, rfl⟩ := List.mem_map.1 hbatch
    have := hlast i (List.mem_range.1 hi)
    rw [← List.length_pos_iff, List.length_take, List.length_drop, horder.length]
    omega
  · rw [List.length_map, List.length_range] at hi
    have hcursor := hlast i hi
    rw [nextRequest, nextStart_cursors (by omega), horder.nextRacks_lt hcursor]
    simp only [bind, Except.bind, List.getElem_map, List.getElem_range]
    rw [if_neg]
    rw [← List.length_eq_zero_iff, List.length_take, List.length_drop, horder.length]
    omega
  · have hcursor : n * racksPerBatch < 2 ^ 63 := by
      cases n with
      | zero => omega
      | succ n =>
        have := hlast n (Nat.lt_succ_self n)
        rw [Nat.succ_mul]
        omega
    rw [List.length_map, List.length_range, nextRequest, nextStart_cursors hcursor,
      horder.nextRacks_ge hn]
    rfl

theorem exists_batches_cover : ∃ distribution index,
    parse twoLetters.toUTF8 "two" = .ok distribution ∧ RackIndex.new distribution 2 = .ok index ∧
    ∃ batches : List (List Text), batches.flatten.length = 2 ∧
      nextRequest index 3 (cursors 3 batches.length) false [] = .ok none := by
  obtain ⟨distribution, hparse, htiles, hnone⟩ := exists_parse_twoLetters
  obtain ⟨index, hnew⟩ := exists_new 2 hnone
  obtain ⟨htiles', hsize⟩ := of_new hnew
  have htotal : index.total = 2 := by
    rw [index.total_eq, RackIndex.racks, htiles', hsize, htiles]
    decide
  have hlt : index.total < multiplier := by
    rw [htotal]
    norm_num [multiplier]
  obtain ⟨-, racks, -, hlength, -, -, batches, hflatten, -, -, hdone⟩ :=
    batches_cover hlt (Nat.succ_pos 2) (by norm_num)
  exact ⟨distribution, index, hparse, hnew, batches, by rw [hflatten, hlength, htotal], hdone⟩

end Batches

end Birdtest.Jobs.OpeningRack.Requests
