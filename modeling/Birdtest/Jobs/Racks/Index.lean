import Birdtest.Base.Bags
import Birdtest.Base.Checked
import Birdtest.Jobs.Racks.Distribution
import Mathlib.Algebra.Group.Action.Defs

namespace Birdtest.Jobs.Racks

open Birdtest.Base.Bags Birdtest.Base.Checked

def rackSize : ℕ := 7

def bag (tiles : List Tile) : List (Char × ℕ) := tiles.map fun tile ↦ (tile.letter, tile.count)

/-- The racks a walk of the tiles pushes, in order, `current` being the rack so far. -/
def walk : List Tile → ℕ → Text → List Text
  | [], remaining, current => if remaining = 0 then [current] else []
  | tile :: tiles, remaining, current =>
    if remaining = 0 then [current]
    else
      let available := ((tile :: tiles).map (·.count)).sum % 2 ^ 32
      if available < remaining then []
      else
        let maxTake := min tile.count (remaining % 2 ^ 32)
        (List.range (maxTake + 1)).reverse.flatMap fun take ↦
          walk tiles (remaining - take) (current ++ List.replicate take tile.letter)

def LetterDistribution.enumerateRacks (distribution : LetterDistribution) (size : ℕ) : List Text :=
  walk distribution.tiles size []

def countsRow (size : ℕ) (tile : Tile) (below : List ℕ) : List ℕ :=
  (List.range (size + 1)).map fun k ↦
    (List.range (min tile.count k + 1)).foldl
      (fun total take ↦ saturatingAdd 64 total (below.getD (k - take) 0)) 0

/-- The table `counts` of the tiles: the last row is of the empty suffix. -/
def countsTable (size : ℕ) : List Tile → List (List ℕ)
  | [] => [1 :: List.replicate size 0]
  | tile :: tiles =>
    countsRow size tile ((countsTable size tiles).headD []) :: countsTable size tiles

structure RackIndex where
  tiles : List Tile
  counts : List (List ℕ)
  size : ℕ
  sorted : (tiles.map (·.letter)).Pairwise (· < ·)
  counts_eq : counts = countsTable size tiles

theorem countsTable_ne_nil (size : ℕ) (tiles : List Tile) : countsTable size tiles ≠ [] := by
  cases tiles <;> simp [countsTable]

theorem length_head_countsTable (size : ℕ) (tiles : List Tile) :
    ((countsTable size tiles).head (countsTable_ne_nil size tiles)).length = size + 1 := by
  cases tiles <;> simp [countsTable, countsRow]

namespace RackIndex

variable (index : RackIndex)

def new (distribution : LetterDistribution) (size : ℕ) : Except Unenumerable RackIndex :=
  match h : distribution.unenumerable with
  | some reason => .error reason
  | none =>
    .ok {
      tiles := distribution.tiles
      counts := countsTable size distribution.tiles
      size
      sorted := distribution.sorted h
      counts_eq := rfl }

def total : ℕ :=
  (index.counts.head (index.counts_eq ▸ countsTable_ne_nil _ _)).get
    ⟨index.size, by simp only [index.counts_eq, length_head_countsTable, Nat.lt_succ_self]⟩

/-- How many of a tile to take, and the index among the racks that take as many; no number
if the index is past them all. -/
def takeTiles (counts : List (List ℕ)) (i remainingSize : ℕ) :
    List ℕ → ℕ → Except Panic (Option ℕ × ℕ)
  | [], remainingIndex => .ok (none, remainingIndex)
  | take :: takes, remainingIndex => do
    let row ← entry counts (i + 1)
    let column ← checkedSub remainingSize take
    let block ← entry row column
    if remainingIndex < block then .ok (some take, remainingIndex)
    else do
      let remainingIndex ← checkedSub remainingIndex block
      takeTiles counts i remainingSize takes remainingIndex

def unrank (counts : List (List ℕ)) (i : ℕ) :
    List Tile → ℕ → ℕ → Text → Except Panic Text
  | [], _, _, rack => .ok rack
  | tile :: tiles, remainingIndex, remainingSize, rack => do
    match ← takeTiles counts i remainingSize (List.range (min tile.count remainingSize + 1))
      remainingIndex with
    | (some take, remainingIndex) => do
      let remainingSize ← checkedSub remainingSize take
      unrank counts (i + 1) tiles remainingIndex remainingSize
        (rack ++ List.replicate take tile.letter)
    | (none, remainingIndex) => unrank counts (i + 1) tiles remainingIndex remainingSize rack

def rackAtEnumerationIndex (i : ℕ) : Except Panic (Option Text) :=
  if index.total ≤ i then .ok none
  else (unrank index.counts 0 index.tiles i index.size []).map some

def racksInEnumerationRange (start count : ℕ) : Except Panic (List Text) :=
  mapWhile index.rackAtEnumerationIndex (List.range' start (saturatingAdd 64 start count - start))

def seedFrom (chunk : ℕ) (hchunk : 0 < chunk) (start : ℕ) : Except Panic (List Text) :=
  if start < index.total then do
    let racks ← index.racksInEnumerationRange start chunk
    if start + chunk < 2 ^ 64 then do
      let rest ← seedFrom chunk hchunk (start + chunk)
      .ok (racks ++ rest)
    else .error .overflow
  else .ok []
termination_by index.total - start

end RackIndex

def seedGeneration (distribution : LetterDistribution) (chunk : ℕ) (hchunk : 0 < chunk) :
    Except Unenumerable (Except Panic (List Text)) :=
  (RackIndex.new distribution rackSize).map fun index ↦ index.seedFrom chunk hchunk 0

section Walk

variable {tiles : List Tile} {k : ℕ}

/-- The walk meets the racks in the reverse of the order of the draws. -/
theorem walk_eq (hsum : (tiles.map (·.count)).sum < 2 ^ 32) (current : Text) :
    walk tiles k current = (draws (bag tiles) k).reverse.map (current ++ ·) := by
  induction tiles generalizing k current with
  | nil =>
    simp only [walk, bag, List.map_nil, draws]
    split <;> simp
  | cons tile tiles ih =>
    rw [walk]
    split
    · next hk => simp [hk, draws_zero]
    · simp only [Nat.mod_eq_of_lt hsum]
      split
      · next hprune =>
        have : draws (bag (tile :: tiles)) k = [] :=
          draws_eq_nil (by simpa [bag, Function.comp_def] using hprune)
        simp [this]
      · next hprune =>
        rw [List.map_cons, List.sum_cons] at hsum hprune
        have hk : k % 2 ^ 32 = k := Nat.mod_eq_of_lt (by omega)
        rw [hk, bag, List.map_cons, reverse_draws_cons, List.map_flatMap]
        congr 1
        funext take
        rw [ih (by omega), List.map_map]
        congr 1
        funext l
        exact List.append_assoc _ _ _

end Walk

section Table

variable {k : ℕ}

theorem foldl_saturatingAdd (f : ℕ → ℕ) (takes : List ℕ) (total : ℕ) :
    takes.foldl (fun total take ↦ saturatingAdd 64 total (min (f take) (2 ^ 64 - 1)))
      (min total (2 ^ 64 - 1)) = min (total + (takes.map f).sum) (2 ^ 64 - 1) := by
  induction takes generalizing total with
  | nil => simp
  | cons take takes ih =>
    have hadd : saturatingAdd 64 (min total (2 ^ 64 - 1)) (min (f take) (2 ^ 64 - 1)) =
        min (total + f take) (2 ^ 64 - 1) := by
      simp only [saturatingAdd]
      omega
    rw [List.foldl_cons, hadd, ih, List.map_cons, List.sum_cons, Nat.add_assoc]

theorem getElem?_head_countsTable (size : ℕ) (tiles : List Tile) (hk : k ≤ size) :
    ((countsTable size tiles).headD [])[k]? =
      some (min (draws (bag tiles) k).length (2 ^ 64 - 1)) := by
  induction tiles generalizing k with
  | nil =>
    cases k with
    | zero => simp [countsTable, bag, draws]
    | succ k =>
      have : (List.replicate size 0)[k]? = some 0 := by
        rw [List.getElem?_replicate, if_pos (Nat.lt_of_succ_le hk)]
      simp [countsTable, bag, draws, this]
  | cons tile tiles ih =>
    have hentry : ∀ take, ((countsTable size tiles).headD []).getD (k - take) 0 =
        min (draws (bag tiles) (k - take)).length (2 ^ 64 - 1) := by
      intro take
      rw [List.getD_eq_getElem?_getD, ih (by omega), Option.getD_some]
    have hfold := foldl_saturatingAdd (fun take ↦ (draws (bag tiles) (k - take)).length)
      (List.range (min tile.count k + 1)) 0
    rw [Nat.zero_min, Nat.zero_add] at hfold
    rw [countsTable, List.headD_cons, countsRow, List.getElem?_map,
      List.getElem?_range (Nat.lt_succ_iff.2 hk), Option.map_some]
    simp only [hentry]
    have hlength : (draws (bag (tile :: tiles)) k).length = _ := length_draws_cons
    rw [hfold, hlength]
    rfl

theorem getElem?_countsTable (size : ℕ) {tiles : List Tile} {i : ℕ} (hi : i ≤ tiles.length) :
    (countsTable size tiles)[i]? = some ((countsTable size (tiles.drop i)).headD []) := by
  induction tiles generalizing i with
  | nil =>
    rw [List.length_nil, Nat.le_zero] at hi
    subst hi
    rfl
  | cons tile tiles ih =>
    cases i with
    | zero => rfl
    | succ i =>
      rw [countsTable, List.getElem?_cons_succ, List.drop_succ_cons]
      exact ih (by simpa using hi)

end Table

section Unrank

variable {size : ℕ}

theorem takeTiles_eq {counts : List (List ℕ)} {i remainingSize : ℕ} {row : List ℕ}
    (hrow : counts[i + 1]? = some row) (blocks : ℕ → ℕ) {takes : List ℕ}
    (hentry : ∀ take ∈ takes, row[remainingSize - take]? = some (blocks take))
    (hle : ∀ take ∈ takes, take ≤ remainingSize) {remainingIndex : ℕ} {p : ℕ × ℕ}
    (h : locate blocks takes remainingIndex = some p) :
    RackIndex.takeTiles counts i remainingSize takes remainingIndex = .ok (some p.1, p.2) := by
  induction takes generalizing remainingIndex with
  | nil => cases h
  | cons take takes ih =>
    rw [locate] at h
    rw [RackIndex.takeTiles, entry_eq_ok hrow, checkedSub_eq_ok (hle take List.mem_cons_self)]
    simp only [bind, Except.bind, entry_eq_ok (hentry take List.mem_cons_self)]
    split at h
    · next hlt =>
      cases h
      rw [if_pos hlt]
    · next hlt =>
      rw [if_neg hlt, checkedSub_eq_ok (Nat.le_of_not_lt hlt)]
      exact ih (fun t ht ↦ hentry t (List.mem_cons_of_mem _ ht))
        (fun t ht ↦ hle t (List.mem_cons_of_mem _ ht)) h

theorem getElem?_draws_cons {α : Type} {a : α} {n k i : ℕ} {b : List (α × ℕ)} {x : List α}
    (h : (draws ((a, n) :: b) k)[i]? = some x) :
    ∃ p, locate (fun take ↦ (draws b (k - take)).length) (List.range (min n k + 1)) i = some p ∧
      ∃ y, (draws b (k - p.1))[p.2]? = some y ∧ List.replicate p.1 a ++ y = x := by
  rw [draws, getElem?_flatMap, Option.bind_eq_some_iff] at h
  obtain ⟨p, hp, hx⟩ := h
  simp only [List.length_map] at hp
  rw [List.getElem?_map, Option.map_eq_some_iff] at hx
  exact ⟨p, hp, hx⟩

/-- The loop takes of each letter what the rack at its index in the draws has. -/
theorem unrank_eq {all : List Tile} {i : ℕ} (tiles : List Tile) (hi : i ≤ all.length)
    (htiles : all.drop i = tiles) {remainingSize : ℕ} (hsize : remainingSize ≤ size)
    (hsat : (draws (bag tiles) remainingSize).length < 2 ^ 64) {remainingIndex : ℕ} {x : Text}
    (hx : (draws (bag tiles) remainingSize)[remainingIndex]? = some x) (rack : Text) :
    RackIndex.unrank (countsTable size all) i tiles remainingIndex remainingSize rack =
      .ok (rack ++ x) := by
  induction tiles generalizing i remainingSize remainingIndex x rack with
  | nil =>
    have hmem : x ∈ draws (bag []) remainingSize := List.mem_of_getElem? hx
    simp only [bag, List.map_nil, draws] at hmem
    split at hmem <;> simp at hmem
    subst hmem
    rw [RackIndex.unrank, List.append_nil]
  | cons tile tiles ih =>
    obtain ⟨p, hp, y, hy, rfl⟩ := getElem?_draws_cons hx
    have hlt : i < all.length := by
      by_contra hge
      rw [List.drop_eq_nil_of_le (by omega)] at htiles
      cases htiles
    have hrest : all.drop (i + 1) = tiles := by
      rw [← List.tail_drop, htiles, List.tail_cons]
    have hrow := getElem?_countsTable size (Nat.succ_le_of_lt hlt)
    rw [hrest] at hrow
    have hle : ∀ take ∈ List.range (min tile.count remainingSize + 1), take ≤ remainingSize := by
      intro take htake
      have := List.mem_range.1 htake
      omega
    -- A block is a part of the racks that the loop chooses among, and so holds no more of them.
    have hblock : ∀ take ∈ List.range (min tile.count remainingSize + 1),
        (draws (bag tiles) (remainingSize - take)).length < 2 ^ 64 := by
      intro take htake
      refine lt_of_le_of_lt ?_ hsat
      have hlength : (draws (bag (tile :: tiles)) remainingSize).length = _ := length_draws_cons
      rw [hlength]
      exact List.single_le_sum (fun _ _ ↦ Nat.zero_le _) _ (List.mem_map_of_mem htake)
    have hentry : ∀ take ∈ List.range (min tile.count remainingSize + 1),
        ((countsTable size tiles).headD [])[remainingSize - take]? =
          some (draws (bag tiles) (remainingSize - take)).length := by
      intro take htake
      have := hblock take htake
      rw [getElem?_head_countsTable size tiles (by omega), Nat.min_eq_left (by omega)]
    have hpmem := mem_of_locate hp
    rw [RackIndex.unrank, takeTiles_eq hrow _ hentry hle hp]
    simp only [bind, Except.bind, checkedSub_eq_ok (hle _ hpmem)]
    rw [ih (Nat.succ_le_of_lt hlt) hrest (by omega) (hblock _ hpmem) hy, List.append_assoc]

end Unrank

namespace RackIndex

variable (index : RackIndex)

def racks : List Text := draws (bag index.tiles) index.size

theorem total_eq : index.total = min index.racks.length (2 ^ 64 - 1) := by
  have hhead := getElem?_head_countsTable index.size index.tiles (Nat.le_refl _)
  have hlength := length_head_countsTable index.size index.tiles
  obtain ⟨row, rows, htable⟩ :=
    List.exists_cons_of_ne_nil (countsTable_ne_nil index.size index.tiles)
  simp only [htable, List.headD_cons, List.head_cons] at hhead hlength
  simp only [total, index.counts_eq, htable, List.head_cons, List.get_eq_getElem]
  exact Option.some.inj ((List.getElem?_eq_getElem (by omega)).symm.trans hhead)

theorem rackAtEnumerationIndex_eq (h : index.racks.length < 2 ^ 64) (i : ℕ) :
    index.rackAtEnumerationIndex i = .ok index.racks[i]? := by
  have htotal : index.total = index.racks.length := by
    rw [total_eq]
    omega
  rw [rackAtEnumerationIndex, htotal]
  split
  · next hge => rw [List.getElem?_eq_none_iff.2 hge]
  · next hlt =>
    have hx := List.getElem?_eq_getElem (Nat.lt_of_not_le hlt)
    rw [index.counts_eq, unrank_eq index.tiles (Nat.zero_le _) rfl (Nat.le_refl _) h hx, hx]
    rfl

theorem racksInEnumerationRange_eq (h : index.racks.length < 2 ^ 64) {start : ℕ}
    (hstart : start < 2 ^ 64) (count : ℕ) :
    index.racksInEnumerationRange start count = .ok ((index.racks.drop start).take count) :=
  mapWhile_saturatingAdd h (index.rackAtEnumerationIndex_eq h) hstart count

theorem seedFrom_eq (h : index.racks.length < 2 ^ 63) {chunk : ℕ} (hchunk : 0 < chunk)
    (hlt : chunk < 2 ^ 64) {start : ℕ} (hstart : start = 0 ∨ chunk ≤ start) :
    index.seedFrom chunk hchunk start = .ok (index.racks.drop start) := by
  have htotal : index.total = index.racks.length := by
    rw [total_eq]
    omega
  induction start using seedFrom.induct index chunk hchunk with
  | case1 start hmore ih =>
    rw [seedFrom, if_pos hmore, index.racksInEnumerationRange_eq (by omega) (by omega)]
    simp only [bind, Except.bind]
    rw [if_pos (by omega), ih (.inr (by omega))]
    simp only
    rw [← List.drop_drop, List.take_append_drop]
  | case2 start hdone =>
    rw [seedFrom, if_neg hdone, List.drop_eq_nil_of_le (by omega)]

end RackIndex

section Enumeration

variable {distribution : LetterDistribution} {size : ℕ} {index : RackIndex}

theorem of_new (h : RackIndex.new distribution size = .ok index) :
    index.tiles = distribution.tiles ∧ index.size = size := by
  unfold RackIndex.new at h
  split at h <;> cases h
  exact ⟨rfl, rfl⟩

theorem exists_new (size : ℕ) (h : distribution.unenumerable = none) :
    ∃ index, RackIndex.new distribution size = .ok index := by
  unfold RackIndex.new
  split
  · next hsome => rw [h] at hsome; cases hsome
  · exact ⟨_, rfl⟩

theorem nodup_bag {tiles : List Tile} (h : (tiles.map (·.letter)).Pairwise (· < ·)) :
    ((bag tiles).map Prod.fst).Nodup := by
  rw [bag, List.map_map]
  exact h.imp fun h ↦ h.ne

theorem LetterDistribution.sum_counts_lt (distribution : LetterDistribution) :
    (distribution.tiles.map (·.count)).sum < 2 ^ 32 := by
  have hle := List.sum_le_card_nsmul (distribution.tiles.map (·.count)) 255 fun n hn ↦ by
    obtain ⟨tile, htile, rfl⟩ := List.mem_map.1 hn
    exact (distribution.counts tile htile).2
  have hlength := distribution.length_tiles
  rw [List.length_map, smul_eq_mul] at hle
  simp only [magpieMaxAlphabetSize] at hlength
  omega

def maxRacks : ℕ := 51 ^ rackSize

theorem length_draws_le_maxRacks (distribution : LetterDistribution) (h : size ≤ rackSize) :
    (draws (bag distribution.tiles) size).length ≤ maxRacks :=
  calc _ ≤ ((bag distribution.tiles).length + 1) ^ size := length_draws_le
    _ ≤ 51 ^ size := by
      refine Nat.pow_le_pow_left ?_ size
      rw [bag, List.length_map]
      exact Nat.succ_le_succ distribution.length_tiles
    _ ≤ 51 ^ rackSize := Nat.pow_le_pow_right (by decide) h

theorem maxRacks_lt : maxRacks < 2 ^ 61 - 1 := by decide

/-- No count saturates for the sizes a job may ask for. -/
theorem ncard_within_lt (hsorted : (distribution.tiles.map (·.letter)).Pairwise (· < ·))
    (h : size ≤ rackSize) : (within (bag distribution.tiles) size).ncard < 2 ^ 64 := by
  have hle := length_draws_le_maxRacks distribution h
  have hlt := maxRacks_lt
  rw [ncard_within (nodup_bag hsorted)]
  omega

theorem seedGeneration_eq (h : RackIndex.new distribution rackSize = .ok index) {chunk : ℕ}
    (hchunk : 0 < chunk) (hlt : chunk < 2 ^ 64) :
    seedGeneration distribution chunk hchunk = .ok (.ok index.racks) := by
  obtain ⟨htiles, hsize⟩ := of_new h
  have hlength := length_draws_le_maxRacks distribution (Nat.le_refl rackSize)
  have hlt' := maxRacks_lt
  rw [← htiles, ← hsize] at hlength
  rw [seedGeneration, h]
  simp only [Except.map]
  rw [index.seedFrom_eq (by simp only [RackIndex.racks]; omega) hchunk hlt (.inl rfl),
    List.drop_zero]

/-- The racks of an index, where their number fits a count: as many as there are multisets of
its size within the distribution's counts, one rack of each, its letters in order. Unranking
reads them off without a panic, the recursive walk lists them backwards, and a generation is
seeded with each of them once, whatever the chunk. -/
theorem racks_enumerated (hnew : RackIndex.new distribution size = .ok index)
    (hsat : (within (bag distribution.tiles) size).ncard < 2 ^ 64) :
    index.total = (within (bag distribution.tiles) size).ncard ∧
    ∃ racks : List Text,
      racks.length = index.total ∧
      (racks.map Multiset.ofList).Nodup ∧
      (∀ m, m ∈ racks.map Multiset.ofList ↔ m ∈ within (bag distribution.tiles) size) ∧
      (∀ rack ∈ racks, rack.length = size ∧ rack.Pairwise (· ≤ ·)) ∧
      (∀ i : ℕ, index.rackAtEnumerationIndex i = .ok racks[i]?) ∧
      distribution.enumerateRacks size = racks.reverse ∧
      (size = rackSize → ∀ chunk (hchunk : 0 < chunk), chunk < 2 ^ 64 →
        seedGeneration distribution chunk hchunk = .ok (.ok racks)) := by
  obtain ⟨htiles, hsize⟩ := of_new hnew
  have hsorted := index.sorted
  have hracks : index.racks = draws (bag distribution.tiles) size := by
    rw [RackIndex.racks, htiles, hsize]
  rw [htiles] at hsorted
  have hnodup := nodup_bag hsorted
  rw [ncard_within hnodup, ← hracks] at hsat ⊢
  have htotal : index.total = index.racks.length := by
    rw [index.total_eq]
    omega
  refine ⟨htotal, index.racks, htotal.symm, ?_, ?_, ?_, ?_, ?_, ?_⟩
  · rw [hracks]
    exact nodup_draws hnodup
  · intro m
    rw [hracks, mem_map_draws hnodup]
  · intro rack hrack
    rw [hracks] at hrack
    refine ⟨length_of_mem_draws hrack, pairwise_of_mem_draws le_refl ?_ hrack⟩
    rw [bag, List.map_map]
    exact hsorted.imp fun h ↦ h.le
  · exact index.rackAtEnumerationIndex_eq hsat
  · rw [LetterDistribution.enumerateRacks, walk_eq distribution.sum_counts_lt, hracks]
    simp
  · rintro rfl chunk hchunk hlt
    exact seedGeneration_eq hnew hchunk hlt

def twoLetters : String := "B,b,1,3,0\r\nA,a,2,1,1\n?,?,0,0,0"

theorem exists_parse_twoLetters : ∃ distribution, parse twoLetters.toUTF8 "two" = .ok distribution ∧
    distribution.tiles = [⟨'A', 2⟩, ⟨'B', 1⟩] ∧ distribution.unenumerable = none := by
  obtain ⟨rows, hrows, htiles, hletters, hnone⟩ : ∃ rows,
      (twoLetters.toList.splitOn '\n').foldlM Rows.addLine Rows.empty = .ok rows ∧
      rows.tiles = [⟨'B', 1⟩, ⟨'A', 2⟩] ∧ rows.machineLetters = ['B', 'A', '?'] ∧
      rows.unenumerable = none := ⟨_, rfl, rfl, rfl, rfl⟩
  obtain ⟨distribution, hparse, hsorted, hnone'⟩ := exists_parse hrows
    (by simp [htiles]) (by rw [hletters]; decide)
  refine ⟨distribution, hparse, ?_, hnone'.trans hnone⟩
  rw [hsorted, htiles]
  decide

theorem exists_racks_enumerated : ∃ distribution index,
    parse twoLetters.toUTF8 "two" = .ok distribution ∧
    RackIndex.new distribution 2 = .ok index ∧ index.total = 2 ∧
    index.total = (within (bag distribution.tiles) 2).ncard := by
  obtain ⟨distribution, hparse, htiles, hnone⟩ := exists_parse_twoLetters
  obtain ⟨index, hnew⟩ := exists_new 2 hnone
  have hcount : (within (bag distribution.tiles) 2).ncard = 2 := by
    rw [htiles, ncard_within (by decide)]
    decide
  have htotal := (racks_enumerated hnew (by rw [hcount]; decide)).1
  exact ⟨distribution, index, hparse, hnew, htotal.trans hcount, htotal⟩

end Enumeration

end Birdtest.Jobs.Racks
