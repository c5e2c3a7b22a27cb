import Birdtest.Jobs.OpeningRack.Dispatch

namespace Birdtest.Jobs.OpeningRack.Dispatch

open Birdtest.Base.Bags Birdtest.Base.Runs Birdtest.Base.Tables Birdtest.Base.Checked
  Birdtest.Base.Batches
open Birdtest.Jobs.Racks Birdtest.Jobs.Registry Birdtest.Jobs.OpeningRack.Consensus
  Birdtest.Jobs.OpeningRack.Requests

variable {I M F : Type}

abbrev State.slots (s : State I M F) : List (Slot Request) := Registry.slots s.tasks

def racksOf (index : RackIndex) (slot : Slot Request) : List Text :=
  (taskRacks index slot.request).toOption.getD []

theorem racksOf_eq {index : RackIndex} {slot : Slot Request} {racks : List Text}
    (h : taskRacks index slot.request = .ok racks) : racksOf index slot = racks := by
  rw [racksOf, h]
  rfl

def out (index : RackIndex) (slots : List (Slot Request)) (rack : Text) : ℕ :=
  slots.countP fun slot ↦ !slot.completed && decide (rack ∈ racksOf index slot)

def analysed (index : RackIndex) (slots : List (Slot Request)) (rack : Text) : ℕ :=
  slots.countP fun slot ↦ slot.completed && decide (rack ∈ racksOf index slot)

def Covered (index : RackIndex) (slots : List (Slot Request)) (rack : Text) : Prop :=
  ∃ slot ∈ slots, slot.completed = true ∧ slot.seed < index.total ∧ rack ∈ racksOf index slot

structure Fits (config : OpeningRackConfig) (order : List Text) (k : ℕ) (slot : Slot Request) :
    Prop where
  seed : slot.seed = ((k * config.racksPerBatch : ℕ) : ℤ)
  racks : taskRacks config.index slot.request = .ok (racksOf config.index slot)
  ne_nil : racksOf config.index slot ≠ []
  nodup : (racksOf config.index slot).Nodup
  length_le : (racksOf config.index slot).length ≤ config.racksPerBatch
  subset : ∀ rack ∈ racksOf config.index slot, rack ∈ order
  firstPass : k * config.racksPerBatch < config.index.total → slot.request.racks = none ∧
    racksOf config.index slot =
      (order.drop (k * config.racksPerBatch)).take config.racksPerBatch
  reissue : config.index.total ≤ k * config.racksPerBatch →
    slot.request.racks = some (racksOf config.index slot)

structure Sound (arithmetic : Arithmetic F) [LinearOrder M] (config : OpeningRackConfig)
    (order : List Text) (job : Job Text M F) (slots : List (Slot Request)) : Prop where
  fits {k : ℕ} {slot : Slot Request} : slots[k]? = some slot → Fits config order k slot
  covered : ∀ slot ∈ slots, (config.index.total : ℤ) ≤ slot.seed →
    ∀ rack ∈ racksOf config.index slot, Covered config.index slots rack
  once : ∀ rack, out config.index slots rack ≤ 1
  few : ∀ rack, analysed config.index slots rack + out config.index slots rack ≤ 100
  analyses : ∀ rack, (plays job.analyses rack).length = analysed config.index slots rack
  recorded : Recorded arithmetic job
  valid : job.settings.isValid arithmetic = true

structure Offered (config : OpeningRackConfig) (order : List Text) (slots : List (Slot Request))
    (racks : List Text) : Prop where
  ne_nil : racks ≠ []
  nodup : racks.Nodup
  length_le : racks.length ≤ config.racksPerBatch
  subset : ∀ rack ∈ racks, rack ∈ order
  firstPass : slots.length * config.racksPerBatch < config.index.total →
    racks = (order.drop (slots.length * config.racksPerBatch)).take config.racksPerBatch
  reissue : config.index.total ≤ slots.length * config.racksPerBatch → ∀ rack ∈ racks,
    out config.index slots rack = 0 ∧ analysed config.index slots rack < 100 ∧
      Covered config.index slots rack

def Ready (config : OpeningRackConfig) (order : List Text) (slots : List (Slot Request)) :
    Phase → Prop
  | .locked | .noneAvailable => True
  | .start start => start = ((slots.length * config.racksPerBatch : ℕ) : ℤ)
  | .settings start => start = ((slots.length * config.racksPerBatch : ℕ) : ℤ) ∧
    config.index.total ≤ slots.length * config.racksPerBatch
  | .inFlight start inFlight => start = ((slots.length * config.racksPerBatch : ℕ) : ℤ) ∧
    config.index.total ≤ slots.length * config.racksPerBatch ∧
    ∀ slot ∈ slots, slot.completed = false → (config.index.total : ℤ) ≤ slot.seed →
      ∀ rack ∈ racksOf config.index slot, rack ∈ inFlight
  | .request start racks => start = ((slots.length * config.racksPerBatch : ℕ) : ℤ) ∧
    Offered config order slots racks

section Check

theorem firstTwice_eq_none {seen racks : List Text} (h : firstTwice seen racks = none) :
    racks.Nodup ∧ ∀ rack ∈ racks, rack ∉ seen := by
  induction racks generalizing seen with
  | nil => exact ⟨List.nodup_nil, nofun⟩
  | cons rack racks ih =>
    rw [firstTwice] at h
    split at h
    · cases h
    · next hseen =>
      obtain ⟨hnodup, hrest⟩ := ih h
      refine ⟨List.nodup_cons.2 ⟨fun hrack ↦ hrest rack hrack List.mem_cons_self, hnodup⟩, ?_⟩
      intro rack' hrack' hmem
      rcases List.mem_cons.1 hrack' with rfl | hrack'
      · exact hseen hmem
      · exact hrest rack' hrack' (List.mem_cons_of_mem _ hmem)

theorem checkBatchAgainstTask_ok {expected reported : List Text}
    (h : checkBatchAgainstTask expected reported = .ok ()) : reported.Perm expected := by
  unfold checkBatchAgainstTask at h
  split at h
  · cases h
  · next hlength =>
    split at h
    · cases h
    · next hstray =>
      split at h
      · cases h
      · next htwice =>
        have hsubset : reported ⊆ expected := fun rack hrack ↦ by
          simpa using List.find?_eq_none.1 hstray rack hrack
        refine ((firstTwice_eq_none htwice).1.subperm hsubset).perm_of_length_le ?_
        omega

end Check

section Counts

variable {index : RackIndex} {slots : List (Slot Request)} {slot : Slot Request}
  {rack : Text} {k : ℕ}

theorem mem_of_analysed_pos (h : 0 < analysed index slots rack) :
    ∃ slot ∈ slots, slot.completed = true ∧ rack ∈ racksOf index slot := by
  obtain ⟨slot, hslot, hp⟩ := List.countP_pos_iff.1 h
  rw [Bool.and_eq_true, decide_eq_true_eq] at hp
  exact ⟨slot, hslot, hp⟩

theorem out_eq_zero : out index slots rack = 0 ↔
    ∀ slot ∈ slots, slot.completed = false → rack ∉ racksOf index slot := by
  rw [out, List.countP_eq_zero]
  simp only [Bool.and_eq_true, Bool.not_eq_true', decide_eq_true_eq, not_and]

theorem out_append : out index (slots ++ [slot]) rack =
    out index slots rack + (!slot.completed && decide (rack ∈ racksOf index slot)).toNat := by
  rw [out, out, List.countP_append, List.countP_singleton]
  cases (!slot.completed && decide (rack ∈ racksOf index slot)) <;> rfl

theorem analysed_append : analysed index (slots ++ [slot]) rack =
    analysed index slots rack + (slot.completed && decide (rack ∈ racksOf index slot)).toNat := by
  rw [analysed, analysed, List.countP_append, List.countP_singleton]
  cases (slot.completed && decide (rack ∈ racksOf index slot)) <;> rfl

theorem counts_complete (index : RackIndex) (rack : Text) (hk : slots[k]? = some slot)
    (hopen : slot.completed = false) :
    analysed index (slots.set k { slot with completed := true }) rack =
      analysed index slots rack + (decide (rack ∈ racksOf index slot)).toNat ∧
    out index (slots.set k { slot with completed := true }) rack +
      (decide (rack ∈ racksOf index slot)).toNat = out index slots rack := by
  obtain ⟨hlt, hget⟩ := List.getElem?_eq_some_iff.1 hk
  have hsplit : slots = slots.take k ++ slot :: slots.drop (k + 1) := by
    rw [← hget, List.getElem_cons_drop, List.take_append_drop]
  have hset : slots.set k { slot with completed := true } =
      slots.take k ++ { slot with completed := true } :: slots.drop (k + 1) :=
    List.set_eq_take_append_cons_drop.trans (if_pos hlt)
  have hracks : racksOf index { slot with completed := true } = racksOf index slot := rfl
  constructor
  · rw [hset]
    conv_rhs => rw [hsplit]
    simp only [analysed, List.countP_append, List.countP_cons, hopen, hracks]
    cases decide (rack ∈ racksOf index slot) <;> simp
    omega
  · rw [hset]
    conv_rhs => rw [hsplit]
    simp only [out, List.countP_append, List.countP_cons, hopen, hracks]
    cases decide (rack ∈ racksOf index slot) <;> simp
    omega

theorem Covered.append (h : Covered index slots rack) : Covered index (slots ++ [slot]) rack := by
  obtain ⟨slot', hslot', hcovered⟩ := h
  exact ⟨slot', List.mem_append_left _ hslot', hcovered⟩

theorem Covered.complete (h : Covered index slots rack) (hk : slots[k]? = some slot) :
    Covered index (slots.set k { slot with completed := true }) rack := by
  obtain ⟨slot', hslot', hcompleted, hseed, hrack⟩ := h
  obtain ⟨hlt, hget⟩ := List.getElem?_eq_some_iff.1 hk
  obtain ⟨j, hj⟩ := List.mem_iff_getElem?.1 hslot'
  rcases eq_or_ne j k with rfl | hjk
  · have heq : slot' = slot := Option.some.inj (hj.symm.trans hk)
    subst heq
    exact ⟨_, List.mem_iff_getElem?.2 ⟨j, List.getElem?_set_self hlt⟩, rfl, hseed, hrack⟩
  · exact ⟨slot', List.mem_iff_getElem?.2 ⟨j, by rw [List.getElem?_set_ne (Ne.symm hjk), hj]⟩,
      hcompleted, hseed, hrack⟩

end Counts

section Sound

variable [LinearOrder M] {arithmetic : Arithmetic F} {config : OpeningRackConfig}
variable {order : List Text} {job job' : Job Text M F} {slots : List (Slot Request)}
  {rack : Text} {k : ℕ}

theorem OpeningRackConfig.length_racks_le (config : OpeningRackConfig) :
    config.index.racks.length ≤ maxRacks := by
  obtain ⟨htiles, hsize⟩ := of_new config.index_eq
  rw [RackIndex.racks, htiles, hsize]
  exact length_draws_le_maxRacks config.distribution config.rackSize_le.2

theorem OpeningRackConfig.total_le (config : OpeningRackConfig) :
    config.index.total ≤ maxRacks := by
  have := config.length_racks_le
  rw [config.index.total_eq]
  omega

theorem OpeningRackConfig.total_lt (config : OpeningRackConfig) :
    config.index.total < multiplier := by
  refine config.total_le.trans_lt (maxRacks_lt.trans_eq ?_)
  norm_num [multiplier]

theorem Sound.length_le (h : Sound arithmetic config order job slots)
    (horder : Scattered config.index order) : slots.length ≤ 100 * config.index.total := by
  rw [← horder.length]
  refine length_le_mul_of_countP_le
    (p := fun slot rack ↦ decide (rack ∈ racksOf config.index slot)) (fun slot hslot ↦ ?_)
    fun rack _ ↦ ?_
  · obtain ⟨k, hk⟩ := List.mem_iff_getElem?.1 hslot
    obtain ⟨rack, hrack⟩ := List.exists_mem_of_ne_nil _ (h.fits hk).ne_nil
    exact ⟨rack, (h.fits hk).subset rack hrack, decide_eq_true hrack⟩
  · refine Nat.le_trans (Nat.le_of_eq ?_) (h.few rack)
    rw [analysed, out]
    clear h horder
    induction slots with
    | nil => rfl
    | cons slot slots ih =>
      simp only [List.countP_cons, ih]
      cases slot.completed <;> cases decide (rack ∈ racksOf config.index slot) <;> simp <;> omega

theorem Sound.cursor_lt (h : Sound arithmetic config order job slots)
    (horder : Scattered config.index order) : slots.length * config.racksPerBatch < 2 ^ 62 := by
  have hlength := h.length_le horder
  have htotal := config.total_le
  have hbatch : config.racksPerBatch ≤ 10000 := config.racksPerBatch_le.2
  have hmax : 100 * maxRacks * 10000 < 2 ^ 62 := by decide
  refine lt_of_le_of_lt (Nat.mul_le_mul ?_ hbatch) hmax
  omega

theorem Sound.seeds (h : Sound arithmetic config order job slots) :
    slots.map Slot.seed = cursors config.racksPerBatch slots.length := by
  refine List.ext_getElem (by rw [cursors, List.length_map, List.length_map, List.length_range])
    fun k hk _ ↦ ?_
  rw [List.length_map] at hk
  rw [List.getElem_map, (h.fits (List.getElem?_eq_getElem hk)).seed]
  simp only [cursors, List.getElem_map, List.getElem_range]

/-- A rack that a first-pass task holds is one of no other. -/
theorem Sound.eq_of_firstPass (h : Sound arithmetic config order job slots)
    (horder : Scattered config.index order) {slot slot' : Slot Request} (hslot : slot ∈ slots)
    (hslot' : slot' ∈ slots) (hlt : slot.seed < config.index.total)
    (hlt' : slot'.seed < config.index.total) (hrack : rack ∈ racksOf config.index slot)
    (hrack' : rack ∈ racksOf config.index slot') : slot = slot' := by
  obtain ⟨k, hk⟩ := List.mem_iff_getElem?.1 hslot
  obtain ⟨k', hk'⟩ := List.mem_iff_getElem?.1 hslot'
  have hfits := h.fits hk
  have hfits' := h.fits hk'
  rw [hfits.seed, Int.ofNat_lt] at hlt
  rw [hfits'.seed, Int.ofNat_lt] at hlt'
  rw [(hfits.firstPass hlt).2] at hrack
  rw [(hfits'.firstPass hlt').2] at hrack'
  have heq := eq_of_mem_batch horder.nodup hrack hrack'
  subst heq
  exact Option.some.inj (hk.symm.trans hk')

theorem Sound.not_mem_of_lt (h : Sound arithmetic config order job slots)
    (horder : Scattered config.index order)
    (hlt : slots.length * config.racksPerBatch < config.index.total)
    (hrack : rack ∈ (order.drop (slots.length * config.racksPerBatch)).take config.racksPerBatch) :
    ∀ slot ∈ slots, rack ∉ racksOf config.index slot := by
  intro slot hslot hmem
  obtain ⟨k, hk⟩ := List.mem_iff_getElem?.1 hslot
  have hklt := (List.getElem?_eq_some_iff.1 hk).1
  have hkle := Nat.mul_le_mul_right config.racksPerBatch hklt.le
  rw [((h.fits hk).firstPass (hkle.trans_lt hlt)).2] at hmem
  have heq := eq_of_mem_batch horder.nodup hmem hrack
  omega

theorem Sound.covered_of_pos (h : Sound arithmetic config order job slots)
    (hpos : 0 < analysed config.index slots rack) : Covered config.index slots rack := by
  obtain ⟨slot, hslot, hcompleted, hrack⟩ := mem_of_analysed_pos hpos
  by_cases hlt : slot.seed < config.index.total
  · exact ⟨slot, hslot, hcompleted, hlt, hrack⟩
  · exact h.covered slot hslot (Int.not_lt.1 hlt) rack hrack

theorem Sound.mem_order (h : Sound arithmetic config order job slots) {slot : Slot Request}
    (hslot : slot ∈ slots) (hrack : rack ∈ racksOf config.index slot) : rack ∈ order := by
  obtain ⟨k, hk⟩ := List.mem_iff_getElem?.1 hslot
  exact (h.fits hk).subset rack hrack

theorem Sound.settings (h : Sound arithmetic config order job slots)
    {settings : ConsensusSettings F} (hvalid : settings.isValid arithmetic = true) :
    Sound arithmetic config order (restateRacks arithmetic job settings) slots :=
  ⟨h.fits, h.covered, h.once, h.few, h.analyses, h.recorded.restateRacks settings, hvalid⟩

theorem Sound.complete (h : Sound arithmetic config order job slots) {slot : Slot Request}
    (hk : slots[k]? = some slot) (hopen : slot.completed = false) {reported : List (Text × M)}
    (hperm : (reported.map Prod.fst).Perm (racksOf config.index slot))
    (hs : accept arithmetic job reported = .ok job') :
    Sound arithmetic config order job' (slots.set k { slot with completed := true }) := by
  obtain ⟨rows, hrows, -⟩ := accept_spec arithmetic job reported
  have hjob := hrows.symm.trans hs
  rw [Except.ok.injEq] at hjob
  have hcounts (rack : Text) := counts_complete config.index rack hk hopen
  refine ⟨fun {j slot'} hj ↦ ?_, fun slot' hslot' hle rack hrack ↦ ?_, fun rack ↦ ?_,
    fun rack ↦ ?_, fun rack ↦ ?_, h.recorded.accept reported hs, ?_⟩
  · rcases eq_or_ne j k with rfl | hjk
    · rw [List.getElem?_set_self (List.getElem?_eq_some_iff.1 hk).1, Option.some.injEq] at hj
      subst hj
      obtain ⟨h₁, h₂, h₃, h₄, h₅, h₆, h₇, h₈⟩ := h.fits hk
      exact ⟨h₁, h₂, h₃, h₄, h₅, h₆, h₇, h₈⟩
    · rw [List.getElem?_set_ne (Ne.symm hjk)] at hj
      exact h.fits hj
  · rcases List.mem_or_eq_of_mem_set hslot' with hslot' | rfl
    · exact (h.covered slot' hslot' hle rack hrack).complete hk
    · exact (h.covered slot (List.mem_iff_getElem?.2 ⟨k, hk⟩) hle rack hrack).complete hk
  · have := (hcounts rack).2
    have := h.once rack
    omega
  · have := (hcounts rack).1
    have := (hcounts rack).2
    have := h.few rack
    omega
  · -- Each rack of the task has one analysis in the batch.
    have hbatch :
        (plays reported rack).length = (decide (rack ∈ racksOf config.index slot)).toNat := by
      have hlength := length_plays rack hperm (h.fits hk).nodup
      by_cases hrack : rack ∈ racksOf config.index slot
      · rw [hlength.1 hrack, decide_eq_true hrack]
        rfl
      · rw [hlength.2 hrack, decide_eq_false hrack]
        rfl
    have := (hcounts rack).1
    have := h.analyses rack
    rw [← hjob, plays_append, List.length_append]
    omega
  · rw [← hjob]
    exact h.valid

def slotOf (index : RackIndex) (start : ℤ) (racks : List Text) : Slot Request :=
  ⟨start, insertRequest index start racks, false⟩

theorem Offered.taskRacks {racks : List Text} (h : Offered config order slots racks)
    (horder : Scattered config.index order) :
    taskRacks config.index (insertRequest config.index
      ((slots.length * config.racksPerBatch : ℕ) : ℤ) racks) = .ok racks := by
  by_cases hlt : slots.length * config.racksPerBatch < config.index.total
  · rw [h.firstPass hlt]
    exact horder.taskRacks_insertRequest hlt
  · rw [insertRequest, totalRacks_eq config.total_lt, if_pos (by omega)]
    rfl

theorem Sound.commit (h : Sound arithmetic config order job slots)
    (horder : Scattered config.index order) {start : ℤ} {racks : List Text}
    (hready : Ready config order slots (.request start racks)) :
    Sound arithmetic config order job (slots ++ [slotOf config.index start racks]) := by
  obtain ⟨rfl, hoffered⟩ := hready
  have htask := hoffered.taskRacks horder
  have hracks : racksOf config.index (slotOf config.index
      ((slots.length * config.racksPerBatch : ℕ) : ℤ) racks) = racks := racksOf_eq htask
  -- None of its racks is out, and each has been analysed fewer than a hundred times.
  have hfree (rack : Text) (hrack : rack ∈ racks) : out config.index slots rack = 0 ∧
      analysed config.index slots rack < 100 := by
    by_cases hlt : slots.length * config.racksPerBatch < config.index.total
    · rw [hoffered.firstPass hlt] at hrack
      have hnot := h.not_mem_of_lt horder hlt hrack
      refine ⟨out_eq_zero.2 fun slot hslot _ ↦ hnot slot hslot, Nat.lt_of_not_le fun hle ↦ ?_⟩
      obtain ⟨slot, hslot, -, hmem⟩ :=
        mem_of_analysed_pos (Nat.lt_of_lt_of_le (Nat.succ_pos 99) hle)
      exact hnot slot hslot hmem
    · exact ⟨(hoffered.reissue (Nat.le_of_not_lt hlt) rack hrack).1,
        (hoffered.reissue (Nat.le_of_not_lt hlt) rack hrack).2.1⟩
  refine ⟨fun {k slot} hk ↦ ?_, fun slot hslot hle rack hrack ↦ ?_, fun rack ↦ ?_, fun rack ↦ ?_,
    fun rack ↦ ?_, h.recorded, h.valid⟩
  · rcases Nat.lt_trichotomy k slots.length with hlt | rfl | hgt
    · rw [List.getElem?_append_left hlt] at hk
      exact h.fits hk
    · rw [List.getElem?_concat_length, Option.some.injEq] at hk
      subst hk
      refine ⟨rfl, by rw [hracks]; exact htask, by rw [hracks]; exact hoffered.ne_nil,
        by rw [hracks]; exact hoffered.nodup, by rw [hracks]; exact hoffered.length_le,
        by rw [hracks]; exact hoffered.subset, fun hlt ↦ ⟨?_, ?_⟩, fun hle ↦ ?_⟩
      · simp only [slotOf, insertRequest]
        rw [totalRacks_eq config.total_lt, if_neg (by omega)]
      · rw [hracks]
        exact hoffered.firstPass hlt
      · rw [hracks]
        simp only [slotOf, insertRequest]
        rw [totalRacks_eq config.total_lt, if_pos (by omega)]
    · rw [List.getElem?_eq_none (by rw [List.length_append, List.length_singleton]; omega)] at hk
      cases hk
  · rcases List.mem_append.1 hslot with hslot | hslot
    · exact (h.covered slot hslot hle rack hrack).append
    · rw [List.mem_singleton] at hslot
      subst hslot
      rw [hracks] at hrack
      exact (hoffered.reissue (Int.ofNat_le.1 hle) rack hrack).2.2.append
  · have := h.once rack
    rw [out_append, hracks]
    by_cases hrack : rack ∈ racks
    · rw [(hfree rack hrack).1, Nat.zero_add]
      exact Bool.toNat_le _
    · rw [decide_eq_false hrack, Bool.and_false, Bool.toNat_false]
      exact this
  · have := h.few rack
    rw [out_append, analysed_append, hracks]
    by_cases hrack : rack ∈ racks
    · have := hfree rack hrack
      rw [decide_eq_true hrack]
      simp only [slotOf, Bool.false_and, Bool.not_false, Bool.and_self, Bool.toNat_false,
        Bool.toNat_true]
      omega
    · rw [decide_eq_false hrack, Bool.and_false, Bool.and_false, Bool.toNat_false]
      exact this
  · rw [analysed_append]
    exact h.analyses rack

end Sound

section Statement

variable [DecidableEq I] [LinearOrder M] {arithmetic : Arithmetic F} {config : OpeningRackConfig}
variable {order : List Text} {s s' : State I M F}

/-- What holds of a job between any two statements of any of its transactions. -/
structure Inv (arithmetic : Arithmetic F) (config : OpeningRackConfig) (order : List Text)
    (s : State I M F) : Prop where
  sound : Sound arithmetic config order s.job s.slots
  ready : ∀ claim ∈ s.claim, Ready config order s.slots claim.phase

omit [DecidableEq I] in
theorem Sound.nextStart (h : Sound arithmetic config order s.job s.slots)
    (horder : Scattered config.index order) :
    nextStart config.racksPerBatch (s.tasks.map Task.seed) =
      ((s.slots.length * config.racksPerBatch : ℕ) : ℤ) := by
  rw [← seeds_slots, h.seeds]
  exact nextStart_cursors ((h.cursor_lt horder).trans (by decide))

omit [DecidableEq I] in
theorem Sound.mem_inFlight (h : Sound arithmetic config order s.job s.slots) {slot : Slot Request}
    (hslot : slot ∈ s.slots) (hopen : slot.completed = false)
    (hle : (config.index.total : ℤ) ≤ slot.seed) {rack : Text}
    (hrack : rack ∈ racksOf config.index slot) : rack ∈ inFlight config s := by
  obtain ⟨k, hk⟩ := List.mem_iff_getElem?.1 hslot
  have hfits := h.fits hk
  obtain ⟨task, htask, rfl⟩ := List.mem_map.1 hslot
  have hlisted := hfits.reissue (by rw [hfits.seed] at hle; exact Int.ofNat_le.1 hle)
  refine List.mem_flatMap.2 ⟨task, List.mem_filter.2 ⟨htask, ?_⟩, ?_⟩
  · rw [totalRacks_eq config.total_lt]
    cases hstate : task.state with
    | available => exact decide_eq_true hle
    | claimed identity => rfl
    | completed => simp [Task.slot, TaskState.isCompleted, hstate] at hopen
  · change rack ∈ (Task.slot task).request.racks.getD []
    rw [hlisted]
    exact hrack

omit [LinearOrder M] in
theorem mem_nextReissue {identity : I} {inFlight : List Text} {rack : Text}
    (h : rack ∈ nextReissue config s identity inFlight) :
    ∃ row, s.job.progress.get rack = some row ∧ row.settled = false ∧ rack ∉ inFlight := by
  obtain ⟨⟨rack', row⟩, hrow, rfl⟩ := List.mem_map.1 h
  have hrow' := List.mem_of_mem_take ((List.mem_insertionSort _).1 (List.mem_of_mem_take hrow))
  obtain ⟨hmem, hp⟩ := List.mem_filter.1 ((List.mem_insertionSort _).1 hrow')
  rw [Bool.and_eq_true, Bool.not_eq_true', decide_eq_true_eq] at hp
  exact ⟨row, Table.mem_rows.1 hmem, hp⟩

omit [LinearOrder M] in
theorem nodup_nextReissue (identity : I) (inFlight : List Text) :
    (nextReissue config s identity inFlight).Nodup := by
  have hrows : ((s.job.progress.rows.filter fun p ↦
      !p.2.settled && p.1 ∉ inFlight).map Prod.fst).Nodup :=
    (List.filter_sublist.map _).nodup s.job.progress.nodup
  have hwindow := (((List.take_sublist (config.racksPerBatch * reissueWindowBatches) _).map
    Prod.fst).nodup (((List.perm_insertionSort (byResults config) _).map _).nodup_iff.2 hrows))
  exact ((List.take_sublist _ _).map _).nodup
    (((List.perm_insertionSort (bySeen config s identity) _).map _).nodup_iff.2 hwindow)

omit [DecidableEq I] in
/-- A rack still unsettled that no reissue holds may go out again. -/
theorem Sound.free (h : Sound arithmetic config order s.job s.slots)
    (horder : Scattered config.index order) {inFlight : List Text}
    (hflight : ∀ slot ∈ s.slots, slot.completed = false → (config.index.total : ℤ) ≤ slot.seed →
      ∀ rack ∈ racksOf config.index slot, rack ∈ inFlight) {rack : Text} {row : RackStanding M}
    (hrow : s.job.progress.get rack = some row) (hunsettled : row.settled = false)
    (hnot : rack ∉ inFlight) :
    rack ∈ order ∧ out config.index s.slots rack = 0 ∧ analysed config.index s.slots rack < 100 ∧
      Covered config.index s.slots rack := by
  rw [h.recorded.row rack] at hrow
  have hfew := h.few rack
  have hanalyses := h.analyses rack
  have hlt := length_lt_of_unsettled hrow (by omega) hunsettled
  have hmax := (ConsensusSettings.results_of_isValid h.valid).2
  have hpos : 0 < analysed config.index s.slots rack := by
    rw [← hanalyses, List.length_pos_iff]
    intro hnil
    rw [firsts, hnil] at hrow
    cases hrow
  obtain ⟨slot, hslot, hcompleted, hseed, hrack⟩ := h.covered_of_pos hpos
  refine ⟨h.mem_order hslot hrack, out_eq_zero.2 fun slot' hslot' hopen hrack' ↦ ?_, by omega,
    ⟨slot, hslot, hcompleted, hseed, hrack⟩⟩
  by_cases hlt' : slot'.seed < config.index.total
  · -- Its first pass is over, so the task that holds it is not of the first pass.
    rw [h.eq_of_firstPass horder hslot' hslot hlt' hseed hrack' hrack] at hopen
    rw [hopen] at hcompleted
    cases hcompleted
  · exact hnot (hflight slot' hslot' hopen (Int.not_lt.1 hlt') rack hrack')

theorem offered_slice {slots : List (Slot Request)} (horder : Scattered config.index order)
    (hlt : slots.length * config.racksPerBatch < config.index.total) :
    Offered config order slots
      ((order.drop (slots.length * config.racksPerBatch)).take config.racksPerBatch) := by
  have hsublist := (List.take_sublist config.racksPerBatch _).trans
    (List.drop_sublist (slots.length * config.racksPerBatch) order)
  refine ⟨?_, hsublist.nodup horder.nodup, List.length_take_le _ _, fun _ hrack ↦
    hsublist.subset hrack, fun _ ↦ rfl, fun hle ↦ by omega⟩
  have := config.racksPerBatch_le.1
  rw [← List.length_pos_iff, List.length_take, List.length_drop, horder.length]
  omega

theorem Sound.offered_nextReissue (h : Sound arithmetic config order s.job s.slots)
    (horder : Scattered config.index order) {identity : I} {inFlight : List Text}
    (hle : config.index.total ≤ s.slots.length * config.racksPerBatch)
    (hflight : ∀ slot ∈ s.slots, slot.completed = false → (config.index.total : ℤ) ≤ slot.seed →
      ∀ rack ∈ racksOf config.index slot, rack ∈ inFlight)
    (hne : nextReissue config s identity inFlight ≠ []) :
    Offered config order s.slots (nextReissue config s identity inFlight) := by
  have hfree (rack : Text) (hrack : rack ∈ nextReissue config s identity inFlight) :
      rack ∈ order ∧ out config.index s.slots rack = 0 ∧
        analysed config.index s.slots rack < 100 ∧ Covered config.index s.slots rack := by
    obtain ⟨row, hrow, hunsettled, hnot⟩ := mem_nextReissue hrack
    exact h.free horder hflight hrow hunsettled hnot
  refine ⟨hne, nodup_nextReissue identity inFlight, ?_, fun rack hrack ↦ (hfree rack hrack).1,
    fun hlt ↦ by omega, fun _ rack hrack ↦ (hfree rack hrack).2⟩
  rw [nextReissue, List.length_map]
  exact List.length_take_le _ _

theorem Ready.statement {claim : Claim I} (h : Sound arithmetic config order s.job s.slots)
    (horder : Scattered config.index order) (hready : Ready config order s.slots claim.phase)
    {phase : Phase} (hs : claimStatement config s claim = some phase) :
    Ready config order s.slots phase := by
  have htotal := totalRacks_eq config.total_lt
  unfold claimStatement at hs
  split at hs
  case h_1 => cases hs
  case h_2 hphase =>
    cases hs
    exact h.nextStart horder
  case h_3 start hphase =>
    rw [hphase] at hready
    cases hready
    rw [htotal] at hs
    split at hs
    · next hlt =>
      have hcursor := h.cursor_lt horder
      rw [asU64_eq (by omega), horder.racksInRange (by omega)] at hs
      have hoffered : Offered config order s.slots _ := offered_slice horder (by omega)
      split at hs
      · next heq =>
        cases hs
        rw [Except.ok.injEq] at heq
        rw [heq] at hoffered
        exact ⟨rfl, hoffered⟩
      · cases hs
    · next hge =>
      split at hs
      · cases hs
        exact ⟨rfl, by omega⟩
      · cases hs
  case h_4 start hphase =>
    rw [hphase] at hready
    cases hs
    exact ⟨hready.1, hready.2, fun slot hslot hopen hle rack hrack ↦
      h.mem_inFlight hslot hopen hle hrack⟩
  case h_5 start inFlight hphase =>
    rw [hphase] at hready
    obtain ⟨hstart, hle, hflight⟩ := hready
    split at hs
    · cases hs
    · next rack racks heq =>
      cases hs
      have hne : nextReissue config s claim.identity inFlight ≠ [] := by rw [heq]; exact nofun
      exact ⟨hstart, heq ▸ h.offered_nextReissue horder hle hflight hne⟩
  case h_6 start racks hphase =>
    cases hs
    rw [hphase] at hready
    exact hready

theorem Ready.complete {slots : List (Slot Request)} {slot : Slot Request} {phase : Phase} {k : ℕ}
    (h : Ready config order slots phase) (hk : slots[k]? = some slot)
    (hopen : slot.completed = false) :
    Ready config order (slots.set k { slot with completed := true }) phase := by
  have hmem : slot ∈ slots := List.mem_iff_getElem?.2 ⟨k, hk⟩
  cases phase with
  | locked => trivial
  | noneAvailable => trivial
  | start start => rwa [Ready, List.length_set]
  | settings start => rwa [Ready, List.length_set]
  | inFlight start inFlight =>
    rw [Ready, List.length_set]
    refine ⟨h.1, h.2.1, fun slot' hslot' hopen' hle rack hrack ↦ ?_⟩
    rcases List.mem_or_eq_of_mem_set hslot' with hslot' | rfl
    · exact h.2.2 slot' hslot' hopen' hle rack hrack
    · cases hopen'
  | request start racks =>
    rw [Ready, List.length_set]
    refine ⟨h.1, h.2.ne_nil, h.2.nodup, h.2.length_le, h.2.subset, ?_, ?_⟩
    · rw [List.length_set]
      exact h.2.firstPass
    · rw [List.length_set]
      intro hle rack hrack
      obtain ⟨hout, hfew, hcovered⟩ := h.2.reissue hle rack hrack
      obtain ⟨hanalysed', hout'⟩ := counts_complete config.index rack hk hopen
      -- The task that completes is one that was out, so it does not hold the rack.
      have hnot := out_eq_zero.1 hout slot hmem hopen
      rw [decide_eq_false hnot, Bool.toNat_false] at hanalysed' hout'
      exact ⟨by omega, by omega, hcovered.complete hk⟩

omit [DecidableEq I] in
theorem Inv.submit (h : Inv arithmetic config order s) {i : ℕ} {reported : List (Text × M)}
    (hs : submit arithmetic config s i reported = some s') : Inv arithmetic config order s' := by
  obtain ⟨⟨identity, task, tasks⟩, htasks, hs⟩ := Option.bind_eq_some_iff.1 hs
  obtain ⟨hk, hopen, hslots⟩ := slots_complete htasks
  simp only at hs
  split at hs
  case h_1 => cases hs
  case h_2 expected hexpected =>
  split at hs
  case h_1 => cases hs
  case h_2 hcheck =>
  obtain ⟨job, hjob, rfl⟩ := Option.map_eq_some_iff.1 hs
  have hracks : racksOf config.index task.slot = expected := racksOf_eq hexpected
  have hjob' : accept arithmetic s.job reported = .ok job := by
    cases haccept : accept arithmetic s.job reported with
    | error rack => rw [haccept] at hjob; cases hjob
    | ok job' => rw [haccept] at hjob; exact congrArg _ (Option.some.inj hjob)
  refine ⟨?_, fun claim hclaim ↦ ?_⟩
  · rw [State.slots, hslots]
    exact h.sound.complete hk hopen (hracks ▸ checkBatchAgainstTask_ok hcheck) hjob'
  · rw [State.slots, hslots]
    exact (h.ready claim hclaim).complete hk hopen

omit [DecidableEq I] in
theorem Inv.of_slots (h : Inv arithmetic config order s) {tasks : List (Task I Request)}
    {claim : Option (Claim I)} (hslots : slots tasks = s.slots)
    (hclaim : ∀ c ∈ claim, Ready config order s.slots c.phase) :
    Inv arithmetic config order { s with tasks, claim } := by
  refine ⟨?_, ?_⟩
  · rw [State.slots, hslots]
    exact h.sound
  · rw [State.slots, hslots]
    exact hclaim

theorem Inv.next (h : Inv arithmetic config order s) (horder : Scattered config.index order)
    {a : Action I M F} (hs : next arithmetic config s a = some s') :
    Inv arithmetic config order s' := by
  cases a with
  | lock identity =>
    obtain ⟨-, hs⟩ := Option.ite_none_right_eq_some.1 hs
    cases hs
    exact h.of_slots rfl fun c hc ↦ by cases hc; trivial
  | takeAvailable i =>
    obtain ⟨claim, -, hs⟩ := Option.bind_eq_some_iff.1 hs
    split at hs
    · obtain ⟨tasks, htasks, rfl⟩ := Option.map_eq_some_iff.1 hs
      exact h.of_slots (slots_takeAvailable htasks) nofun
    · cases hs
  | noneAvailable =>
    obtain ⟨claim, -, hs⟩ := Option.bind_eq_some_iff.1 hs
    split at hs
    · obtain ⟨-, hs⟩ := Option.ite_none_right_eq_some.1 hs
      cases hs
      exact h.of_slots rfl fun c hc ↦ by cases hc; trivial
    · cases hs
  | statement =>
    obtain ⟨claim, hclaim, rfl⟩ := Option.map_eq_some_iff.1 hs
    refine h.of_slots rfl fun c hc ↦ ?_
    obtain ⟨phase, hphase, rfl⟩ := Option.map_eq_some_iff.1 hc
    exact (h.ready claim hclaim).statement h.sound horder hphase
  | commit =>
    obtain ⟨claim, hclaim, hs⟩ := Option.bind_eq_some_iff.1 hs
    split at hs
    · next start racks hphase =>
      cases hs
      have hready := h.ready claim hclaim
      rw [hphase] at hready
      refine ⟨?_, nofun⟩
      rw [State.slots, slots_insertOnDemandTask]
      exact h.sound.commit horder hready
    · cases hs
  | rollback =>
    cases hs
    exact h.of_slots rfl nofun
  | submit i reported => exact h.submit hs
  | decline i =>
    obtain ⟨tasks, htasks, rfl⟩ := Option.map_eq_some_iff.1 hs
    exact h.of_slots (slots_decline htasks) h.ready
  | lapse i =>
    obtain ⟨tasks, htasks, rfl⟩ := Option.map_eq_some_iff.1 hs
    exact h.of_slots (slots_lapse htasks) h.ready
  | edit settings =>
    obtain ⟨⟨hnone, hvalid⟩, hs⟩ := Option.ite_none_right_eq_some.1 hs
    cases hs
    exact ⟨h.sound.settings hvalid, h.ready⟩

theorem inv_of_reachable (h : (machine arithmetic config).Reachable s)
    (horder : Scattered config.index order) : Inv arithmetic config order s := by
  refine h.invariant ?_ fun s a s' hi _ hs ↦ hi.next horder hs
  rintro s ⟨hempty, hvalid, htasks, hclaim⟩
  have hslots : s.slots = [] := by rw [State.slots, htasks]; rfl
  refine ⟨?_, fun claim hc ↦ by rw [hclaim] at hc; cases hc⟩
  have hrecorded : Recorded arithmetic s.job :=
    recorded_of_reachable (.start hempty)
  rw [hslots]
  refine ⟨nofun, nofun, fun _ ↦ Nat.zero_le _, fun _ ↦ Nat.zero_le _, fun rack ↦ ?_,
    hrecorded, hvalid⟩
  rw [hempty.1]
  rfl

end Statement

end Birdtest.Jobs.OpeningRack.Dispatch
