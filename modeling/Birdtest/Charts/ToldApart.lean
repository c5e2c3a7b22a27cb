import Birdtest.Charts.Labels
import Mathlib.Data.List.FinRange
import Mathlib.Data.List.OfFn

namespace Birdtest.Charts

open Birdtest.Base.Starts

section Shown

variable (max : ℕ)

def start (t : Text) : Text := t.take (head max)

def ending (t : Text) : Text := t.drop (t.length - (max - 1 - head max))

def Spells (s t : Text) : Prop :=
  s.length ≤ max ∧ max < t.length ∧ s = start max t ++ ellipsis :: ending max t

/-- Two texts that shortening leaves no difference of. -/
inductive LookAlike (s t : Text) : Prop
  | same (h : s = t)
  | shortened (hs : max < s.length) (ht : max < t.length) (hstart : start max s = start max t)
    (hending : ending max s = ending max t)
  | spells (h : Spells max s t)
  | spelled (h : Spells max t s)

variable {n : ℕ} (t : Fin n → Text) (i j : Fin n)

def alike : Set (Fin n) := {j | j ≠ i ∧ LookAlike max (t j) (t i)}

/-- How many of its first characters a text has in common with all its look-alikes. -/
noncomputable def common : ℕ := shared (t '' alike max t i) (t i) (t i).length

/-- Where a text that has look-alikes is read from: 4 characters before the first that not all of
them have there, but not so late that it ends before the label does. -/
noncomputable def readFrom : ℕ := (common max t i - 4) ⊓ ((t i).length - (max - 1))

noncomputable def window : Text := ((t i).drop (readFrom max t i)).take (max - 1)

def FromStart : Prop :=
  alike max t i = ∅ ∧ (t i).length ≤ max ∨ (alike max t i).Nonempty ∧ readFrom max t i = 0

def FromInside : Prop := (alike max t i).Nonempty ∧ 0 < readFrom max t i

def FromEnds : Prop := alike max t i = ∅ ∧ max < (t i).length

/-- Two texts that nothing is read of that tells them apart. -/
inductive Clash : Prop
  /-- As of two families that name their configs alike. -/
  | same (h : t i = t j)
  | starts (hi : FromStart max t i) (hj : FromStart max t j) (h : (t i).take max = (t j).take max)
  | insides (hi : FromInside max t i) (hj : FromInside max t j)
    (h : window max t i = window max t j)
  /-- A text that starts with an `…` of its own. -/
  | dotsFirst (hi : FromInside max t i) (hj : FromStart max t j) (hdots : (t j)[0]? = some ellipsis)
    (h : ((t j).drop 1).take (max - 1) = window max t i)
  /-- A text that has one where the other is shortened. -/
  | dotsAmid (hi : FromEnds max t i) (hj : FromStart max t j)
    (hstart : start max (t j) = start max (t i)) (hdots : (t j)[head max]? = some ellipsis)
    (hending : ((t j).take max).drop (head max + 1) = ending max (t i))
  /-- Both, one in each of the texts. -/
  | dotsBoth (hi : FromEnds max t i) (hj : FromInside max t j) (hfirst : (t i)[0]? = some ellipsis)
    (hstart : (window max t j).take (head max - 1) = (start max (t i)).drop 1)
    (hamid : (window max t j)[head max - 1]? = some ellipsis)
    (hending : (window max t j).drop (head max) = ending max (t i))

open Classical in
noncomputable def shown : Text :=
  if (alike max t i).Nonempty then
    if 0 < readFrom max t i then ellipsis :: window max t i else (t i).take max
  else fitLabel (t i) max

end Shown

section Lengths

variable {max : ℕ}

theorem one_le_head : 1 ≤ head max := le_sup_left

theorem head_lt (hmax : 1 < max) : head max < max := by
  unfold head
  omega

theorem head_le {n : ℕ} (h : max < n) : head max ≤ n := by
  unfold head
  omega

theorem length_start {t : Text} (h : max < t.length) : (start max t).length = head max := by
  rw [start, List.length_take, min_eq_left (head_le h)]

theorem length_ending {t : Text} (h : max < t.length) :
    (ending max t).length = max - 1 - head max := by
  rw [ending, List.length_drop]
  omega

theorem fitLabel_of_le {t : Text} (h : t.length ≤ max) : fitLabel t max = t := if_pos h

theorem fitLabel_of_lt {t : Text} (h : max < t.length) :
    fitLabel t max = start max t ++ ellipsis :: ending max t := if_neg h.not_ge

theorem length_fitLabel_le (hmax : 1 < max) (t : Text) : (fitLabel t max).length ≤ max := by
  obtain h | h := le_or_gt t.length max
  · rwa [fitLabel_of_le h]
  · have := head_lt hmax
    rw [fitLabel_of_lt h, List.length_append, List.length_cons, length_start h, length_ending h]
    omega

theorem Spells.fitLabel_eq {s t : Text} (h : Spells max s t) : fitLabel s max = fitLabel t max := by
  obtain ⟨hs, ht, heq⟩ := h
  rw [fitLabel_of_le hs, fitLabel_of_lt ht, heq]

theorem LookAlike.fitLabel_eq {s t : Text} (h : LookAlike max s t) :
    fitLabel s max = fitLabel t max := by
  cases h with
  | same h => rw [h]
  | shortened hs ht hstart hending =>
    rw [fitLabel_of_lt hs, fitLabel_of_lt ht, hstart, hending]
  | spells h => exact h.fitLabel_eq
  | spelled h => exact h.fitLabel_eq.symm

theorem lookAlike_of_fitLabel_eq {s t : Text} (h : fitLabel s max = fitLabel t max) :
    LookAlike max s t := by
  obtain hs | hs := le_or_gt s.length max
  · rw [fitLabel_of_le hs] at h
    obtain ht | ht := le_or_gt t.length max
    · exact .same (h.trans (fitLabel_of_le ht))
    · exact .spells ⟨hs, ht, h.trans (fitLabel_of_lt ht)⟩
  · obtain ht | ht := le_or_gt t.length max
    · rw [fitLabel_of_le ht] at h
      exact .spelled ⟨ht, hs, h.symm.trans (fitLabel_of_lt hs)⟩
    · rw [fitLabel_of_lt hs, fitLabel_of_lt ht] at h
      obtain ⟨hstart, hending⟩ := List.append_inj h ((length_start hs).trans (length_start ht).symm)
      exact .shortened hs ht hstart (List.cons.inj hending).2

end Lengths

section Refinement

variable {max n : ℕ} {t : Fin n → Text} {i : Fin n}

theorem mem_twins {labels : List Text} {label : Text} {i j : ℕ} :
    j ∈ twins labels label i ↔ j ≠ i ∧ labels[j]? = some label := by
  rw [twins, List.mem_flatMap]
  constructor
  · intro ⟨(other, k), hmem, hj⟩
    dsimp only at hj
    split at hj
    · next h =>
      obtain rfl := List.mem_singleton.1 hj
      exact ⟨h.1, h.2 ▸ List.mem_zipIdx_iff_getElem?.1 hmem⟩
    · exact absurd hj List.not_mem_nil
  · intro ⟨hne, hj⟩
    refine ⟨(label, j), List.mem_zipIdx_iff_getElem?.2 hj, ?_⟩
    dsimp only
    rw [if_pos ⟨hne, rfl⟩]
    exact List.mem_singleton_self j

theorem mem_twins_ofFn {j : ℕ} :
    j ∈ twins (List.ofFn fun i ↦ fitLabel (t i) max) (fitLabel (t i) max) i ↔
      ∃ j' ∈ alike max t i, (j' : ℕ) = j := by
  rw [mem_twins, List.getElem?_ofFn]
  constructor
  · intro ⟨hne, hj⟩
    split at hj
    · next hlt =>
      refine ⟨⟨j, hlt⟩, ⟨fun heq ↦ hne (congrArg Fin.val heq), ?_⟩, rfl⟩
      exact lookAlike_of_fitLabel_eq (Option.some.inj hj)
    · exact nomatch hj
  · rintro ⟨j, ⟨hne, hj⟩, rfl⟩
    rw [dif_pos j.isLt]
    exact ⟨fun heq ↦ hne (Fin.ext heq), congrArg some hj.fitLabel_eq⟩

theorem twins_ofFn_eq_nil_iff :
    twins (List.ofFn fun i ↦ fitLabel (t i) max) (fitLabel (t i) max) i = [] ↔
      ¬(alike max t i).Nonempty := by
  rw [List.eq_nil_iff_forall_not_mem]
  constructor
  · exact fun h ⟨j, hj⟩ ↦ h j (mem_twins_ofFn.2 ⟨j, hj, rfl⟩)
  · intro h j hj
    obtain ⟨j', hj', -⟩ := mem_twins_ofFn.1 hj
    exact h ⟨j', hj'⟩

theorem getD_ofFn : (List.ofFn t).getD i [] = t i := by
  rw [List.getD_eq_getElem?_getD, List.getElem?_ofFn, dif_pos i.isLt, Option.getD_some]

theorem differ_eq :
    differ (List.ofFn t) (twins (List.ofFn fun i ↦ fitLabel (t i) max) (fitLabel (t i) max) i)
      (t i) = common max t i := by
  refine countFrom_eq_shared fun k ↦ ?_
  simp only [List.all_eq_true, mem_twins_ofFn, decide_eq_true_iff, Set.forall_mem_image,
    forall_exists_index, and_imp, forall_apply_eq_imp_iff₂, getD_ofFn]

theorem widen_eq :
    widen (List.ofFn t) (List.ofFn fun i ↦ fitLabel (t i) max) max i (fitLabel (t i) max) =
      shown max t i := by
  rw [widen, shown]
  by_cases h : (alike max t i).Nonempty
  · rw [if_pos h, if_neg fun hnil ↦ twins_ofFn_eq_nil_iff.1 hnil h]
    simp only [getD_ofFn, differ_eq]
    rfl
  · rw [if_neg h, if_pos (twins_ofFn_eq_nil_iff.2 h)]

noncomputable def toldAll (names : List Text) (max : ℕ) (i : Fin names.length) : Text :=
  told names max names[i]

theorem toldAll_eq_trim (names : List Text) (max : ℕ) :
    toldAll names max = fun i ↦ trim names max names[i] :=
  funext fun _ ↦ trim_eq_told.symm

/-- The code's labels are what is shown of what the names are told as. -/
theorem fitLabels_eq (names : List Text) (max : ℕ) :
    fitLabels names max = List.ofFn (shown max (toldAll names max)) := by
  have htrimmed : names.map (trim names max) = List.ofFn (toldAll names max) := by
    rw [← List.ofFn_getElem_eq_map]
    exact congrArg List.ofFn (toldAll_eq_trim names max).symm
  rw [fitLabels]
  simp only [htrimmed, List.map_ofFn]
  refine List.ext_getElem ?_ fun i h₁ h₂ ↦ ?_
  · rw [List.length_mapIdx, List.length_ofFn, List.length_ofFn]
  · rw [List.getElem_mapIdx, List.getElem_ofFn, List.getElem_ofFn]
    exact widen_eq (i := ⟨i, _⟩)

end Refinement

section Clashes

variable {max n : ℕ} {t : Fin n → Text} {i j : Fin n}

theorem read_cases (max : ℕ) (t : Fin n → Text) (i : Fin n) :
    FromStart max t i ∨ FromInside max t i ∨ FromEnds max t i := by
  obtain halike | halike := (alike max t i).eq_empty_or_nonempty
  · obtain h | h := le_or_gt (t i).length max
    · exact .inl (.inl ⟨halike, h⟩)
    · exact .inr (.inr ⟨halike, h⟩)
  · obtain h | h := Nat.eq_zero_or_pos (readFrom max t i)
    · exact .inl (.inr ⟨halike, h⟩)
    · exact .inr (.inl ⟨halike, h⟩)

theorem FromStart.shown_eq (h : FromStart max t i) : shown max t i = (t i).take max := by
  obtain ⟨halike, hle⟩ | ⟨halike, hzero⟩ := h
  · rw [shown, halike, if_neg Set.not_nonempty_empty, fitLabel_of_le hle,
      List.take_of_length_le hle]
  · rw [shown, if_pos halike, hzero, if_neg (lt_irrefl 0)]

theorem FromInside.shown_eq (h : FromInside max t i) :
    shown max t i = ellipsis :: window max t i := by
  rw [shown, if_pos h.1, if_pos h.2]

theorem FromEnds.shown_eq (h : FromEnds max t i) :
    shown max t i = start max (t i) ++ ellipsis :: ending max (t i) := by
  rw [shown, h.1, if_neg Set.not_nonempty_empty, fitLabel_of_lt h.2]

theorem length_shown_le (hmax : 1 < max) : (shown max t i).length ≤ max := by
  obtain h | h | h := read_cases max t i
  · rw [h.shown_eq]
    exact List.length_take_le _ _
  · have := List.length_take_le (max - 1) ((t i).drop (readFrom max t i))
    rw [h.shown_eq, List.length_cons, window]
    omega
  · rw [h.shown_eq, ← fitLabel_of_lt h.2]
    exact length_fitLabel_le hmax _

theorem FromInside.shown_eq_iff (hmax : 1 < max) (hi : FromInside max t i)
    (hj : FromStart max t j) : shown max t i = shown max t j ↔
      (t j)[0]? = some ellipsis ∧ ((t j).drop 1).take (max - 1) = window max t i := by
  have hcons := eq_append_cons_iff (l := (t j).take max) (s := []) (a := ellipsis)
    (t := window max t i)
  rw [hi.shown_eq, hj.shown_eq, eq_comm, ← List.nil_append (ellipsis :: _), hcons]
  simp only [List.length_nil, List.take_zero, true_and, Nat.zero_add,
    List.getElem?_take_of_lt (Nat.zero_lt_of_lt hmax), List.drop_take]

theorem FromEnds.shown_eq_iff (hmax : 1 < max) (hi : FromEnds max t i)
    (hj : FromStart max t j) : shown max t i = shown max t j ↔
      start max (t j) = start max (t i) ∧ (t j)[head max]? = some ellipsis ∧
        ((t j).take max).drop (head max + 1) = ending max (t i) := by
  have hhead := head_lt hmax
  rw [hi.shown_eq, hj.shown_eq, eq_comm, eq_append_cons_iff, length_start hi.2,
    List.getElem?_take_of_lt hhead, List.take_take, min_eq_left hhead.le]
  rfl

theorem FromEnds.shown_eq_iff_inside (hi : FromEnds max t i) (hj : FromInside max t j) :
    shown max t i = shown max t j ↔
      (t i)[0]? = some ellipsis ∧
      (window max t j).take (head max - 1) = (start max (t i)).drop 1 ∧
      (window max t j)[head max - 1]? = some ellipsis ∧
      (window max t j).drop (head max) = ending max (t i) := by
  have hhead := @one_le_head max
  have hlength := length_start hi.2
  obtain ⟨first, rest, hstart⟩ := List.exists_cons_of_length_pos (hhead.trans_eq hlength.symm)
  rw [hstart, List.length_cons] at hlength
  have hfirst : (t i)[0]? = some first := by
    rw [← List.getElem?_take_of_lt hhead, ← start, hstart, List.getElem?_cons_zero]
  have hrest : rest.length = head max - 1 := by omega
  rw [hi.shown_eq, hj.shown_eq, hstart, hfirst, List.cons_append, List.cons.injEq,
    eq_comm (a := rest ++ _), eq_append_cons_iff, hrest, Nat.sub_add_cancel hhead, Option.some_inj,
    List.drop_succ_cons, List.drop_zero]

theorem shown_eq_of_eq (hne : i ≠ j) (h : t i = t j) : shown max t i = shown max t j := by
  have hsubset {i j : Fin n} (hne : i ≠ j) (h : t i = t j) :
      t '' alike max t i ⊆ t '' alike max t j := by
    rintro _ ⟨k, ⟨-, hk⟩, rfl⟩
    by_cases hkj : k = j
    · exact ⟨i, ⟨hne, .same h⟩, h.trans (congrArg t hkj.symm)⟩
    · exact ⟨k, ⟨hkj, h ▸ hk⟩, rfl⟩
  have himage := (hsubset hne h).antisymm (hsubset hne.symm h.symm)
  have hread : readFrom max t i = readFrom max t j := by
    rw [readFrom, readFrom, common, common, himage, h]
  have hi : (alike max t i).Nonempty := ⟨j, hne.symm, .same h.symm⟩
  have hj : (alike max t j).Nonempty := ⟨i, hne, .same h⟩
  rw [shown, shown, if_pos hi, if_pos hj, window, window, hread, h]

theorem Clash.shown_eq (hne : i ≠ j) (hmax : 1 < max) (h : Clash max t i j) :
    shown max t i = shown max t j := by
  cases h with
  | same h => exact shown_eq_of_eq hne h
  | starts hi hj h => rw [hi.shown_eq, hj.shown_eq, h]
  | insides hi hj h => rw [hi.shown_eq, hj.shown_eq, h]
  | dotsFirst hi hj hdots h => exact (hi.shown_eq_iff hmax hj).2 ⟨hdots, h⟩
  | dotsAmid hi hj hstart hdots hending =>
    exact (hi.shown_eq_iff hmax hj).2 ⟨hstart, hdots, hending⟩
  | dotsBoth hi hj hfirst hstart hamid hending =>
    exact (hi.shown_eq_iff_inside hj).2 ⟨hfirst, hstart, hamid, hending⟩

theorem clash_of_shown_eq (hmax : 1 < max) (hne : i ≠ j) (h : shown max t i = shown max t j) :
    Clash max t i j ∨ Clash max t j i := by
  obtain hi | hi | hi := read_cases max t i
  · obtain hj | hj | hj := read_cases max t j
    · exact .inl (.starts hi hj (by rwa [hi.shown_eq, hj.shown_eq] at h))
    · obtain ⟨hdots, h⟩ := (hj.shown_eq_iff hmax hi).1 h.symm
      exact .inr (.dotsFirst hj hi hdots h)
    · obtain ⟨hstart, hdots, hending⟩ := (hj.shown_eq_iff hmax hi).1 h.symm
      exact .inr (.dotsAmid hj hi hstart hdots hending)
  · obtain hj | hj | hj := read_cases max t j
    · obtain ⟨hdots, h⟩ := (hi.shown_eq_iff hmax hj).1 h
      exact .inl (.dotsFirst hi hj hdots h)
    · rw [hi.shown_eq, hj.shown_eq] at h
      exact .inl (.insides hi hj (List.cons.inj h).2)
    · obtain ⟨hfirst, hstart, hamid, hending⟩ := (hj.shown_eq_iff_inside hi).1 h.symm
      exact .inr (.dotsBoth hj hi hfirst hstart hamid hending)
  · obtain hj | hj | hj := read_cases max t j
    · obtain ⟨hstart, hdots, hending⟩ := (hi.shown_eq_iff hmax hj).1 h
      exact .inl (.dotsAmid hi hj hstart hdots hending)
    · obtain ⟨hfirst, hstart, hamid, hending⟩ := (hi.shown_eq_iff_inside hj).1 h
      exact .inl (.dotsBoth hi hj hfirst hstart hamid hending)
    · -- two that are read from their ends look alike, which neither has a text do
      rw [hi.shown_eq, hj.shown_eq, ← fitLabel_of_lt hi.2, ← fitLabel_of_lt hj.2] at h
      have hmem : j ∈ alike max t i := ⟨hne.symm, lookAlike_of_fitLabel_eq h.symm⟩
      rw [hi.1] at hmem
      exact absurd hmem (Set.notMem_empty j)

end Clashes

section Parted

variable (max : ℕ) {n : ℕ} (t : Fin n → Text) (i j : Fin n)

/-- Two look-alikes that differ in their first `max` characters, or in the `max - 5` behind those
that they have in common with all of theirs. -/
def Parted : Prop := ∃ e < max + (common max t i - 5), (t i)[e]? ≠ (t j)[e]?

/-- A text has `max - 1` characters in a row that another has around the place where it and its
look-alikes part. -/
def Meets : Prop :=
  ∃ a ≤ common max t i, common max t i ≤ a + (max - 1) ∧ a + (max - 1) ≤ (t i).length ∧
    ((t i).drop a).take (max - 1) <:+: t j

/-- Texts whose look-alikes are parted, and that do not come to the same label by characters they
happen to repeat: a look-alike's last ones in a longer one, those around the place where look-alikes
part in a text that does not look like them, or an `…` where another is shortened. -/
structure Apart : Prop where
  parted : ∀ i j, i ≠ j → LookAlike max (t j) (t i) → Parted max t i j
  ends : ∀ i j, i ≠ j → LookAlike max (t j) (t i) → (t i).length < (t j).length →
    ¬(t i).drop ((t i).length - (max - 1)) <:+: t j
  around : ∀ i j k, j ≠ i → LookAlike max (t j) (t i) → k ≠ i → ¬LookAlike max (t k) (t i) →
    ¬Meets max t i k
  dots : ∀ i j, i ≠ j → max < (t i).length →
    ¬(start max (t i)).drop 1 ++ ellipsis :: ending max (t i) <:+: t j

variable {max : ℕ} {n : ℕ} {t : Fin n → Text} {i j : Fin n}

instance (s t : Text) : Decidable (LookAlike max s t) :=
  decidable_of_iff (fitLabel s max = fitLabel t max)
    ⟨lookAlike_of_fitLabel_eq, LookAlike.fitLabel_eq⟩

/-- `common`, as the code's loop finds it. -/
def commonFound (max : ℕ) (t : Fin n → Text) (i : Fin n) : ℕ :=
  differ (List.ofFn t) (twins (List.ofFn fun i ↦ fitLabel (t i) max) (fitLabel (t i) max) i) (t i)

instance : Decidable (Parted max t i j) :=
  decidable_of_iff (∃ e < max + (commonFound max t i - 5), (t i)[e]? ≠ (t j)[e]?)
    (by rw [commonFound, differ_eq, Parted])

instance : Decidable (Meets max t i j) :=
  decidable_of_iff (∃ a ≤ commonFound max t i, commonFound max t i ≤ a + (max - 1) ∧
      a + (max - 1) ≤ (t i).length ∧ ((t i).drop a).take (max - 1) <:+: t j)
    (by rw [commonFound, differ_eq, Meets])

theorem mem_alike_symm (hj : j ∈ alike max t i) : i ∈ alike max t j :=
  ⟨hj.1.symm, lookAlike_of_fitLabel_eq hj.2.fitLabel_eq.symm⟩

theorem common_le_length : common max t i ≤ (t i).length := (le_shared_iff.1 le_rfl).1

theorem take_common (hj : j ∈ alike max t i) :
    (t j).take (common max t i) = (t i).take (common max t i) :=
  (le_shared_iff.1 le_rfl).2 (t j) ⟨j, hj, rfl⟩

theorem common_eq_of_alike (hj : j ∈ alike max t i) : common max t i = common max t j := by
  have hle {i j : Fin n} (hj : j ∈ alike max t i) : common max t i ≤ common max t j := by
    have htake := take_common hj
    refine le_shared_iff.2 ⟨?_, ?_⟩
    · have hlength := congrArg List.length htake
      rw [List.length_take, List.length_take, min_eq_left common_le_length] at hlength
      omega
    · rintro _ ⟨k, ⟨hkj, hk⟩, rfl⟩
      by_cases hki : k = i
      · rw [hki, htake]
      · rw [htake]
        exact take_common ⟨hki, lookAlike_of_fitLabel_eq (hk.fitLabel_eq.trans hj.2.fitLabel_eq)⟩
  exact (hle hj).antisymm (hle (mem_alike_symm hj))

theorem Parted.symm (hj : j ∈ alike max t i) (h : Parted max t i j) : Parted max t j i := by
  obtain ⟨e, he, hne⟩ := h
  exact ⟨e, common_eq_of_alike hj ▸ he, hne.symm⟩

theorem getElem?_eq_of_not_parted (h : ¬Parted max t i j) {e : ℕ}
    (he : e < max + (common max t i - 5)) : (t i)[e]? = (t j)[e]? :=
  by_contra fun hne ↦ h ⟨e, he, hne⟩

theorem readFrom_eq_of_not_parted (hmax : 0 < max) (hj : j ∈ alike max t i)
    (h : ¬Parted max t i j) : readFrom max t i = readFrom max t j := by
  have hsame : ∀ e < max + (common max t i - 5), (t i)[e]? = (t j)[e]? :=
    fun _ ↦ getElem?_eq_of_not_parted h
  rw [readFrom, readFrom, ← common_eq_of_alike hj]
  obtain hlt | heq | hgt := lt_trichotomy (t i).length (t j).length
  · have hle := le_length_of_same hlt hsame
    omega
  · rw [heq]
  · have hle := le_length_of_same hgt fun e he ↦ (hsame e he).symm
    omega

theorem shown_eq_of_not_parted (hmax : 0 < max) (hj : j ∈ alike max t i)
    (h : ¬Parted max t i j) : shown max t i = shown max t j := by
  have hread := readFrom_eq_of_not_parted hmax hj h
  obtain hzero | hpos := Nat.eq_zero_or_pos (readFrom max t i)
  · rw [FromStart.shown_eq (.inr ⟨⟨j, hj⟩, hzero⟩),
      FromStart.shown_eq (.inr ⟨⟨i, mem_alike_symm hj⟩, hread.symm.trans hzero⟩)]
    exact take_eq_take_iff.2 fun e he ↦ getElem?_eq_of_not_parted h (by omega)
  · rw [FromInside.shown_eq ⟨⟨j, hj⟩, hpos⟩,
      FromInside.shown_eq ⟨⟨i, mem_alike_symm hj⟩, hread ▸ hpos⟩, window, window, ← hread]
    have hle : readFrom max t i ≤ common max t i - 4 := min_le_left _ _
    refine congrArg _ (take_eq_take_iff.2 fun e he ↦ ?_)
    rw [List.getElem?_drop, List.getElem?_drop]
    exact getElem?_eq_of_not_parted h (by omega)

theorem window_infix : window max t i <:+: t i :=
  (List.take_prefix _ _).isInfix.trans (List.drop_suffix _ _).isInfix

/-- Two look-alikes that are parted do not come to the same label, unless the shorter one's end is
in the longer. -/
theorem shown_ne_of_parted (hmax : 5 < max) (hj : j ∈ alike max t i) (hi : max < (t i).length)
    (hle : (t i).length ≤ (t j).length) (h : Parted max t i j)
    (hends : (t i).length < (t j).length → ¬(t i).drop ((t i).length - (max - 1)) <:+: t j) :
    shown max t i ≠ shown max t j := by
  obtain ⟨e, he, hne⟩ := h
  have hj' := mem_alike_symm hj
  have hreadi : readFrom max t i = (common max t i - 4) ⊓ ((t i).length - (max - 1)) := rfl
  have hreadj : readFrom max t j = (common max t i - 4) ⊓ ((t j).length - (max - 1)) := by
    rw [readFrom, common_eq_of_alike hj]
  have hcommon : common max t i ≤ e := by
    by_contra hlt
    exact hne (take_eq_take_iff.1 (take_common hj) e (not_le.1 hlt)).symm
  have hend : e < (t j).length := by
    by_contra hlong
    rw [List.getElem?_eq_none (by omega), List.getElem?_eq_none (by omega)] at hne
    exact hne rfl
  intro heq
  obtain hzero | hpos := Nat.eq_zero_or_pos (readFrom max t i)
  · rw [FromStart.shown_eq (.inr ⟨⟨j, hj⟩, hzero⟩),
      FromStart.shown_eq (.inr ⟨⟨i, hj'⟩, by omega⟩)] at heq
    exact hne (take_eq_take_iff.1 heq e (by omega))
  · rw [FromInside.shown_eq ⟨⟨j, hj⟩, hpos⟩, FromInside.shown_eq ⟨⟨i, hj'⟩, by omega⟩,
      List.cons.injEq] at heq
    by_cases hread : readFrom max t i = readFrom max t j
    · have hwindow := heq.2
      rw [window, window, ← hread] at hwindow
      have hat := take_eq_take_iff.1 hwindow (e - readFrom max t i) (by omega)
      rw [List.getElem?_drop, List.getElem?_drop, Nat.add_sub_cancel' (by omega)] at hat
      exact hne hat
    · -- only the shorter one is read from its end
      have hlast : readFrom max t i = (t i).length - (max - 1) := by omega
      have hwindow : window max t i = (t i).drop ((t i).length - (max - 1)) := by
        rw [window, hlast, List.take_of_length_le (by rw [List.length_drop]; omega)]
      refine hends (by omega) ?_
      rw [← hwindow, heq.2]
      exact window_infix

theorem meets_of_window (hmax : 5 < max) (hi : max < (t i).length)
    (h : window max t i <:+: t j) : Meets max t i j := by
  have hread : readFrom max t i = (common max t i - 4) ⊓ ((t i).length - (max - 1)) := rfl
  have hcommon : common max t i ≤ (t i).length := common_le_length
  exact ⟨readFrom max t i, by omega, by omega, by omega, h⟩

theorem meets_of_take (hmax : 5 < max) (hi : max < (t i).length) (hzero : readFrom max t i = 0)
    (h : (t i).take max = (t j).take max) : Meets max t i j := by
  refine meets_of_window hmax hi ?_
  have htake := congrArg (List.take (max - 1)) h
  rw [List.take_take, List.take_take, min_eq_left (by omega)] at htake
  rw [window, hzero, List.drop_zero, htake]
  exact (List.take_prefix _ _).isInfix

theorem drop_start_suffix {s : Text} : (start max s).drop 1 ++ ellipsis :: ending max s <:+
    start max s ++ ellipsis :: ending max s :=
  ⟨(start max s).take 1, by rw [← List.append_assoc, List.take_append_drop]⟩

namespace Apart

theorem ne (h : Apart max t) (hne : i ≠ j) : t i ≠ t j := by
  intro heq
  obtain ⟨e, -, hdiffer⟩ := h.parted i j hne (.same heq.symm)
  exact hdiffer (congrArg (·[e]?) heq)

theorem not_spells (h : Apart max t) (hne : i ≠ j) : ¬Spells max (t i) (t j) := by
  intro ⟨_, hlong, heq⟩
  exact h.dots j i hne.symm hlong (heq ▸ drop_start_suffix.isInfix)

theorem long (h : Apart max t) (hj : j ∈ alike max t i) : max < (t i).length := by
  obtain ⟨hne, hlook⟩ := hj
  cases hlook with
  | same heq => exact absurd heq (h.ne hne)
  | shortened _ hi => exact hi
  | spells hspells => exact absurd hspells (h.not_spells hne)
  | spelled hspells => exact absurd hspells (h.not_spells hne.symm)

theorem not_clash_of_alike (h : Apart max t) (hmax : 5 < max) (hj : j ∈ alike max t i) :
    ¬Clash max t i j := by
  intro hclash
  have hshown := hclash.shown_eq hj.1.symm (by omega)
  have hparted := h.parted i j hj.1.symm hj.2
  have hj' := mem_alike_symm hj
  obtain hle | hle := le_total (t i).length (t j).length
  · exact shown_ne_of_parted hmax hj (h.long hj) hle hparted (h.ends i j hj.1.symm hj.2) hshown
  · exact shown_ne_of_parted hmax hj' (h.long hj') hle (hparted.symm hj)
      (h.ends j i hj.1 hj'.2) hshown.symm

theorem not_meets (h : Apart max t) (hi : (alike max t i).Nonempty) (hne : j ≠ i)
    (hj : j ∉ alike max t i) : ¬Meets max t i j := by
  obtain ⟨k, hk⟩ := hi
  exact h.around i k j hk.1 hk.2 hne fun hlook ↦ hj ⟨hne, hlook⟩

theorem not_clash (h : Apart max t) (hmax : 5 < max) (hne : i ≠ j) : ¬Clash max t i j := by
  by_cases hij : j ∈ alike max t i
  · exact h.not_clash_of_alike hmax hij
  have hji : i ∉ alike max t j := fun hmem ↦ hij (mem_alike_symm hmem)
  have hlong {i : Fin n} (hi : (alike max t i).Nonempty) : max < (t i).length :=
    hi.elim fun _ hk ↦ h.long hk
  intro hclash
  have hshown := hclash.shown_eq hne (by omega)
  cases hclash with
  | same heq => exact h.ne hne heq
  | starts hi hj heq =>
    rcases hi with ⟨-, hi⟩ | ⟨hi, hzero⟩
    · rcases hj with ⟨-, hj⟩ | ⟨hj, hzero⟩
      · rw [List.take_of_length_le hi, List.take_of_length_le hj] at heq
        exact h.ne hne heq
      · exact h.not_meets hj hne hji (meets_of_take hmax (hlong hj) hzero heq.symm)
    · exact h.not_meets hi hne.symm hij (meets_of_take hmax (hlong hi) hzero heq)
  | insides hi hj heq =>
    exact h.not_meets hi.1 hne.symm hij
      (meets_of_window hmax (hlong hi.1) (heq ▸ window_infix))
  | dotsFirst hi hj hdots heq =>
    refine h.not_meets hi.1 hne.symm hij (meets_of_window hmax (hlong hi.1) ?_)
    rw [← heq]
    exact (List.take_prefix _ _).isInfix.trans (List.drop_suffix _ _).isInfix
  | dotsAmid hi hj =>
    rw [hi.shown_eq, hj.shown_eq] at hshown
    refine h.dots i j hne hi.2 (drop_start_suffix.isInfix.trans ?_)
    rw [hshown]
    exact (List.take_prefix _ _).isInfix
  | dotsBoth hi hj =>
    rw [hi.shown_eq, hj.shown_eq] at hshown
    have hwindow := congrArg (List.drop 1) hshown
    rw [List.drop_append_of_le_length (one_le_head.trans_eq (length_start hi.2).symm),
      List.drop_succ_cons, List.drop_zero] at hwindow
    exact h.dots i j hne hi.2 (hwindow ▸ window_infix)

end Apart

end Parted

structure ToldApart (names : List Text) (max : ℕ) (labels : List Text) : Prop where
  length_eq : labels.length = names.length
  le_max : ∀ label ∈ labels, label.length ≤ max
  nodup : labels.Nodup
  own : ∀ i : Fin names.length, names[i].length ≤ max →
    (∀ j, j ≠ i → fitLabel (trim names max names[j]) max ≠ names[i]) →
      labels[(i : ℕ)]? = some names[i]

theorem shown_own {names : List Text} {max : ℕ} {i : Fin names.length}
    (hle : names[i].length ≤ max)
    (htwin : ∀ j, j ≠ i → fitLabel (trim names max names[j]) max ≠ names[i]) :
    shown max (toldAll names max) i = names[i] := by
  have htold : toldAll names max i = names[i] := if_neg fun hlong ↦ hle.not_gt hlong.1
  have halike : alike max (toldAll names max) i = ∅ := by
    refine Set.eq_empty_iff_forall_notMem.2 fun j ⟨hne, hj⟩ ↦ htwin j hne ?_
    rw [trim_eq_told, ← toldAll, hj.fitLabel_eq, htold, fitLabel_of_le hle]
  have hstart : FromStart max (toldAll names max) i := .inl ⟨halike, htold.symm ▸ hle⟩
  rw [hstart.shown_eq, htold, List.take_of_length_le hle]

/-- `fitLabels` tells the names apart if and only if no two of them clash as they are told: all else
that labels are for holds whatever the names are. -/
theorem fitLabels_toldApart_iff (names : List Text) {max : ℕ} (hmax : 1 < max) :
    ToldApart names max (fitLabels names max) ↔
      ∀ i j, i ≠ j → ¬Clash max (toldAll names max) i j := by
  rw [fitLabels_eq]
  constructor
  · intro h i j hne hclash
    exact hne (List.nodup_ofFn.1 h.nodup (hclash.shown_eq hne hmax))
  · intro h
    refine ⟨List.length_ofFn, fun label hlabel ↦ ?_, List.nodup_ofFn.2 fun i j hij ↦ ?_,
      fun i hle htwin ↦ ?_⟩
    · obtain ⟨i, rfl⟩ := List.mem_ofFn.1 hlabel
      exact length_shown_le hmax
    · by_contra hne
      obtain hclash | hclash := clash_of_shown_eq hmax hne hij
      · exact h i j hne hclash
      · exact h j i (Ne.symm hne) hclash
    · rw [List.getElem?_ofFn, dif_pos i.isLt]
      exact congrArg some (shown_own hle htwin)

end Birdtest.Charts
