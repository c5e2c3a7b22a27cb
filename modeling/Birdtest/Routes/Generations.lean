import Birdtest.Base.Paging
import Birdtest.Routes.Cursor
import Mathlib.Data.Prod.Lex
import Mathlib.Order.Fin.Basic

namespace Birdtest.Routes

open Birdtest.Base.Paging

abbrev GenerationNumber := Fin (2 ^ 31)

-- what the numerals of the generations rest on
instance neZero_generations : NeZero (2 ^ 31) := ⟨by decide⟩

structure Progress (J R : Type) where
  job : J
  generation : GenerationNumber
  rack : R
  deriving DecidableEq

section Read

variable {J R : Type}

def maxGeneration (progress : List (Progress J R)) : Option GenerationNumber :=
  (progress.map (·.generation)).max?

theorem maxGeneration_eq_some {progress : List (Progress J R)} {g : GenerationNumber}
    (h : maxGeneration progress = some g) :
    (∃ p ∈ progress, p.generation = g) ∧ ∀ p ∈ progress, p.generation ≤ g := by
  obtain ⟨hmem, hle⟩ := max?_eq_some_iff.1 h
  exact ⟨List.mem_map.1 hmem, fun p hp ↦ hle _ (List.mem_map_of_mem hp)⟩

variable [LinearOrder R]

/-- `WHERE generation = $2 AND rack > $3 ORDER BY rack ASC` -/
def racksAfter (progress : List (Progress J R)) (generation : GenerationNumber) (after : Option R) :
    List (Progress J R) :=
  orderBy (·.rack) (progress.filter fun p ↦ p.generation = generation ∧ after.all (· < p.rack))

/-- The generations' racks from one on, newest generation first; `none` is `''`, before which no
rack sorts. -/
def readGenerations (progress : List (Progress J R)) (limit : ℕ) (current : GenerationNumber)
    (after : Option R) (rows : List (Progress J R)) : List (Progress J R) :=
  if current = 0 then rows
  else
    let remaining := limit - rows.length
    if remaining = 0 then rows
    else
      let page := (racksAfter progress current after).take remaining
      if page.length < remaining then
        match _h : maxGeneration (progress.filter (·.generation < current)) with
        | some next => readGenerations progress limit next none (rows ++ page)
        | none => rows ++ page
      else rows ++ page
termination_by current
decreasing_by
  obtain ⟨p, hp, rfl⟩ := (maxGeneration_eq_some _h).1
  exact of_decide_eq_true (List.mem_filter.1 hp).2

def leaveRows (progress : List (Progress J R)) (limit : ℕ)
    (after : Option GenerationNumber × Option R) : List (Progress J R) :=
  match after.1 <|> maxGeneration progress with
  | some generation => readGenerations progress limit generation after.2 []
  | none => []

variable [DecidableEq J]

def leaveCursor (text : Text R) (cursor : Option Cursor) : Option GenerationNumber × Option R :=
  match cursor.map decodeCursor with
  | some [generation, rack] => ((digits _).parse generation, text.parse rack)
  | _ => (none, none)

def leavePage (progress : List (Progress J R)) (text : Text R) (job : J) (limit : ℕ)
    (after : Option GenerationNumber × Option R) : Page (Progress J R) Cursor :=
  let rows := leaveRows (progress.filter (·.job = job)) limit after
  ⟨rows, if rows.length = limit then rows.getLast?.map fun last ↦
    encodeCursor [(digits _).print last.generation, text.print last.rack] else none⟩

end Read

section Order

variable {J R : Type} {progress : List (Progress J R)} {p x : Progress J R} {g : GenerationNumber}
variable {text : Text R}

def leaveOrder (p : Progress J R) : GenerationNumberᵒᵈ ×ₗ R := toLex (.toDual p.generation, p.rack)

theorem nodup_leaveOrder [DecidableEq J] {job : J} (h : progress.Nodup) :
    ((progress.filter (·.job = job)).map leaveOrder).Nodup := by
  refine (h.filter _).map_on fun p hp p' hp' heq ↦ ?_
  obtain ⟨hgeneration, hrack⟩ := Prod.ext_iff.1 (toLex.injective heq)
  have hjob := of_decide_eq_true (List.mem_filter.1 hp).2
  have hjob' := of_decide_eq_true (List.mem_filter.1 hp').2
  cases p
  cases p'
  cases hjob
  cases hjob'
  cases hrack
  cases OrderDual.toDual.injective hgeneration
  rfl

theorem maxGeneration_eq_none : maxGeneration progress = none ↔ progress = [] := by
  rw [maxGeneration, List.max?_eq_none_iff, List.map_eq_nil_iff]

def rackCursor (text : Text R) (p : Progress J R) : Cursor :=
  encodeCursor [(digits _).print p.generation, text.print p.rack]

theorem leaveCursor_rackCursor (h : separator ∉ text.print p.rack) :
    leaveCursor text (some (rackCursor text p)) = (some p.generation, some p.rack) := by
  have hparts : decodeCursor (rackCursor text p) =
      [(digits (2 ^ 31)).print p.generation, text.print p.rack] := by
    refine decodeCursor_encodeCursor (by simp) fun part hpart ↦ ?_
    rcases List.mem_pair.1 hpart with rfl | rfl
    · exact (digits _).separator_notMem _
    · exact h
  rw [leaveCursor, Option.map_some, hparts]
  simp only [Text.parse_print]

theorem leaveCursor_of_separator (h : separator ∈ text.print p.rack) :
    leaveCursor text (some (rackCursor text p)) = (none, none) := by
  have hlong : 2 < (decodeCursor (rackCursor text p)).length := length_decodeCursor h
  rw [leaveCursor, Option.map_some]
  split
  · next generation rack hparts =>
    rw [Option.some.inj hparts] at hlong
    exact absurd hlong (by simp)
  · rfl

variable [LinearOrder R]

theorem leaveOrder_lt : leaveOrder x < leaveOrder p ↔
    p.generation < x.generation ∨ p.generation = x.generation ∧ x.rack < p.rack := by
  rw [leaveOrder, leaveOrder, Prod.Lex.toLex_lt_toLex]
  exact or_congr Iff.rfl (and_congr_left' (OrderDual.toDual_inj.trans eq_comm))

end Order

section Feed

variable {J R : Type} [LinearOrder R] {progress : List (Progress J R)} {p x : Progress J R}
variable {current g : GenerationNumber} {after : Option R} {limit : ℕ} {rows : List (Progress J R)}

def restOf (progress : List (Progress J R)) (current : GenerationNumber) (after : Option R) :
    List (Progress J R) :=
  orderBy leaveOrder (progress.filter fun p ↦ 0 < p.generation ∧
    (p.generation < current ∨ p.generation = current ∧ after.all (· < p.rack)))

theorem mem_restOf : p ∈ restOf progress current after ↔ p ∈ progress ∧ 0 < p.generation ∧
    (p.generation < current ∨ p.generation = current ∧ after.all (· < p.rack) = true) := by
  rw [restOf, mem_orderBy, List.mem_filter, decide_eq_true_iff]

theorem ordered_restOf (h : (progress.map leaveOrder).Nodup) :
    Ordered leaveOrder (restOf progress current after) :=
  ordered_orderBy ((List.filter_sublist.map leaveOrder).nodup h)

theorem mem_racksAfter : p ∈ racksAfter progress current after ↔
    p ∈ progress ∧ p.generation = current ∧ after.all (· < p.rack) = true := by
  rw [racksAfter, mem_orderBy, List.mem_filter, decide_eq_true_iff]

theorem ordered_racksAfter (h : (progress.map leaveOrder).Nodup) :
    Ordered (·.rack) (racksAfter progress current after) := by
  refine ordered_orderBy (List.pairwise_map.2 ?_)
  refine ((List.pairwise_map.1 h).sublist List.filter_sublist).imp_of_mem fun hp hp' hne heq ↦
    hne ?_
  have hp := (of_decide_eq_true (List.mem_filter.1 hp).2).1
  have hp' := (of_decide_eq_true (List.mem_filter.1 hp').2).1
  rw [leaveOrder, leaveOrder, hp, hp', heq]

theorem restOf_zero : restOf progress 0 after = [] := by
  refine List.eq_nil_iff_forall_not_mem.2 fun p hp ↦ ?_
  obtain ⟨-, hpos, hp | ⟨hp, -⟩⟩ := mem_restOf.1 hp
  · exact absurd hp (Fin.not_lt_zero _)
  · exact absurd hp hpos.ne'

theorem restOf_eq (h : (progress.map leaveOrder).Nodup) (hcurrent : current ≠ 0)
    (hg : ∀ p ∈ progress, p.generation < current → p.generation ≤ g) (hlt : g < current) :
    restOf progress current after = racksAfter progress current after ++
    restOf progress g none := by
  refine (ordered_restOf h).ext (List.pairwise_append.2 ⟨?_, ordered_restOf h, ?_⟩) fun p ↦ ?_
  · refine (ordered_racksAfter h).imp_of_mem fun hp hp' hlt ↦ leaveOrder_lt.2 (.inr ⟨?_, hlt⟩)
    exact (mem_racksAfter.1 hp').2.1.trans (mem_racksAfter.1 hp).2.1.symm
  · intro p hp p' hp'
    have hp := (mem_racksAfter.1 hp).2.1
    obtain ⟨-, -, hp'⟩ := mem_restOf.1 hp'
    refine leaveOrder_lt.2 (.inl (hp ▸ ?_))
    rcases hp' with hp' | ⟨hp', -⟩
    · exact hp'.trans hlt
    · exact hp' ▸ hlt
  · rw [mem_restOf, List.mem_append, mem_racksAfter, mem_restOf]
    constructor
    · rintro ⟨hp, hpos, hlow | hhere⟩
      · exact .inr ⟨hp, hpos, (hg p hp hlow).lt_or_eq.imp id fun heq ↦ ⟨heq, rfl⟩⟩
      · exact .inl ⟨hp, hhere⟩
    · rintro (⟨hp, hhere⟩ | ⟨hp, hpos, hlow | ⟨hhere, -⟩⟩)
      · exact ⟨hp, hhere.1 ▸ Fin.pos_of_ne_zero hcurrent, .inr hhere⟩
      · exact ⟨hp, hpos, .inl (hlow.trans hlt)⟩
      · exact ⟨hp, hpos, .inl (hhere ▸ hlt)⟩

theorem restOf_next (h : (progress.map leaveOrder).Nodup) (hcurrent : current ≠ 0) :
    restOf progress current after = racksAfter progress current after ++
      (maxGeneration (progress.filter (·.generation < current))).elim []
        (restOf progress · none) := by
  cases hnext : maxGeneration (progress.filter (·.generation < current)) with
  | none =>
    have hnone := List.filter_eq_nil_iff.1 (maxGeneration_eq_none.1 hnext)
    rw [restOf_eq h hcurrent (fun p hp hlt ↦ (hnone p hp (decide_eq_true hlt)).elim)
      (Fin.pos_of_ne_zero hcurrent), restOf_zero, Option.elim_none]
  | some g =>
    obtain ⟨⟨q, hq, rfl⟩, hmax⟩ := maxGeneration_eq_some hnext
    exact restOf_eq h hcurrent
      (fun p hp hlt ↦ hmax p (List.mem_filter.2 ⟨hp, decide_eq_true hlt⟩))
      (of_decide_eq_true (List.mem_filter.1 hq).2)

/-- The generations are read on until the page is full or there are none left. -/
theorem readGenerations_eq (h : (progress.map leaveOrder).Nodup) :
    readGenerations progress limit current after rows =
      rows ++ (restOf progress current after).take (limit - rows.length) := by
  induction current, after, rows using readGenerations.induct progress limit with
  | case1 after rows =>
    rw [readGenerations, if_pos rfl, restOf_zero, List.take_nil, List.append_nil]
  | case2 current after rows hcurrent remaining hfull =>
    rw [readGenerations, if_neg hcurrent, if_pos hfull]
    rw [show limit - rows.length = 0 from hfull, List.take_zero, List.append_nil]
  | case3 current after rows hcurrent remaining hspace page hshort next hnext ih =>
    have hwhole : page = racksAfter progress current after :=
      List.take_of_length_le (by simp only [page, List.length_take] at hshort; omega)
    rw [readGenerations, if_neg hcurrent, if_neg hspace, if_pos hshort]
    split
    next next' hnext' =>
      cases hnext.symm.trans hnext'
      rw [ih, restOf_next h hcurrent, hnext, Option.elim_some, List.take_append, ← hwhole,
        List.take_of_length_le hshort.le, List.length_append, Nat.sub_sub, List.append_assoc]
    next hnone => cases hnext.symm.trans hnone
  | case4 current after rows hcurrent remaining hspace page hshort hnone =>
    have hwhole : page = racksAfter progress current after :=
      List.take_of_length_le (by simp only [page, List.length_take] at hshort; omega)
    rw [readGenerations, if_neg hcurrent, if_neg hspace, if_pos hshort]
    split
    next next' hnext' => cases hnone.symm.trans hnext'
    next => rw [restOf_next h hcurrent, hnone, Option.elim_none, List.append_nil]
  | case5 current after rows hcurrent remaining hspace page hshort =>
    have hfull : limit - rows.length ≤ (racksAfter progress current after).length := by
      simp only [page, remaining, List.length_take] at hshort
      omega
    rw [readGenerations, if_neg hcurrent, if_neg hspace, if_neg hshort, restOf_next h hcurrent,
      List.take_append_of_le_length hfull]

def leaveFeed (progress : List (Progress J R)) : List (Progress J R) :=
  orderBy leaveOrder (progress.filter (0 < ·.generation))

theorem mem_leaveFeed : p ∈ leaveFeed progress ↔ p ∈ progress ∧ 0 < p.generation := by
  rw [leaveFeed, mem_orderBy, List.mem_filter, decide_eq_true_iff]

theorem ordered_leaveFeed (h : (progress.map leaveOrder).Nodup) :
    Ordered leaveOrder (leaveFeed progress) :=
  ordered_orderBy ((List.filter_sublist.map leaveOrder).nodup h)

theorem leaveRows_first (h : (progress.map leaveOrder).Nodup) :
    leaveRows progress limit (none, none) = (leaveFeed progress).take limit := by
  rw [leaveRows, Option.orElse_eq_orElse, Option.orElse_eq_or, Option.none_or]
  cases hmax : maxGeneration progress with
  | none =>
    rw [maxGeneration_eq_none.1 hmax]
    exact List.take_nil.symm
  | some g =>
    obtain ⟨-, hle⟩ := maxGeneration_eq_some hmax
    have hwhole : restOf progress g none = leaveFeed progress := by
      refine (ordered_restOf h).ext (ordered_leaveFeed h) fun p ↦ ?_
      rw [mem_restOf, mem_leaveFeed]
      refine and_congr_right fun hp ↦ and_iff_left ?_
      exact (hle p hp).lt_or_eq.imp id fun heq ↦ ⟨heq, rfl⟩
    refine (readGenerations_eq h).trans ?_
    rw [hwhole]
    rfl

theorem leaveRows_next (h : (progress.map leaveOrder).Nodup) :
    leaveRows progress limit (some x.generation, some x.rack) =
      ((leaveFeed progress).filter fun p ↦ leaveOrder x < leaveOrder p).take limit := by
  have hrest : restOf progress x.generation (some x.rack) =
      (leaveFeed progress).filter fun p ↦ leaveOrder x < leaveOrder p := by
    refine (ordered_restOf h).ext ((ordered_leaveFeed h).sublist List.filter_sublist) fun p ↦ ?_
    rw [mem_restOf, List.mem_filter, mem_leaveFeed, decide_eq_true_iff, leaveOrder_lt, and_assoc,
      Option.all_some, decide_eq_true_iff]
  rw [leaveRows, Option.orElse_eq_orElse, Option.orElse_eq_or, Option.some_or, ← hrest]
  exact readGenerations_eq h

variable [DecidableEq J] {text : Text R} {job : J}

theorem leavePage_eq {after : Option GenerationNumber × Option R} {rest : List (Progress J R)}
    (h : leaveRows (progress.filter (·.job = job)) limit after = rest.take limit) :
    leavePage progress text job limit after = fullPage limit (rackCursor text) rest := by
  rw [leavePage, h]
  rfl

/-- A leave job's feed, across its generations, unless a page of it ends at a rack that no cursor
can hold. -/
theorem exact_leavePage_iff (h : progress.Nodup) (hlimit : 0 < limit) :
    Exact (fun c ↦ leavePage progress text job limit (leaveCursor text c))
        (fun p p' ↦ p'.generation < p.generation ∨ p'.generation = p.generation ∧ p.rack < p'.rack)
        (fun p ↦ p ∈ progress ∧ p.job = job ∧ 0 < p.generation) ↔
      ∀ p, EndsPage limit (leaveFeed (progress.filter (·.job = job))) p →
        separator ∉ text.print p.rack := by
  have hnodup : ((progress.filter (·.job = job)).map leaveOrder).Nodup := nodup_leaveOrder h
  have hfirst : leavePage progress text job limit (leaveCursor text none) =
      fullPage limit (rackCursor text) (leaveFeed (progress.filter (·.job = job))) :=
    leavePage_eq (leaveRows_first hnodup)
  have hnext (k : ℕ) (x : Progress J R)
      (hx : (leaveFeed (progress.filter (·.job = job)))[k * limit + (limit - 1)]? = some x) :
      leavePage progress text job limit (leaveCursor text (some (rackCursor text x))) =
        if separator ∉ text.print x.rack then fullPage limit (rackCursor text)
          ((leaveFeed (progress.filter (·.job = job))).drop ((k + 1) * limit))
        else leavePage progress text job limit (leaveCursor text none) := by
    split
    · next hplain =>
      rw [leaveCursor_rackCursor hplain]
      refine leavePage_eq ?_
      rw [leaveRows_next hnodup, (ordered_leaveFeed hnodup).filter_lt_getElem hx, Nat.succ_mul]
      congr 2
      omega
    · next hseparator =>
      rw [leaveCursor_of_separator (not_not.1 hseparator)]
      rfl
  constructor
  · rintro ⟨feed, hfollows, -⟩ p ⟨k, hp⟩
    exact readsBack_of_follows hlimit hfirst hnext hfollows hp
  · intro hends
    have hfollows : Follows (fun c ↦ leavePage progress text job limit (leaveCursor text c)) none
        ((leaveFeed (progress.filter (·.job = job))).drop (0 * limit)) :=
      follows_fullPage hlimit hnext hends (hfirst.trans (by rw [Nat.zero_mul, List.drop_zero]))
    rw [Nat.zero_mul, List.drop_zero] at hfollows
    refine ⟨_, hfollows, (ordered_leaveFeed hnodup).imp leaveOrder_lt.1,
      (ordered_leaveFeed hnodup).nodup, fun p ↦ ?_⟩
    rw [mem_leaveFeed, List.mem_filter, decide_eq_true_iff, and_assoc]

end Feed

end Birdtest.Routes
