import Birdtest.Base.Paging
import Birdtest.Routes.Results
import Mathlib.Order.WithBot

namespace Birdtest.Routes

open Birdtest.Base.Paging

structure Totals where
  movegens : ℕ
  computeMs : ℕ
  tasksCompleted : ℕ
  lastCompletedAt : Option Micros

structure User (U : Type) where
  id : U
  username : String
  totals : Totals

structure AnonymousWorker (U : Type) where
  uuid : U
  totals : Totals

def i64Max : ℕ := 2 ^ 63 - 1

structure Contributors (U : Type) where
  users : List (User U)
  anonymous : List (AnonymousWorker U)
  users_nodup : (users.map (·.id)).Nodup
  anonymous_nodup : (anonymous.map (·.uuid)).Nodup
  length_le : users.length + anonymous.length ≤ i64Max

inductive WorkerSort
  | movegens
  | compute
  | tasks

def WorkerSort.column : WorkerSort → Totals → ℕ
  | .movegens => Totals.movegens
  | .compute => Totals.computeMs
  | .tasks => Totals.tasksCompleted

structure WorkerListItem (U : Type) where
  userId : Option U
  anonUuid : Option U
  username : Option String
  totals : Totals

def User.listItem {U : Type} (u : User U) : WorkerListItem U :=
  ⟨some u.id, none, some u.username, u.totals⟩

def AnonymousWorker.listItem {U : Type} (w : AnonymousWorker U) : WorkerListItem U :=
  ⟨none, some w.uuid, none, w.totals⟩

/-- The rows per page, and the offset, which saturates. -/
def paginate (page : ℤ) (perPage : Option ℤ) : ℕ × ℕ :=
  let perPage := (max 1 (min (perPage.getD 50) 500)).toNat
  (perPage, min (page.toNat * perPage) i64Max)

section Page

variable {U : Type} [LinearOrder U] (sort : WorkerSort)

def nullsLast : Option U → WithTop U
  | some id => id
  | none => ⊤

/-- `ORDER BY {rank} DESC, user_id, anon_uuid` -/
def rankOrder (item : WorkerListItem U) : ℕᵒᵈ ×ₗ (WithTop U ×ₗ WithTop U) :=
  toLex (.toDual (sort.column item.totals), toLex (nullsLast item.userId, nullsLast item.anonUuid))

def usersArm (users : List (User U)) (last : ℕ) : List (WorkerListItem U) :=
  ((orderBy (fun u ↦ toLex (OrderDual.toDual (sort.column u.totals), u.id))
    (users.filter (0 < ·.totals.tasksCompleted))).take last).map User.listItem

def anonymousArm (workers : List (AnonymousWorker U)) (last : ℕ) : List (WorkerListItem U) :=
  ((orderBy (fun w ↦ toLex (OrderDual.toDual (sort.column w.totals), w.uuid))
    (workers.filter (0 < ·.totals.tasksCompleted))).take last).map AnonymousWorker.listItem

def workerPage (contributors : Contributors U) (page : ℤ) (perPage : Option ℤ) :
    List (WorkerListItem U) :=
  let (limit, offset) := paginate page perPage
  let total := (contributors.users.filter (0 < ·.totals.tasksCompleted)).length +
    (contributors.anonymous.filter (0 < ·.totals.tasksCompleted)).length
  if total ≤ offset then []
  else
    let last := min (offset + limit) i64Max
    orderBy (rankOrder sort) (((orderBy (rankOrder sort) (usersArm sort contributors.users last ++
      anonymousArm sort contributors.anonymous last)).drop offset).take limit)

end Page

section Whole

variable {U : Type} {sort : WorkerSort} {contributors : Contributors U} {users : List (User U)}
variable {workers : List (AnonymousWorker U)} {last : ℕ}

def contributorRows (contributors : Contributors U) : List (WorkerListItem U) :=
  (contributors.users.filter (0 < ·.totals.tasksCompleted)).map User.listItem ++
    (contributors.anonymous.filter (0 < ·.totals.tasksCompleted)).map AnonymousWorker.listItem

theorem nodup_contributorRows :
    ((contributorRows contributors).map (rankOrder sort)).Nodup := by
  rw [contributorRows, List.map_append, List.map_map, List.map_map]
  refine List.Nodup.append ?_ ?_ ?_
  · refine (contributors.users_nodup.of_map.filter _).map_on fun u hu u' hu' heq ↦ ?_
    have := (Prod.ext_iff.1 (toLex.injective heq)).2
    have hid := WithTop.coe_inj.1 (Prod.ext_iff.1 (toLex.injective this)).1
    exact List.inj_on_of_nodup_map contributors.users_nodup (List.mem_of_mem_filter hu)
      (List.mem_of_mem_filter hu') hid
  · refine (contributors.anonymous_nodup.of_map.filter _).map_on fun w hw w' hw' heq ↦ ?_
    have := (Prod.ext_iff.1 (toLex.injective heq)).2
    have hid := WithTop.coe_inj.1 (Prod.ext_iff.1 (toLex.injective this)).2
    exact List.inj_on_of_nodup_map contributors.anonymous_nodup (List.mem_of_mem_filter hw)
      (List.mem_of_mem_filter hw') hid
  · intro k hk hk'
    obtain ⟨u, -, rfl⟩ := List.mem_map.1 hk
    obtain ⟨w, -, heq⟩ := List.mem_map.1 hk'
    have := (Prod.ext_iff.1 (toLex.injective heq)).2
    exact WithTop.coe_ne_top (Prod.ext_iff.1 (toLex.injective this)).1.symm

theorem length_contributorRows : (contributorRows contributors).length =
    (contributors.users.filter (0 < ·.totals.tasksCompleted)).length +
      (contributors.anonymous.filter (0 < ·.totals.tasksCompleted)).length := by
  rw [contributorRows, List.length_append, List.length_map, List.length_map]

theorem length_contributorRows_le : (contributorRows contributors).length ≤ i64Max := by
  rw [length_contributorRows]
  exact (Nat.add_le_add (List.length_filter_le ..) (List.length_filter_le ..)).trans
    contributors.length_le

variable [LinearOrder U]

theorem user_rankOrder (u u' : User U) :
    toLex (OrderDual.toDual (sort.column u.totals), u.id) ≤
        toLex (OrderDual.toDual (sort.column u'.totals), u'.id) ↔
      rankOrder sort u.listItem ≤ rankOrder sort u'.listItem := by
  simp only [rankOrder, User.listItem, nullsLast, Prod.Lex.toLex_le_toLex, WithTop.coe_lt_coe,
    WithTop.coe_inj, le_refl, and_true, ← le_iff_lt_or_eq]

theorem anonymous_rankOrder (w w' : AnonymousWorker U) :
    toLex (OrderDual.toDual (sort.column w.totals), w.uuid) ≤
        toLex (OrderDual.toDual (sort.column w'.totals), w'.uuid) ↔
      rankOrder sort w.listItem ≤ rankOrder sort w'.listItem := by
  simp only [rankOrder, AnonymousWorker.listItem, nullsLast, Prod.Lex.toLex_le_toLex,
    lt_self_iff_false, true_and, false_or, WithTop.coe_le_coe]

theorem usersArm_eq : usersArm sort users last = (orderBy (rankOrder sort)
    ((users.filter (0 < ·.totals.tasksCompleted)).map User.listItem)).take last := by
  rw [usersArm, List.map_take, map_orderBy user_rankOrder]

theorem anonymousArm_eq : anonymousArm sort workers last = (orderBy (rankOrder sort)
    ((workers.filter (0 < ·.totals.tasksCompleted)).map AnonymousWorker.listItem)).take last := by
  rw [anonymousArm, List.map_take, map_orderBy anonymous_rankOrder]

theorem take_arms (last : ℕ) : (orderBy (rankOrder sort) (usersArm sort contributors.users last ++
      anonymousArm sort contributors.anonymous last)).take last =
    (orderBy (rankOrder sort) (contributorRows contributors)).take last := by
  rw [usersArm_eq, anonymousArm_eq]
  exact take_orderBy_append nodup_contributorRows

theorem length_arms_le : (orderBy (rankOrder sort) (usersArm sort contributors.users last ++
    anonymousArm sort contributors.anonymous last)).length ≤ i64Max := by
  rw [perm_orderBy.length_eq, List.length_append, usersArm, anonymousArm, List.length_map,
    List.length_map]
  refine (Nat.add_le_add (List.length_take_le' ..) (List.length_take_le' ..)).trans ?_
  rw [perm_orderBy.length_eq, perm_orderBy.length_eq, ← length_contributorRows]
  exact length_contributorRows_le

/-- The page is within what the arms were read for, or they were read whole. -/
theorem slice_arms {limit offset : ℕ} :
    ((orderBy (rankOrder sort)
        (usersArm sort contributors.users (min (offset + limit) i64Max) ++
          anonymousArm sort contributors.anonymous (min (offset + limit) i64Max))).drop offset).take
            limit =
      ((orderBy (rankOrder sort) (contributorRows contributors)).drop offset).take limit := by
  have harms : (orderBy (rankOrder sort)
        (usersArm sort contributors.users (min (offset + limit) i64Max) ++
          anonymousArm sort contributors.anonymous (min (offset + limit) i64Max))).take
            (min (offset + limit) i64Max) =
      (orderBy (rankOrder sort) (contributorRows contributors)).take
        (min (offset + limit) i64Max) :=
    take_arms _
  rcases le_total (offset + limit) i64Max with hle | hle
  · rw [min_eq_left hle] at harms ⊢
    rw [List.take_drop, List.take_drop, harms]
  · rw [min_eq_right hle] at harms ⊢
    rw [List.take_of_length_le length_arms_le, List.take_of_length_le] at harms
    · rw [harms]
    · rw [perm_orderBy.length_eq]
      exact length_contributorRows_le

theorem workerPage_eq (page : ℤ) (perPage : Option ℤ) :
    workerPage sort contributors page perPage =
      ((orderBy (rankOrder sort) (contributorRows contributors)).drop
        (page.toNat * (paginate page perPage).1)).take (paginate page perPage).1 := by
  have hoffset : (paginate page perPage).2 = min (page.toNat * (paginate page perPage).1) i64Max :=
    rfl
  rcases hpaginate : paginate page perPage with ⟨limit, offset⟩
  rw [hpaginate] at hoffset
  simp only [workerPage, hpaginate, slice_arms, ← length_contributorRows] at hoffset ⊢
  rw [hoffset]
  have hlength : (contributorRows contributors).length ≤ i64Max := length_contributorRows_le
  split_ifs with hpast
  · rw [List.drop_of_length_le, List.take_nil]
    rw [perm_orderBy.length_eq]
    exact hpast.trans (min_le_left ..)
  · rw [min_eq_left (by omega)]
    exact Ordered.orderBy_eq (((ordered_orderBy nodup_contributorRows).sublist
      (List.drop_sublist ..)).sublist (List.take_sublist ..))

end Whole

end Birdtest.Routes
