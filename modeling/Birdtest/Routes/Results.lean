import Birdtest.Jobs.Finish
import Birdtest.Routes.Generations
import Mathlib.Data.Prod.Lex
import Mathlib.Order.Fin.Basic

namespace Birdtest.Routes

open Birdtest.Base.Paging
open Birdtest.Jobs.Finish (JobType)

/-- A `timestamptz` in microseconds; the feeds have none before 1970. -/
abbrev Micros := Fin (2 ^ 63)

abbrev Serial := Fin (2 ^ 63)

/-- `claim_has_single_owner` -/
inductive Identity (U : Type)
  | account (id : U)
  | anonymous (uuid : U)
  deriving DecidableEq

structure Claim (J U : Type) where
  id : U
  job : J
  claimedBy : Identity U
  completedAt : Option Micros

/-- A `position_analysis_records` row; `inGame` is its game index and turn number, of which it has
both or neither. -/
structure Record (J U R : Type) where
  id : Serial
  claim : U
  task : U
  job : J
  rack : R
  inGame : Option (ℕ × ℕ)
  submittedAt : Micros
  deriving DecidableEq

structure GameResult (J U : Type) where
  claim : U
  job : J
  submittedAt : Micros
  deriving DecidableEq

structure WorkerFilter (U : Type) where
  userId : Option U
  anonUuid : Option U
  named : userId.isSome = true ∨ anonUuid.isSome = true

def WorkerFilter.names {U : Type} [DecidableEq U] (worker : WorkerFilter U) : Identity U → Bool
  | .account id => worker.userId = some id
  | .anonymous uuid => worker.anonUuid = some uuid

structure Columns (ρ J U ι : Type) where
  claim : ρ → U
  job : ρ → J
  submittedAt : ρ → Micros
  /-- The tiebreaker. -/
  tie : ρ → ι

structure Entry (ρ : Type) where
  time : Micros
  row : ρ
  deriving DecidableEq

section Feed

variable {ρ J U ι : Type} [DecidableEq J] [DecidableEq U] [LinearOrder ι]
  (columns : Columns ρ J U ι)

/-- `ORDER BY at DESC, id DESC` -/
def newestFirst (e : Entry ρ) : (Micros ×ₗ ι)ᵒᵈ := .toDual (toLex (e.time, columns.tie e.row))

abbrev After (ι : Type) := Option Micros × Option ι

/-- `$4 IS NULL OR (time, tie) < ($4, $5)` -/
def rowBefore (after : After ι) (time : Micros) (tie : ι) : Bool :=
  after.1.all fun t ↦ time < t ∨ time = t ∧ after.2.any fun x ↦ tie < x

/-- `$4 IS NULL OR completed_at <= $4` -/
def inRange (after : After ι) (time : Micros) : Bool := after.1.all fun t ↦ time ≤ t

/-- `$4 IS NULL OR NOT (completed_at = $4 AND tie >= $5)`, which a missing `$5` makes unknown. -/
def tieBroken (after : After ι) (time : Micros) (tie : ι) : Bool :=
  after.1.all fun t ↦ ¬ time = t ∨ after.2.any fun x ↦ ¬ x ≤ tie

def everyonesPage (rows : List ρ) (job : J) (after : After ι) (limit : ℕ) : List (Entry ρ) :=
  (orderBy (newestFirst columns) ((rows.filter fun r ↦ columns.job r = job ∧
    rowBefore after (columns.submittedAt r) (columns.tie r)).map fun r ↦
      ⟨columns.submittedAt r, r⟩)).take limit

def claimRange (claims : List (Claim J U)) (job : J) (after : After ι) (identity : Identity U) :
    List (U × Micros) :=
  (claims.filter fun c ↦ c.claimedBy = identity ∧ c.job = job).filterMap fun c ↦
    (c.completedAt.filter (inRange after)).map fun t ↦ (c.id, t)

def filteredClaims (claims : List (Claim J U)) (job : J) (after : After ι)
    (worker : WorkerFilter U) : List (List (U × Micros)) :=
  (worker.userId.toList.map Identity.account ++ worker.anonUuid.toList.map Identity.anonymous).map
    (claimRange claims job after)

/-- `range JOIN rows` -/
def joined (rows : List ρ) (range : List (U × Micros)) : List (Entry ρ) :=
  range.flatMap fun claim ↦ (rows.filter (columns.claim · = claim.1)).map fun r ↦ ⟨claim.2, r⟩

def identityPage (rows : List ρ) (after : After ι) (limit : ℕ) (range : List (U × Micros)) :
    List (Entry ρ) :=
  (orderBy (newestFirst columns) ((joined columns rows range).filter fun e ↦
    tieBroken after e.time (columns.tie e.row))).take limit

def mergedPages (limit : ℕ) : List (List (Entry ρ)) → List (Entry ρ)
  | [one] => one
  | many => (orderBy (newestFirst columns) many.flatten).take limit

def workerPredicate (worker : Option (WorkerFilter U)) (c : Claim J U) : Bool :=
  worker.all fun worker ↦ worker.names c.claimedBy

/-- `WITH page AS` -/
def chosenPage (claims : List (Claim J U)) (rows : List ρ) (job : J) (after : After ι) (limit : ℕ) :
    Option (WorkerFilter U) → List (Entry ρ)
  | none => everyonesPage columns rows job after limit
  | some worker => mergedPages columns limit
      ((filteredClaims claims job after worker).map (identityPage columns rows after limit))

def resultsPage (claims : List (Claim J U)) (rows : List ρ) (text : PlainText ι)
    (job : J) (limit : ℕ) (worker : Option (WorkerFilter U)) (after : After ι) :
    Page (Entry ρ) Cursor :=
  let page := chosenPage columns claims rows job after limit worker
  let rows := orderBy (newestFirst columns) (page.filter fun e ↦
    claims.any fun c ↦ c.id = columns.claim e.row ∧ workerPredicate worker c)
  ⟨rows, if rows.length = limit then rows.getLast?.map fun last ↦
    encodeCursor [(digits _).print last.time, text.print (columns.tie last.row)] else none⟩

def resultCursor (text : PlainText ι) (cursor : Option Cursor) : After ι :=
  match cursor.map decodeCursor with
  | some [time, tie] => ((digits _).parse time, text.parse tie)
  | _ => (none, none)

end Feed

section Order

variable {ρ J U ι : Type} {columns : Columns ρ J U ι} {text : PlainText ι} {after : After ι}
variable {e x : Entry ρ} {time : Micros} {tie : ι}

def entryCursor (columns : Columns ρ J U ι) (text : PlainText ι) (e : Entry ρ) : Cursor :=
  encodeCursor [(digits _).print e.time, text.print (columns.tie e.row)]

theorem resultCursor_entryCursor :
    resultCursor text (some (entryCursor columns text e)) =
    (some e.time, some (columns.tie e.row)) := by
  have hparts : decodeCursor (entryCursor columns text e) =
      [(digits (2 ^ 63)).print e.time, text.print (columns.tie e.row)] := by
    refine decodeCursor_encodeCursor (by simp) fun part hpart ↦ ?_
    rcases List.mem_pair.1 hpart with rfl | rfl
    · exact (digits _).separator_notMem _
    · exact text.separator_notMem _
  rw [resultCursor, Option.map_some, hparts]
  simp only [Text.parse_print]

variable [LinearOrder ι]

theorem rowBefore_eq :
    rowBefore after time tie = (inRange after time && tieBroken after time tie) := by
  obtain ⟨t, x⟩ := after
  cases t with
  | none => rfl
  | some t =>
    simp only [rowBefore, inRange, tieBroken, Option.all_some, ← Bool.decide_and, not_le]
    refine decide_eq_decide.2 ⟨?_, ?_⟩
    · rintro (hlt | ⟨rfl, hx⟩)
      · exact ⟨hlt.le, .inl hlt.ne⟩
      · exact ⟨le_rfl, .inr hx⟩
    · rintro ⟨hle, hne | hx⟩
      · exact .inl (lt_of_le_of_ne hle hne)
      · rcases hle.lt_or_eq with hlt | heq
        · exact .inl hlt
        · exact .inr ⟨heq, hx⟩

theorem newestFirst_lt : newestFirst columns x < newestFirst columns e ↔
    e.time < x.time ∨ e.time = x.time ∧ columns.tie e.row < columns.tie x.row :=
  Prod.Lex.toLex_lt_toLex

theorem rowBefore_entry : rowBefore (some x.time, some (columns.tie x.row)) e.time
    (columns.tie e.row) =
    decide (newestFirst columns x < newestFirst columns e) := by
  rw [rowBefore, Option.all_some]
  refine decide_eq_decide.2 ?_
  rw [newestFirst_lt, Option.any_some, decide_eq_true_iff]

end Order

section Selected

variable {ρ J U ι : Type} [DecidableEq U] {columns : Columns ρ J U ι}
variable {claims : List (Claim J U)} {rows : List ρ} {job : J} {after : After ι} {e : Entry ρ}
variable {identity : Identity U} {id : U} {time : Micros} {range : List (U × Micros)}

section Range

variable [DecidableEq J]

theorem mem_claimRange : (id, time) ∈ claimRange claims job after identity ↔
    ∃ c ∈ claims, c.id = id ∧ c.claimedBy = identity ∧ c.job = job ∧ c.completedAt = some time ∧
      inRange after time = true := by
  simp only [claimRange, List.mem_filterMap, List.mem_filter, decide_eq_true_iff,
    Option.map_eq_some_iff, Option.filter_eq_some_iff, Prod.mk.injEq]
  constructor
  · rintro ⟨c, ⟨hc, hby, hjob⟩, t, ⟨ht, hrange⟩, rfl, rfl⟩
    exact ⟨c, hc, rfl, hby, hjob, ht, hrange⟩
  · rintro ⟨c, hc, rfl, hby, hjob, ht, hrange⟩
    exact ⟨c, ⟨hc, hby, hjob⟩, time, ⟨ht, hrange⟩, rfl, rfl⟩

theorem nodup_claimRange (hclaims : (claims.map (·.id)).Nodup) :
    ((claimRange claims job after identity).map Prod.fst).Nodup := by
  rw [List.Nodup, List.pairwise_map, claimRange, List.pairwise_filterMap]
  refine ((List.pairwise_map.1 hclaims).sublist List.filter_sublist).imp fun hne p hp p' hp' ↦ ?_
  obtain ⟨t, -, rfl⟩ := Option.map_eq_some_iff.1 hp
  obtain ⟨t', -, rfl⟩ := Option.map_eq_some_iff.1 hp'
  exact hne

theorem claimRange_eq : claimRange claims job after identity =
    (claimRange claims job ((none, none) : After ℕ) identity).filter fun c ↦ inRange after c.2 := by
  rw [claimRange, claimRange, List.filter_filterMap]
  refine List.filterMap_congr fun c _ ↦ ?_
  cases c.completedAt with
  | none => rfl
  | some t =>
    have hall : inRange ((none, none) : After ℕ) t = true := rfl
    cases ht : inRange after t <;> simp [Option.filter_some, hall, ht]

end Range

theorem mem_joined : e ∈ joined columns rows range ↔
    e.row ∈ rows ∧ (columns.claim e.row, e.time) ∈ range := by
  simp only [joined, List.mem_flatMap, List.mem_map, List.mem_filter, decide_eq_true_iff]
  constructor
  · rintro ⟨claim, hclaim, r, ⟨hr, hjoin⟩, rfl⟩
    exact ⟨hr, hjoin ▸ hclaim⟩
  · rintro ⟨hr, hclaim⟩
    exact ⟨_, hclaim, e.row, ⟨hr, rfl⟩, rfl⟩

theorem nodup_joined (hrange : (range.map Prod.fst).Nodup)
    (hrows : (rows.map columns.tie).Nodup) :
    ((joined columns rows range).map (newestFirst columns)).Nodup := by
  have hties : (joined columns rows range).Pairwise
      fun e e' ↦ columns.tie e.row ≠ columns.tie e'.row := by
    rw [joined, List.pairwise_flatMap]
    refine ⟨fun claim _ ↦ ?_, (List.pairwise_map.1 hrange).imp fun hne e he e' he' heq ↦ hne ?_⟩
    · rw [List.pairwise_map]
      exact (List.pairwise_map.1 hrows).sublist List.filter_sublist
    · obtain ⟨r, hr, rfl⟩ := List.mem_map.1 he
      obtain ⟨r', hr', rfl⟩ := List.mem_map.1 he'
      obtain ⟨hr, hclaim⟩ := List.mem_filter.1 hr
      obtain ⟨hr', hclaim'⟩ := List.mem_filter.1 hr'
      cases List.inj_on_of_nodup_map hrows hr hr' heq
      exact (of_decide_eq_true hclaim).symm.trans (of_decide_eq_true hclaim')
  refine List.pairwise_map.2 (hties.imp fun hne heq ↦ hne ?_)
  exact (Prod.ext_iff.1 (toLex.injective (OrderDual.toDual.injective heq))).2

theorem joined_cons {claim : U × Micros} : joined columns rows (claim :: range) =
    (rows.filter (columns.claim · = claim.1)).map (Entry.mk claim.2) ++ joined columns rows range :=
  List.flatMap_cons

theorem joined_filter {p : Micros → Bool} :
    joined columns rows (range.filter fun claim ↦ p claim.2) =
    (joined columns rows range).filter fun e ↦ p e.time := by
  induction range with
  | nil => rfl
  | cons claim range ih =>
    rw [joined_cons, List.filter_append, List.filter_map, Function.comp_def, ← ih]
    cases hp : p claim.2 with
    | false => simp [hp]
    | true => simp [hp, joined_cons]

end Selected

section Whole

variable {ρ J U ι : Type} {columns : Columns ρ J U ι} {claims : List (Claim J U)} {rows : List ρ}
variable {job : J} {e : Entry ρ} {identity : Identity U}
variable {worker : WorkerFilter U} {filter : Option (WorkerFilter U)}

def WorkerFilter.identities (worker : WorkerFilter U) : List (Identity U) :=
  worker.userId.toList.map .account ++ worker.anonUuid.toList.map .anonymous

theorem WorkerFilter.identities_cases (worker : WorkerFilter U) :
    (∃ i, worker.identities = [i]) ∨ ∃ i i', worker.identities = [i, i'] := by
  obtain ⟨user, anon, hnamed⟩ := worker
  cases user with
  | none =>
    cases anon with
    | none => simp at hnamed
    | some uuid => exact .inl ⟨.anonymous uuid, rfl⟩
  | some id =>
    cases anon with
    | none => exact .inl ⟨.account id, rfl⟩
    | some uuid => exact .inr ⟨.account id, .anonymous uuid, rfl⟩

theorem WorkerFilter.nodup_identities : worker.identities.Nodup := by
  obtain ⟨user, anon, -⟩ := worker
  cases user <;> cases anon <;> simp [identities]

variable [DecidableEq U]

theorem WorkerFilter.mem_identities :
    identity ∈ worker.identities ↔ worker.names identity = true := by
  cases identity <;> simp [identities, names]

variable [DecidableEq J]

def completedClaims (claims : List (Claim J U)) (job : J) (worker : WorkerFilter U) :
    List (U × Micros) :=
  worker.identities.flatMap (claimRange claims job ((none, none) : After ℕ))

def selectedRows (columns : Columns ρ J U ι) (claims : List (Claim J U)) (rows : List ρ) (job : J) :
    Option (WorkerFilter U) → List (Entry ρ)
  | none => (rows.filter (columns.job · = job)).map fun r ↦ ⟨columns.submittedAt r, r⟩
  | some worker => joined columns rows (completedClaims claims job worker)

/-- The rows of the job, at the time that each was submitted; of a contributor those of the claims
that are theirs, each at the time its claim was completed. -/
def Selects (columns : Columns ρ J U ι) (claims : List (Claim J U)) (rows : List ρ) (job : J)
    (filter : Option (WorkerFilter U)) (e : Entry ρ) : Prop :=
  e.row ∈ rows ∧ match filter with
    | none => columns.job e.row = job ∧ columns.submittedAt e.row = e.time
    | some worker => ∃ c ∈ claims, c.id = columns.claim e.row ∧ c.job = job ∧
        worker.names c.claimedBy = true ∧ c.completedAt = some e.time

theorem mem_selectedRows :
    e ∈ selectedRows columns claims rows job filter ↔ Selects columns claims rows job filter e := by
  cases filter with
  | none =>
    simp only [selectedRows, Selects, List.mem_map, List.mem_filter, decide_eq_true_iff]
    constructor
    · rintro ⟨r, ⟨hr, hjob⟩, rfl⟩
      exact ⟨hr, hjob, rfl⟩
    · rintro ⟨hr, hjob, htime⟩
      exact ⟨e.row, ⟨hr, hjob⟩, by rw [htime]⟩
  | some worker =>
    simp only [selectedRows, Selects, mem_joined, completedClaims, List.mem_flatMap, mem_claimRange,
      WorkerFilter.mem_identities]
    refine and_congr_right fun _ ↦ ⟨?_, ?_⟩
    · rintro ⟨_, hnames, c, hc, hid, rfl, hjob, htime, -⟩
      exact ⟨c, hc, hid, hjob, hnames, htime⟩
    · rintro ⟨c, hc, hid, hjob, hnames, htime⟩
      exact ⟨_, hnames, c, hc, hid, rfl, hjob, htime, rfl⟩

theorem nodup_completedClaims (hclaims : (claims.map (·.id)).Nodup) :
    ((completedClaims claims job worker).map Prod.fst).Nodup := by
  rw [completedClaims, List.map_flatMap, List.Nodup, List.pairwise_flatMap]
  refine ⟨fun _ _ ↦ nodup_claimRange hclaims, worker.nodup_identities.imp ?_⟩
  intro identity identity' hne id hid id' hid' heq
  obtain ⟨⟨_, t⟩, hclaim, rfl⟩ := List.mem_map.1 hid
  obtain ⟨⟨_, t'⟩, hclaim', rfl⟩ := List.mem_map.1 hid'
  obtain ⟨c, hc, rfl, rfl, -⟩ := mem_claimRange.1 hclaim
  obtain ⟨c', hc', rfl, rfl, -⟩ := mem_claimRange.1 hclaim'
  cases List.inj_on_of_nodup_map hclaims hc hc' heq
  exact hne rfl

theorem nodup_selectedRows (hclaims : (claims.map (·.id)).Nodup)
    (hrows : (rows.map columns.tie).Nodup) :
    ((selectedRows columns claims rows job filter).map (newestFirst columns)).Nodup := by
  cases filter with
  | none =>
    rw [selectedRows, List.map_map, List.Nodup, List.pairwise_map]
    refine ((List.pairwise_map.1 hrows).sublist List.filter_sublist).imp fun hne heq ↦ hne ?_
    exact (Prod.ext_iff.1 (toLex.injective (OrderDual.toDual.injective heq))).2
  | some worker => exact nodup_joined (nodup_completedClaims hclaims) hrows

end Whole

section Pages

variable {ρ J U ι : Type} [DecidableEq J] [DecidableEq U] [LinearOrder ι]
  {columns : Columns ρ J U ι}
variable {claims : List (Claim J U)} {rows : List ρ} {job : J} {after : After ι} {e x : Entry ρ}
variable {identity : Identity U} {worker : WorkerFilter U} {filter : Option (WorkerFilter U)}
variable {limit : ℕ} {text : PlainText ι}

theorem everyonesPage_eq : everyonesPage columns rows job after limit =
    (orderBy (newestFirst columns) ((selectedRows columns claims rows job none).filter fun e ↦
      rowBefore after e.time (columns.tie e.row))).take limit := by
  rw [everyonesPage, selectedRows, List.filter_map, List.filter_filter]
  congr 4
  funext r
  rw [Bool.decide_and, Bool.decide_eq_true, Bool.and_comm]
  rfl

theorem identityPage_eq :
    identityPage columns rows after limit (claimRange claims job after identity) =
      (orderBy (newestFirst columns)
        ((joined columns rows
          (claimRange claims job ((none, none) : After ℕ) identity)).filter fun e ↦
            rowBefore after e.time (columns.tie e.row))).take limit := by
  rw [identityPage, claimRange_eq, joined_filter, List.filter_filter]
  congr 2
  refine List.filter_congr fun e _ ↦ ?_
  rw [rowBefore_eq, Bool.and_comm]

/-- The identities' pages merged are the page of both. -/
theorem mergedPages_eq (hclaims : (claims.map (·.id)).Nodup)
    (hrows : (rows.map columns.tie).Nodup) :
    mergedPages columns limit
        ((filteredClaims claims job after worker).map (identityPage columns rows after limit)) =
      (orderBy (newestFirst columns) ((selectedRows columns claims rows job (some worker)).filter
        fun e ↦ rowBefore after e.time (columns.tie e.row))).take limit := by
  have hnodup :
      ((selectedRows columns claims rows job (some worker)).map (newestFirst columns)).Nodup :=
    nodup_selectedRows hclaims hrows
  have hfiltered : filteredClaims claims job after worker =
      worker.identities.map (claimRange claims job after) := rfl
  rw [hfiltered]
  rw [selectedRows, completedClaims] at hnodup ⊢
  rcases worker.identities_cases with ⟨i, hi⟩ | ⟨i, i', hi⟩
  · rw [hi, List.flatMap_singleton]
    exact identityPage_eq
  · rw [hi] at hnodup ⊢
    simp only [List.flatMap_cons, List.flatMap_nil, List.append_nil] at hnodup ⊢
    rw [joined, List.flatMap_append, ← joined, ← joined] at hnodup ⊢
    have hpages := ((List.filter_sublist (p := fun e : Entry ρ ↦
      rowBefore after e.time (columns.tie e.row))).map (newestFirst columns)).nodup hnodup
    rw [List.filter_append] at hpages ⊢
    rw [← take_orderBy_append hpages, ← identityPage_eq, ← identityPage_eq]
    simp only [mergedPages, List.map_cons, List.map_nil, List.flatten_cons, List.flatten_nil,
      List.append_nil]

theorem resultsPage_eq (hclaims : (claims.map (·.id)).Nodup) (hrows : (rows.map columns.tie).Nodup)
    (hclaim : ∀ r ∈ rows, ∃ c ∈ claims, c.id = columns.claim r) :
    resultsPage columns claims rows text job limit filter after =
      let shown :=
  ((orderBy (newestFirst columns) (selectedRows columns claims rows job filter)).filter
        fun e ↦ rowBefore after e.time (columns.tie e.row)).take limit
      ⟨shown, if shown.length = limit then shown.getLast?.map (entryCursor columns text)
        else none⟩ := by
  have hnodup : ((selectedRows columns claims rows job filter).map (newestFirst columns)).Nodup :=
    nodup_selectedRows hclaims hrows
  have hpage : chosenPage columns claims rows job after limit filter =
      ((orderBy (newestFirst columns) (selectedRows columns claims rows job filter)).filter
        fun e ↦ rowBefore after e.time (columns.tie e.row)).take limit := by
    rw [← orderBy_filter hnodup]
    cases filter with
    | none => exact everyonesPage_eq
    | some worker => exact mergedPages_eq hclaims hrows
  have hordered := ordered_orderBy hnodup
  have hjoin :
      ∀ e ∈ ((orderBy (newestFirst columns) (selectedRows columns claims rows job filter)).filter
      fun e ↦ rowBefore after e.time (columns.tie e.row)).take limit,
      (claims.any fun c ↦ c.id = columns.claim e.row ∧ workerPredicate filter c) = true := by
    intro e he
    have he := mem_orderBy.1 (List.mem_of_mem_filter (List.mem_of_mem_take he))
    obtain ⟨hrow, hwhose⟩ := mem_selectedRows.1 he
    rw [List.any_eq_true]
    cases filter with
    | none =>
      obtain ⟨c, hc, hid⟩ := hclaim _ hrow
      exact ⟨c, hc, decide_eq_true ⟨hid, rfl⟩⟩
    | some worker =>
      obtain ⟨c, hc, hid, -, hnames, -⟩ := hwhose
      exact ⟨c, hc, decide_eq_true ⟨hid, hnames⟩⟩
  rw [resultsPage, hpage, List.filter_eq_self.2 hjoin, Ordered.orderBy_eq
    ((hordered.sublist List.filter_sublist).sublist (List.take_sublist ..))]
  rfl

/-- A results table's feed, of everyone's rows or of those of a name. -/
theorem exact_resultsPage (hclaims : (claims.map (·.id)).Nodup)
    (hrows : (rows.map columns.tie).Nodup)
    (hclaim : ∀ r ∈ rows, ∃ c ∈ claims, c.id = columns.claim r) (hlimit : 0 < limit) :
    Exact (fun c ↦ resultsPage columns claims rows text job limit filter (resultCursor text c))
      (fun e e' ↦ e'.time < e.time ∨ e'.time = e.time ∧ columns.tie e'.row < columns.tie e.row)
      (Selects columns claims rows job filter) := by
  have hnodup : ((selectedRows columns claims rows job filter).map (newestFirst columns)).Nodup :=
    nodup_selectedRows hclaims hrows
  have hfirst : Cuts limit (entryCursor columns text)
      (orderBy (newestFirst columns) (selectedRows columns claims rows job filter))
      (resultsPage columns claims rows text job limit filter (resultCursor text none)) := by
    have hall : (orderBy (newestFirst columns) (selectedRows columns claims rows job filter)).filter
        (fun e ↦ rowBefore ((none, none) : After ι) e.time (columns.tie e.row)) =
        orderBy (newestFirst columns) (selectedRows columns claims rows job filter) :=
      List.filter_eq_self.2 fun _ _ ↦ rfl
    rw [resultCursor, Option.map_none, resultsPage_eq hclaims hrows hclaim, hall]
    exact cuts_full hlimit
  refine exact_feed (ordered_orderBy hnodup) hfirst (fun x _ ↦ ?_) (fun _ _ ↦ newestFirst_lt.1)
    fun e ↦ mem_orderBy.trans mem_selectedRows
  rw [resultCursor_entryCursor, resultsPage_eq hclaims hrows hclaim]
  simp only [rowBefore_entry]
  exact cuts_full hlimit

end Pages

end Birdtest.Routes
