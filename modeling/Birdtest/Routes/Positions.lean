import Birdtest.Routes.Results
import Mathlib.Data.Nat.Bitwise

namespace Birdtest.Routes

open Birdtest.Base.Paging

section Page

variable {J U R : Type} [DecidableEq J] [DecidableEq U] [DecidableEq R]

/-- `p` is the position at the same turn of the other game of `r`'s pair. -/
def IsPartner (r p : Record J U R) : Prop :=
  p.task = r.task ∧ p.inGame.isSome ∧ p.inGame = r.inGame.map fun (game, turn) ↦ (game ^^^ 1, turn)

instance (r p : Record J U R) : Decidable (IsPartner r p) :=
  inferInstanceAs (Decidable (_ ∧ _ ∧ _))

def leftOut (records : List (Record J U R)) (pairs : Bool) (r : Record J U R) : Bool :=
  pairs && r.inGame.any fun (game, turn) ↦ game % 2 = 1 ∧ records.any fun p ↦
    p.task = r.task ∧ p.inGame = some (game - 1, turn) ∧ p.rack = r.rack

def positionPage (records : List (Record J U R)) (pairs : Bool) (job : J) (rack : R) (limit : ℕ)
    (after : Option Serial) : Page (Record J U R) Cursor :=
  let rows := (orderBy (fun r ↦ OrderDual.toDual r.id) (records.filter fun r ↦
    r.job = job ∧ r.rack = rack ∧ r.inGame.isSome ∧ after.all (r.id < ·) ∧
      ¬ leftOut records pairs r)).take (limit + 1)
  ⟨rows.take limit, if limit < rows.length then (rows.take limit).getLast?.map fun last ↦
    encodeCursor [(digits _).print last.id] else none⟩

def positionCursor (cursor : Option Cursor) : Option Serial :=
  match cursor.map decodeCursor with
  | some [id] => (digits _).parse id
  | _ => none

structure SavedPosition (J U R : Type) where
  position : Record J U R
  partner : Option (Record J U R)

def takePartners : List (Record J U R) → List (Record J U R) → List (SavedPosition J U R)
  | _, [] => []
  | partners, r :: rows => ⟨r, partners.find? (IsPartner r ·)⟩ ::
      takePartners (partners.filter (¬ IsPartner r ·)) rows

def savedPositionsWithPartners (records : List (Record J U R)) (pairs : Bool)
    (rows : List (Record J U R)) : List (SavedPosition J U R) :=
  if pairs then takePartners (records.filter fun p ↦ rows.any (IsPartner · p)) rows
  else rows.map fun r ↦ ⟨r, none⟩

/-- `rack` is the one that was typed, as the job's letters spell it. -/
def jobPositions (records : List (Record J U R)) (pairs : Bool) (job : J) (rack : Option R)
    (limit : ℕ) (cursor : Option Cursor) : Page (SavedPosition J U R) Cursor :=
  match rack with
  | none => ⟨[], none⟩
  | some rack =>
    let page := positionPage records pairs job rack limit (positionCursor cursor)
    ⟨savedPositionsWithPartners records pairs page.items, page.nextCursor⟩

end Page

section Feed

variable {J U R : Type} [DecidableEq J] [DecidableEq U] [DecidableEq R]
variable {records rows partners : List (Record J U R)} {r r' p x : Record J U R} {pairs : Bool}
variable {job : J} {rack : R} {limit : ℕ} {after : Option Serial}

def idCursor (r : Record J U R) : Cursor := encodeCursor [(digits _).print r.id]

/-- `ORDER BY r.id DESC` -/
def newestId (r : Record J U R) : Serialᵒᵈ := .toDual r.id

def searched (records : List (Record J U R)) (pairs : Bool) (job : J) (rack : R) :
    List (Record J U R) :=
  records.filter fun r ↦ r.job = job ∧ r.rack = rack ∧ r.inGame.isSome ∧ ¬ leftOut records pairs r

theorem positionPage_eq (h : (records.map (·.id)).Nodup) :
    positionPage records pairs job rack limit after =
      let rest := (orderBy newestId (searched records pairs job rack)).filter fun r ↦
        after.all (r.id < ·)
      ⟨(rest.take (limit + 1)).take limit, if limit < (rest.take (limit + 1)).length then
        ((rest.take (limit + 1)).take limit).getLast?.map idCursor else none⟩ := by
  have hnodup : ((searched records pairs job rack).map newestId).Nodup :=
    (List.filter_sublist.map newestId).nodup
      (List.pairwise_map.2 ((List.pairwise_map.1 h).imp fun hne heq ↦ hne heq))
  have hquery : (records.filter fun r ↦ r.job = job ∧ r.rack = rack ∧ r.inGame.isSome ∧
      after.all (r.id < ·) ∧ ¬ leftOut records pairs r) =
      (searched records pairs job rack).filter fun r ↦ after.all (r.id < ·) := by
    rw [searched, List.filter_filter]
    refine List.filter_congr fun r _ ↦ ?_
    rw [Bool.eq_iff_iff]
    simp only [decide_eq_true_iff, Bool.and_eq_true]
    tauto
  rw [positionPage, hquery]
  simp only [← orderBy_filter hnodup]
  rfl

theorem positionPage_items (h : (records.map (·.id)).Nodup) :
    (positionPage records pairs job rack limit after).items ⊆ records ∧
      (positionPage records pairs job rack limit after).items.Nodup := by
  rw [positionPage_eq h]
  have hsub : (((orderBy newestId (searched records pairs job rack)).filter fun r ↦
      after.all (r.id < ·)).take (limit + 1)).take limit |>.Sublist
      (orderBy newestId (searched records pairs job rack)) :=
    ((List.take_sublist ..).trans (List.take_sublist ..)).trans List.filter_sublist
  refine ⟨fun r hr ↦ List.mem_of_mem_filter (mem_orderBy.1 (hsub.subset hr)), hsub.nodup ?_⟩
  exact perm_orderBy.nodup_iff.2 (h.of_map.sublist List.filter_sublist)

theorem exact_positionPage (h : (records.map (·.id)).Nodup) (hlimit : 0 < limit) :
    Exact (fun c ↦ positionPage records pairs job rack limit (positionCursor c))
      (fun r r' ↦ r'.id < r.id) (· ∈ searched records pairs job rack) := by
  have hnodup : ((searched records pairs job rack).map newestId).Nodup :=
    (List.filter_sublist.map newestId).nodup
      (List.pairwise_map.2 ((List.pairwise_map.1 h).imp fun hne heq ↦ hne heq))
  have hfirst : Cuts limit idCursor (orderBy newestId (searched records pairs job rack))
      (positionPage records pairs job rack limit (positionCursor none)) := by
    have hall : (orderBy newestId (searched records pairs job rack)).filter
        (fun r ↦ (none : Option Serial).all (r.id < ·)) =
        orderBy newestId (searched records pairs job rack) :=
      List.filter_eq_self.2 fun _ _ ↦ rfl
    rw [positionCursor, Option.map_none, positionPage_eq h, hall]
    exact cuts_more hlimit
  refine exact_feed (ordered_orderBy hnodup) hfirst (fun x _ ↦ ?_)
    (fun _ _ ↦ OrderDual.toDual_lt_toDual.1) fun _ ↦ mem_orderBy
  have hcursor : positionCursor (some (idCursor x)) = some x.id := by
    have hparts : decodeCursor (idCursor x) = [(digits (2 ^ 63)).print x.id] := by
      refine decodeCursor_encodeCursor (by simp) fun part hpart ↦ ?_
      rw [List.mem_singleton.1 hpart]
      exact (digits _).separator_notMem _
    rw [positionCursor, Option.map_some, hparts]
    exact (digits _).parse_print x.id
  have hrest : (orderBy newestId (searched records pairs job rack)).filter
      (fun r ↦ (some x.id).all (r.id < ·)) =
      (orderBy newestId (searched records pairs job rack)).filter fun r ↦ newestId x <
      newestId r := by
    simp only [Option.all_some, newestId, OrderDual.toDual_lt_toDual]
  rw [hcursor, positionPage_eq h, hrest]
  exact cuts_more hlimit

end Feed

section Partners

variable {J U R : Type} {records rows partners : List (Record J U R)} {r r' p q : Record J U R}
variable {pairs : Bool}

theorem IsPartner.same (h : IsPartner r p) (h' : IsPartner r' p) :
    r.task = r'.task ∧ r.inGame.isSome ∧ r.inGame = r'.inGame := by
  obtain ⟨htask, hsome, hturn⟩ := h
  obtain ⟨htask', -, hturn'⟩ := h'
  refine ⟨htask.symm.trans htask', ?_, ?_⟩
  · rwa [hturn, Option.isSome_map] at hsome
  · refine Option.map_injective ?_ (hturn.symm.trans hturn')
    intro (game, turn) (game', turn') heq
    obtain ⟨hgame, rfl⟩ := Prod.mk.inj heq
    rw [Nat.xor_left_inj.1 hgame]

theorem IsPartner.isSome (h : IsPartner r p) : p.inGame.isSome ↔ r.inGame.isSome := by
  rw [h.2.2, Option.isSome_map]

theorem IsPartner.symm (hr : r.inGame.isSome) (h : IsPartner r p) : IsPartner p r := by
  obtain ⟨htask, -, hturn⟩ := h
  refine ⟨htask.symm, hr, ?_⟩
  obtain ⟨⟨game, turn⟩, hr⟩ := Option.isSome_iff_exists.1 hr
  rw [hturn, hr, Option.map_some, Option.map_some]
  simp only [Nat.xor_xor_cancel_right]

def IsSecond (r : Record J U R) : Prop := ∃ game turn, r.inGame = some (game, turn) ∧ game % 2 = 1

theorem IsPartner.isSecond_iff (hr : r.inGame.isSome) (h : IsPartner r p) :
    IsSecond p ↔ ¬ IsSecond r := by
  obtain ⟨⟨game, turn⟩, hr⟩ := Option.isSome_iff_exists.1 hr
  have hp : p.inGame = some (game ^^^ 1, turn) := by rw [h.2.2, hr, Option.map_some]
  simp only [IsSecond, hr, hp, Option.some_inj, Prod.mk.injEq, and_assoc, exists_eq_left',
    exists_and_left]
  rcases Nat.even_or_odd game with heven | hodd
  · rw [Nat.xor_one_of_even heven]
    have := Nat.even_iff.1 heven
    omega
  · rw [Nat.xor_one_of_odd hodd]
    have := Nat.odd_iff.1 hodd
    omega

def InGameUnique (records : List (Record J U R)) : Prop :=
  ∀ r ∈ records, ∀ r' ∈ records, r.inGame.isSome → r.task = r'.task → r.inGame = r'.inGame → r = r'

theorem InGameUnique.of_subset (h : InGameUnique records) (hsub : rows ⊆ records) :
    InGameUnique rows :=
  fun r hr r' hr' ↦ h r (hsub hr) r' (hsub hr')

theorem IsPartner.unique (hgame : InGameUnique records) (hp : p ∈ records) (hq : q ∈ records)
    (h : IsPartner r p) (h' : IsPartner r q) : p = q :=
  hgame p hp q hq h.2.1 (h.1.trans h'.1.symm) (h.2.2.trans h'.2.2.symm)

variable [DecidableEq U]

theorem takePartners_eq (h : InGameUnique rows) (hrows : rows.Nodup) :
    takePartners partners rows = rows.map fun r ↦ ⟨r, partners.find? (IsPartner r ·)⟩ := by
  induction rows generalizing partners with
  | nil => rfl
  | cons r rows ih =>
    obtain ⟨hr, hrows⟩ := List.nodup_cons.1 hrows
    rw [takePartners, ih (h.of_subset (List.subset_cons_self ..)) hrows, List.map_cons]
    refine congrArg _ (List.map_congr_left fun r' hr' ↦ ?_)
    rw [List.find?_filter]
    refine congrArg _ (congrArg (List.find? · partners) (funext fun p ↦ decide_eq_decide.2 ?_))
    rw [decide_eq_true_iff, decide_eq_true_iff]
    refine and_iff_right_of_imp fun hp' hp ↦ hr ?_
    obtain ⟨htask, hsome, hturn⟩ := hp.same hp'
    rwa [h r List.mem_cons_self r' (List.mem_cons_of_mem _ hr') hsome htask hturn]

def partnerOf (records : List (Record J U R)) (pairs : Bool) (r : Record J U R) :
    Option (Record J U R) :=
  if pairs then records.find? (IsPartner r ·) else none

theorem savedPositions_eq (h : InGameUnique records) (hsub : rows ⊆ records) (hrows : rows.Nodup) :
    savedPositionsWithPartners records pairs rows = rows.map fun r ↦
      ⟨r, partnerOf records pairs r⟩ := by
  cases pairs with
  | false => rfl
  | true =>
    rw [savedPositionsWithPartners, if_pos rfl, takePartners_eq (h.of_subset hsub) hrows]
    refine List.map_congr_left fun r hr ↦ ?_
    rw [partnerOf, if_pos rfl, List.find?_filter]
    refine congrArg _ (congrArg (List.find? · records) (funext fun p ↦ decide_eq_decide.2 ?_))
    rw [decide_eq_true_iff, List.any_eq_true]
    exact and_iff_right_of_imp fun hp ↦ ⟨r, hr, decide_eq_true hp⟩

theorem partnerOf_eq_some (h : InGameUnique records) :
    partnerOf records pairs r = some p ↔ pairs = true ∧ p ∈ records ∧ IsPartner r p := by
  cases pairs with
  | false => simp [partnerOf]
  | true =>
    rw [partnerOf, if_pos rfl]
    constructor
    · intro hp
      have hpartner := List.find?_some hp
      exact ⟨rfl, List.mem_of_find?_eq_some hp, of_decide_eq_true hpartner⟩
    · rintro ⟨-, hp, hpartner⟩
      have hfound : (records.find? (IsPartner r ·)).isSome :=
        List.find?_isSome.2 ⟨p, hp, decide_eq_true hpartner⟩
      obtain ⟨q, hq⟩ := Option.isSome_iff_exists.1 hfound
      have hqpartner := List.find?_some hq
      replace hqpartner : IsPartner r q := of_decide_eq_true hqpartner
      rw [hq, hqpartner.unique h (List.mem_of_find?_eq_some hq) hp hpartner]

theorem leftOut_iff [DecidableEq R] : leftOut records pairs r = true ↔
    pairs = true ∧ IsSecond r ∧ ∃ p ∈ records, IsPartner r p ∧ p.rack = r.rack := by
  rw [leftOut, Bool.and_eq_true]
  refine and_congr_right fun _ ↦ ?_
  cases hturn : r.inGame with
  | none => simp [IsSecond, hturn]
  | some turn =>
    obtain ⟨game, turn⟩ := turn
    simp only [Option.any_some, decide_eq_true_iff, List.any_eq_true, IsSecond, Option.some.injEq,
      Prod.mk.injEq, IsPartner, hturn, Option.map_some]
    constructor
    · rintro ⟨hodd, p, hp, htask, hgame, hrack⟩
      refine ⟨⟨game, turn, ⟨rfl, rfl⟩, hodd⟩, p, hp, ⟨htask, by simp [hgame], ?_⟩, hrack⟩
      rw [hgame, Nat.xor_one_of_odd (Nat.odd_iff.2 hodd)]
    · rintro ⟨⟨_, _, ⟨rfl, rfl⟩, hodd⟩, p, hp, ⟨htask, -, hgame⟩, hrack⟩
      refine ⟨hodd, p, hp, htask, ?_, hrack⟩
      rw [hgame, Nat.xor_one_of_odd (Nat.odd_iff.2 hodd)]

end Partners

section Shown

variable {J U R : Type} [DecidableEq U] [DecidableEq R] {records : List (Record J U R)}
variable {r p q : Record J U R} {pairs : Bool} {job : J} {rack : Option R} {limit : ℕ}

def Searched (records : List (Record J U R)) (job : J) (rack : Option R) (r : Record J U R) :
    Prop :=
  r ∈ records ∧ r.job = job ∧ some r.rack = rack ∧ r.inGame.isSome = true

/-- What the page shows: each position but a second game's that its first game's matches, beside its
partner if the job plays pairs. -/
def Shows (records : List (Record J U R)) (pairs : Bool) (job : J) (rack : Option R)
    (s : SavedPosition J U R) : Prop :=
  Searched records job rack s.position ∧ leftOut records pairs s.position = false ∧
    ∀ p, s.partner = some p ↔ pairs = true ∧ p ∈ records ∧ IsPartner s.position p

/-- A position of the rack is on one item, as its position or as the partner of it. -/
theorem existsUnique_shows (hgame : InGameUnique records)
    (htask : ∀ r ∈ records, ∀ r' ∈ records, r.task = r'.task → r.job = r'.job)
    (hr : Searched records job rack r) :
    ∃! s, Shows records pairs job rack s ∧ (s.position = r ∨ s.partner = some r) := by
  obtain ⟨hmem, hjob, hrack, hsome⟩ := hr
  cases hleft : leftOut records pairs r with
  | true =>
    obtain ⟨hpairs, hsecond, p, hp, hpartner, hsame⟩ := leftOut_iff.1 hleft
    have hsymm := hpartner.symm hsome
    have hfirst : leftOut records pairs p = false := by
      refine Bool.eq_false_iff.2 fun h ↦ ?_
      exact (hpartner.isSecond_iff hsome).1 (leftOut_iff.1 h).2.1 hsecond
    refine ⟨⟨p, some r⟩,
      ⟨⟨⟨hp, (htask p hp r hmem hpartner.1).trans hjob, ?_, hpartner.2.1⟩, hfirst,
      fun q ↦ ⟨?_, ?_⟩⟩, .inr rfl⟩, ?_⟩
    · exact (congrArg some hsame).trans hrack
    · rintro ⟨⟩
      exact ⟨hpairs, hmem, hsymm⟩
    · rintro ⟨-, hq, hpq⟩
      exact congrArg some (hsymm.unique hgame hmem hq hpq)
    · rintro ⟨q, partner⟩ ⟨⟨⟨hq, -⟩, hshown, hqpartner⟩, rfl | rfl⟩
      · cases hleft.symm.trans hshown
      · have hqr := ((hqpartner r).1 rfl).2.2
        have hrq := hqr.symm (hqr.isSome.1 hsome)
        exact congrArg (SavedPosition.mk · (some r)) (hrq.unique hgame hq hp hpartner)
  | false =>
    refine ⟨⟨r, partnerOf records pairs r⟩, ⟨⟨⟨hmem, hjob, hrack, hsome⟩, hleft,
      fun p ↦ partnerOf_eq_some hgame⟩, .inl rfl⟩, ?_⟩
    rintro ⟨q, partner⟩ ⟨⟨⟨hq, -, hqrack, hqsome⟩, hshown, hqpartner⟩, rfl | rfl⟩
    · have : partner = partnerOf records pairs q :=
        Option.ext fun p ↦ (hqpartner p).trans (partnerOf_eq_some hgame).symm
      rw [this]
    · obtain ⟨hpairs, -, hpartner⟩ := (hqpartner r).1 rfl
      have hsame : q.rack = r.rack := Option.some_inj.1 (hqrack.trans hrack.symm)
      by_cases hsecond : IsSecond r
      · have := leftOut_iff.2 ⟨hpairs, hsecond, q, hq, hpartner.symm hqsome, hsame⟩
        cases hleft.symm.trans this
      · have hqsecond : IsSecond q := by
          by_contra h
          exact hsecond ((hpartner.isSecond_iff hqsome).2 h)
        have := leftOut_iff.2 ⟨hpairs, hqsecond, r, hmem, hpartner, hsame.symm⟩
        cases hshown.symm.trans this

variable [DecidableEq J]

/-- The positions feed. -/
theorem exact_jobPositions (h : (records.map (·.id)).Nodup) (hgame : InGameUnique records)
    (hlimit : 0 < limit) :
    Exact (jobPositions records pairs job rack limit)
      (fun s s' ↦ s'.position.id < s.position.id) (Shows records pairs job rack) := by
  cases rack with
  | none =>
    refine ⟨[], .last rfl, .nil, .nil, fun s ↦ ⟨fun hs ↦ absurd hs (List.not_mem_nil), ?_⟩⟩
    rintro ⟨⟨-, -, hrack, -⟩, -⟩
    cases hrack
  | some rack =>
    have hpage : jobPositions records pairs job (some rack) limit = fun c ↦
        (positionPage records pairs job rack limit (positionCursor c)).map fun r ↦
          ⟨r, partnerOf records pairs r⟩ := by
      funext c
      obtain ⟨hsub, hnodup⟩ := positionPage_items h
      rw [jobPositions, savedPositions_eq hgame hsub hnodup]
      rfl
    rw [hpage]
    refine (exact_map_iff (fun _ _ heq ↦ (SavedPosition.mk.inj heq).1) (fun _ _ ↦ Iff.rfl)
      fun s ↦ ⟨?_, ?_⟩).2 (exact_positionPage h hlimit)
    · rintro ⟨⟨hmem, hjob, hrack, hsome⟩, hleft, hpartner⟩
      refine ⟨s.position,
        List.mem_filter.2 ⟨hmem, decide_eq_true ⟨hjob, Option.some_inj.1 hrack, hsome,
        Bool.not_eq_true _ ▸ hleft⟩⟩, ?_⟩
      have : partnerOf records pairs s.position = s.partner :=
        Option.ext fun p ↦ (partnerOf_eq_some hgame).trans (hpartner p).symm
      rw [this]
    · rintro ⟨r, hr, rfl⟩
      obtain ⟨hmem, hr⟩ := List.mem_filter.1 hr
      obtain ⟨hjob, hrack, hsome, hleft⟩ := of_decide_eq_true hr
      exact ⟨⟨hmem, hjob, congrArg some hrack, hsome⟩, Bool.not_eq_true _ ▸ hleft,
        fun p ↦ partnerOf_eq_some hgame⟩

end Shown

end Birdtest.Routes
