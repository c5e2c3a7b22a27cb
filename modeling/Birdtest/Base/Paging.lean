import Mathlib.Data.List.Sort
import Mathlib.Order.MinMax

namespace Birdtest.Base.Paging

variable {α γ K : Type} [LinearOrder K] {key : α → K}

def orderBy (key : α → K) (rows : List α) : List α := rows.insertionSort fun a b ↦ key a ≤ key b

/-- The rows come by ascending key, no two of one key. -/
abbrev Ordered (key : α → K) (l : List α) : Prop := l.Pairwise fun a b ↦ key a < key b

theorem max?_eq_some_iff {l : List K} {k : K} : l.max? = some k ↔ k ∈ l ∧ ∀ x ∈ l, x ≤ k := by
  have : Std.MaxEqOr K := ⟨max_choice⟩
  have : Std.LawfulOrderMax K := .of_max_le_iff (fun _ _ _ ↦ max_le_iff) max_choice
  exact List.max?_eq_some_iff

section Order

variable {l l' rows rows' : List α} {x : α} {n : ℕ}

theorem perm_orderBy : (orderBy key rows).Perm rows := List.perm_insertionSort ..

@[simp] theorem mem_orderBy : x ∈ orderBy key rows ↔ x ∈ rows := perm_orderBy.mem_iff

theorem ordered_orderBy (h : (rows.map key).Nodup) : Ordered key (orderBy key rows) := by
  have : Std.Total fun a b : α ↦ key a ≤ key b := ⟨fun a b ↦ le_total _ _⟩
  have : IsTrans α fun a b ↦ key a ≤ key b := ⟨fun _ _ _ ↦ le_trans⟩
  have hle : (orderBy key rows).Pairwise fun a b ↦ key a ≤ key b :=
    List.pairwise_insertionSort (fun a b ↦ key a ≤ key b) rows
  have hne : (orderBy key rows).Pairwise fun a b ↦ key a ≠ key b :=
    List.pairwise_map.1 ((perm_orderBy.map key).nodup_iff.2 h)
  exact hle.imp₂ (fun _ _ hle hne ↦ lt_of_le_of_ne hle hne) hne

theorem Ordered.nodup (h : Ordered key l) : l.Nodup := h.imp fun hlt heq ↦ (heq ▸ hlt).false

theorem Ordered.map_nodup (h : Ordered key l) : (l.map key).Nodup :=
  List.pairwise_map.2 (h.imp ne_of_lt)

theorem Ordered.ext (h : Ordered key l) (h' : Ordered key l') (hmem : ∀ x, x ∈ l ↔ x ∈ l') :
    l = l' :=
  ((List.perm_ext_iff_of_nodup h.nodup h'.nodup).2 hmem).eq_of_pairwise
    (fun _ _ _ _ hab hba ↦ (lt_asymm hab hba).elim) h h'

theorem Ordered.orderBy_eq (h : Ordered key l) : orderBy key l = l :=
  (ordered_orderBy h.map_nodup).ext h fun _ ↦ mem_orderBy

theorem map_orderBy {β K' : Type} [LinearOrder K'] {key' : β → K'} {f : α → β}
    (h : ∀ x y, key x ≤ key y ↔ key' (f x) ≤ key' (f y)) :
    (orderBy key rows).map f = orderBy key' (rows.map f) :=
  List.map_insertionSort _ _ _ _ fun a _ b _ ↦ h a b

theorem orderBy_filter (h : (rows.map key).Nodup) (p : α → Bool) :
    orderBy key (rows.filter p) = (orderBy key rows).filter p := by
  refine (ordered_orderBy ((List.filter_sublist.map key).nodup h)).ext
    ((ordered_orderBy h).sublist List.filter_sublist) fun x ↦ ?_
  simp only [mem_orderBy, List.mem_filter]

theorem Ordered.mem_take (h : Ordered key l) :
    x ∈ l.take n ↔ x ∈ l ∧ l.countP (fun y ↦ key y < key x) < n := by
  induction l generalizing n with
  | nil => simp
  | cons a l ih =>
    obtain ⟨hfirst, hrest⟩ := List.pairwise_cons.1 h
    cases n with
    | zero => simp
    | succ n =>
      rw [List.take_succ_cons, List.mem_cons, List.mem_cons, ih hrest, List.countP_cons]
      constructor
      · rintro (rfl | ⟨hx, hlt⟩)
        · have hnone : l.countP (fun y ↦ key y < key x) = 0 :=
            List.countP_eq_zero.2 fun y hy ↦ by simpa using (hfirst y hy).le
          simp [hnone]
        · refine ⟨.inr hx, ?_⟩
          split <;> omega
      · rintro ⟨rfl | hx, hlt⟩
        · exact .inl rfl
        · rw [if_pos (decide_eq_true (hfirst x hx))] at hlt
          exact .inr ⟨hx, by omega⟩

theorem Ordered.take_eq (h : Ordered key l) (h' : Ordered key l') (hsub : ∀ x ∈ l', x ∈ l)
    (hfirst : ∀ x ∈ l.take n, x ∈ l') : l'.take n = l.take n := by
  classical
  have hsplit : l' = l.take n ++ l'.filter (· ∉ l.take n) := by
    refine h'.ext (List.pairwise_append.2 ⟨h.sublist (List.take_sublist ..),
      h'.sublist List.filter_sublist, fun x hx y hy ↦ ?_⟩) fun x ↦ ?_
    · obtain ⟨hy, hnot⟩ := List.mem_filter.1 hy
      have hdrop : y ∈ l.drop n := by
        have := hsub y hy
        rw [← List.take_append_drop n l, List.mem_append] at this
        exact this.resolve_left (of_decide_eq_true hnot)
      rw [← List.take_append_drop n l] at h
      exact (List.pairwise_append.1 h).2.2 x hx y hdrop
    · rw [List.mem_append, List.mem_filter, decide_eq_true_iff]
      constructor
      · intro hx
        by_cases hmem : x ∈ l.take n
        · exact .inl hmem
        · exact .inr ⟨hx, hmem⟩
      · rintro (hx | hx)
        · exact hfirst x hx
        · exact hx.1
  rcases le_total n l.length with hle | hle
  · rw [hsplit]
    exact List.take_left' (List.length_take_of_le hle)
  · have hrest : l'.filter (· ∉ l.take n) = [] := by
      refine List.filter_eq_nil_iff.2 fun x hx hnot ↦ of_decide_eq_true hnot ?_
      rw [List.take_of_length_le hle]
      exact hsub x hx
    rw [hsplit, hrest, List.append_nil, List.take_take, min_self]

/-- Two parts of the rows, each cut off on its own, hold the first `n` of the whole. -/
theorem take_orderBy_append (h : ((rows ++ rows').map key).Nodup) :
    (orderBy key ((orderBy key rows).take n ++ (orderBy key rows').take n)).take n =
      (orderBy key (rows ++ rows')).take n := by
  have hrows : (rows.map key).Nodup := ((List.sublist_append_left ..).map key).nodup h
  have hrows' : (rows'.map key).Nodup := ((List.sublist_append_right ..).map key).nodup h
  have hperm : (orderBy key rows ++ orderBy key rows').Perm (rows ++ rows') :=
    perm_orderBy.append perm_orderBy
  have hcut : ((orderBy key rows).take n ++ (orderBy key rows').take n).Sublist
      (orderBy key rows ++ orderBy key rows') :=
    (List.take_sublist ..).append (List.take_sublist ..)
  have hnodup := (hcut.map key).nodup ((hperm.map key).nodup_iff.2 h)
  refine (ordered_orderBy h).take_eq (ordered_orderBy hnodup)
    (fun x hx ↦ mem_orderBy.2 (hperm.subset (hcut.subset (mem_orderBy.1 hx)))) fun x hx ↦ ?_
  obtain ⟨hx, hcount⟩ := (ordered_orderBy h).mem_take.1 hx
  rw [perm_orderBy.countP_eq, List.countP_append] at hcount
  rw [mem_orderBy, List.mem_append, (ordered_orderBy hrows).mem_take,
    (ordered_orderBy hrows').mem_take, mem_orderBy, mem_orderBy, perm_orderBy.countP_eq,
    perm_orderBy.countP_eq]
  rcases List.mem_append.1 (mem_orderBy.1 hx) with hx | hx
  · exact .inl ⟨hx, by omega⟩
  · exact .inr ⟨hx, by omega⟩

end Order

structure Page (α γ : Type) where
  items : List α
  nextCursor : Option γ

def Page.map {β : Type} (f : α → β) (page : Page α γ) : Page β γ :=
  ⟨page.items.map f, page.nextCursor⟩

/-- Asking for pages from a cursor on, until one comes with none, gives these rows in all. -/
inductive Follows (fetch : Option γ → Page α γ) : Option γ → List α → Prop
  | last {c : Option γ} (h : (fetch c).nextCursor = none) : Follows fetch c (fetch c).items
  | next {c : Option γ} {c' : γ} {rest : List α} (h : (fetch c).nextCursor = some c')
      (hrest : Follows fetch (some c') rest) : Follows fetch c ((fetch c).items ++ rest)

section Follow

variable {fetch : Option γ → Page α γ} {c : Option γ} {l l' feed rest : List α} {limit : ℕ}
variable {encode : α → γ} {page : Page α γ}

theorem Follows.unique (h : Follows fetch c l) (h' : Follows fetch c l') : l = l' := by
  induction h generalizing l' with
  | last h =>
    cases h' with
    | last => rfl
    | next h₁ => cases h.symm.trans h₁
  | next h _ ih =>
    cases h' with
    | last h₁ => cases h.symm.trans h₁
    | next h₁ hrest =>
      cases h.symm.trans h₁
      rw [ih hrest]

theorem Follows.map {β : Type} (f : α → β) (h : Follows fetch c l) :
    Follows (fun c ↦ (fetch c).map f) c (l.map f) := by
  induction h with
  | last h => exact .last h
  | next h _ ih =>
    rw [List.map_append]
    exact .next h ih

theorem Follows.of_map {β : Type} {f : α → β} {l' : List β}
    (h : Follows (fun c ↦ (fetch c).map f) c l') : ∃ l, Follows fetch c l ∧ l' = l.map f := by
  induction h with
  | last h => exact ⟨_, .last h, rfl⟩
  | next h _ ih =>
    obtain ⟨rest, hrest, rfl⟩ := ih
    exact ⟨_, .next h hrest, (List.map_append ..).symm⟩

/-- The page is the first `limit` rows of `rest`, with a cursor for its last row wherever `rest` has
more than them; where it has not, a cursor or none. -/
structure Cuts (limit : ℕ) (encode : α → γ) (rest : List α) (page : Page α γ) : Prop where
  items : page.items = rest.take limit
  ended : page.nextCursor = none → rest.length ≤ limit
  cursor : ∀ c ∈ page.nextCursor, ∃ x, (rest.take limit).getLast? = some x ∧ c = encode x

theorem cuts_full (hlimit : 0 < limit) : Cuts limit encode rest ⟨rest.take limit,
    if (rest.take limit).length = limit then (rest.take limit).getLast?.map encode else none⟩ where
  items := rfl
  ended h := by
    by_contra hlong
    have hlength : (rest.take limit).length = limit := List.length_take_of_le (by omega)
    rw [if_pos hlength, Option.map_eq_none_iff, List.getLast?_eq_none_iff] at h
    rw [h, List.length_nil] at hlength
    omega
  cursor c hc := by
    obtain ⟨-, hc⟩ := Option.ite_none_right_eq_some.1 hc
    obtain ⟨x, hx, rfl⟩ := Option.map_eq_some_iff.1 hc
    exact ⟨x, hx, rfl⟩

theorem cuts_more (hlimit : 0 < limit) : Cuts limit encode rest ⟨(rest.take (limit + 1)).take limit,
    if limit < (rest.take (limit + 1)).length then
      ((rest.take (limit + 1)).take limit).getLast?.map encode
    else none⟩ := by
  have htake : (rest.take (limit + 1)).take limit = rest.take limit := by
    rw [List.take_take, Nat.min_eq_left (Nat.le_succ limit)]
  rw [htake]
  refine ⟨rfl, fun h ↦ ?_, fun c hc ↦ ?_⟩
  · by_contra hlong
    have hmore : limit < (rest.take (limit + 1)).length := by
      rw [List.length_take_of_le (by omega)]
      exact Nat.lt_succ_self limit
    have hlength : (rest.take limit).length = limit := List.length_take_of_le (by omega)
    rw [if_pos hmore, Option.map_eq_none_iff, List.getLast?_eq_none_iff] at h
    rw [h, List.length_nil] at hlength
    omega
  · obtain ⟨-, hc⟩ := Option.ite_none_right_eq_some.1 hc
    obtain ⟨x, hx, rfl⟩ := Option.map_eq_some_iff.1 hc
    exact ⟨x, hx, rfl⟩

theorem Ordered.filter_lt {pre : List α} {x : α} (h : Ordered key (pre ++ x :: rest)) :
    (pre ++ x :: rest).filter (fun y ↦ key x < key y) = rest := by
  obtain ⟨-, htail, hcross⟩ := List.pairwise_append.1 h
  have hpre : pre.filter (fun y ↦ key x < key y) = [] :=
    List.filter_eq_nil_iff.2 fun y hy ↦ by simpa using (hcross y hy x List.mem_cons_self).le
  have hrest : rest.filter (fun y ↦ key x < key y) = rest :=
    List.filter_eq_self.2 fun y hy ↦ decide_eq_true ((List.pairwise_cons.1 htail).1 y hy)
  rw [List.filter_append, hpre, List.filter_cons_of_neg (by simp), hrest, List.nil_append]

theorem Ordered.filter_lt_getElem {x : α} {n : ℕ} (h : Ordered key feed) (hx : feed[n]? = some x) :
    feed.filter (fun y ↦ key x < key y) = feed.drop (n + 1) := by
  obtain ⟨hn, rfl⟩ := List.getElem?_eq_some_iff.1 hx
  have hsplit : feed = feed.take n ++ feed[n] :: feed.drop (n + 1) := by
    rw [← List.drop_eq_getElem_cons hn, List.take_append_drop]
  have hparts : Ordered key (feed.take n ++ feed[n] :: feed.drop (n + 1)) := hsplit ▸ h
  have hfilter := hparts.filter_lt
  rwa [← hsplit] at hfilter

/-- Pages that each cut off the rows past the cursor's give the feed, once and in order. -/
theorem follows_feed (hfeed : Ordered key feed)
    (hfirst : Cuts limit encode feed (fetch none))
    (hnext : ∀ x ∈ feed, Cuts limit encode (feed.filter fun y ↦ key x < key y)
      (fetch (some (encode x)))) : Follows fetch none feed := by
  suffices ∀ n pre rest c, rest.length ≤ n → feed = pre ++ rest →
      Cuts limit encode rest (fetch c) → Follows fetch c rest from
    this feed.length [] feed none le_rfl rfl hfirst
  intro n
  induction n with
  | zero =>
    intro pre rest c hlength _ hcuts
    cases List.eq_nil_of_length_eq_zero (Nat.le_zero.1 hlength)
    have hnone : (fetch c).nextCursor = none := by
      cases hcursor : (fetch c).nextCursor with
      | none => rfl
      | some c' =>
        obtain ⟨x, hx, -⟩ := hcuts.cursor c' hcursor
        simp at hx
    have := Follows.last hnone
    rwa [hcuts.items, List.take_nil] at this
  | succ n ih =>
    intro pre rest c hlength hsplit hcuts
    cases hcursor : (fetch c).nextCursor with
    | none =>
      have := Follows.last hcursor
      rwa [hcuts.items, List.take_of_length_le (hcuts.ended hcursor)] at this
    | some c' =>
      obtain ⟨x, hx, rfl⟩ := hcuts.cursor c' hcursor
      obtain ⟨shown, hshown⟩ := List.getLast?_eq_some_iff.1 hx
      have hparts := List.take_append_drop limit rest
      rw [hshown] at hparts
      have hwhole : feed = pre ++ shown ++ x :: rest.drop limit :=
        calc feed = pre ++ rest := hsplit
          _ = pre ++ (shown ++ [x] ++ rest.drop limit) := by rw [hparts]
          _ = pre ++ shown ++ x :: rest.drop limit := by simp
      have hfilter : (feed.filter fun y ↦ key x < key y) = rest.drop limit := by
        rw [hwhole] at hfeed ⊢
        exact hfeed.filter_lt
      have hmem : x ∈ feed := by
        rw [hwhole]
        exact List.mem_append_right _ List.mem_cons_self
      have hlast : (rest.drop limit).length ≤ n := by
        have := congrArg List.length hparts
        simp only [List.length_append, List.length_singleton] at this
        omega
      have hfollow := ih (pre ++ shown ++ [x]) (rest.drop limit) _ hlast (by simp [hwhole])
        (hfilter ▸ hnext x hmem)
      have := Follows.next hcursor hfollow
      rwa [hcuts.items, List.take_append_drop] at this

def fullPage (limit : ℕ) (encode : α → γ) (rest : List α) : Page α γ :=
  ⟨rest.take limit,
    if (rest.take limit).length = limit then (rest.take limit).getLast?.map encode else none⟩

def EndsPage (limit : ℕ) (feed : List α) (x : α) : Prop :=
  ∃ k, feed[k * limit + (limit - 1)]? = some x

theorem fullPage_next {x : α} (hlimit : 0 < limit) (hx : rest[limit - 1]? = some x) :
    (fullPage limit encode rest).nextCursor = some (encode x) := by
  have hlong : limit - 1 < rest.length := (List.getElem?_eq_some_iff.1 hx).1
  have hlength : (rest.take limit).length = limit := List.length_take_of_le (by omega)
  rw [fullPage, if_pos hlength, List.getLast?_eq_getElem?, hlength,
    List.getElem?_take_of_lt (by omega), hx, Option.map_some]

theorem fullPage_last (hshort : rest[limit - 1]? = none) (hlimit : 0 < limit) :
    (fullPage limit encode rest).nextCursor = none ∧ rest.take limit = rest := by
  have hlength : rest.length < limit := by
    have := List.getElem?_eq_none_iff.1 hshort
    omega
  have htake : rest.take limit = rest := List.take_of_length_le hlength.le
  exact ⟨by rw [fullPage, htake, if_neg hlength.ne], htake⟩

theorem Follows.congr {c' : Option γ} (h : Follows fetch c l) (hc : fetch c' = fetch c) :
    Follows fetch c' l := by
  cases h with
  | last h => exact hc ▸ Follows.last (hc ▸ h)
  | next h hrest => exact hc ▸ Follows.next (hc ▸ h) hrest

section FullPages

variable {readsBack : α → Prop} [DecidablePred readsBack]

/-- Page after page is read, as far as the cursors lead on. -/
theorem follows_fullPage (hlimit : 0 < limit)
    (hnext : ∀ k x, feed[k * limit + (limit - 1)]? = some x →
      fetch (some (encode x)) = if readsBack x then
        fullPage limit encode (feed.drop ((k + 1) * limit)) else fetch none)
    (hends : ∀ x, EndsPage limit feed x → readsBack x) {k : ℕ}
    (hc : fetch c = fullPage limit encode (feed.drop (k * limit))) :
    Follows fetch c (feed.drop (k * limit)) := by
  induction hn : feed.length - k * limit using Nat.strong_induction_on generalizing k c with
  | _ n ih =>
    cases hx : (feed.drop (k * limit))[limit - 1]? with
    | none =>
      obtain ⟨hlast, htake⟩ :
          (fullPage limit encode (feed.drop (k * limit))).nextCursor = none ∧ _ :=
        fullPage_last hx hlimit
      have := Follows.last (hc ▸ hlast)
      rwa [hc, fullPage, htake] at this
    | some x =>
      rw [List.getElem?_drop] at hx
      have hrest := hnext k x hx
      rw [if_pos (hends x ⟨k, hx⟩)] at hrest
      have hlong := (List.getElem?_eq_some_iff.1 hx).1
      have hless : feed.length - (k + 1) * limit < n := by
        rw [Nat.succ_mul]
        omega
      have hfollow := ih _ hless hrest rfl
      have hcursor : (fetch c).nextCursor = some (encode x) :=
        hc ▸ fullPage_next hlimit (List.getElem?_drop.trans hx)
      have := Follows.next hcursor hfollow
      rwa [hc, fullPage, Nat.succ_mul, ← List.drop_drop, List.take_append_drop] at this

theorem Follows.goOn {x : α} (h : Follows fetch c l) (hlimit : 0 < limit)
    (hc : fetch c = fullPage limit encode rest) (hx : rest[limit - 1]? = some x) :
    ∃ l', Follows fetch (some (encode x)) l' ∧ l.length = limit + l'.length := by
  have hcursor : (fetch c).nextCursor = some (encode x) := hc ▸ fullPage_next hlimit hx
  cases h with
  | last h => cases h.symm.trans hcursor
  | @next _ _ l' h hrest =>
    cases h.symm.trans hcursor
    refine ⟨l', hrest, ?_⟩
    have hlong := (List.getElem?_eq_some_iff.1 hx).1
    have hlength : (rest.take limit).length = limit := List.length_take_of_le (by omega)
    rw [List.length_append, hc, fullPage, hlength]

/-- A cursor that does not read back leads to the first page again, and on from there for ever. -/
theorem readsBack_of_follows (hlimit : 0 < limit) (hfirst : fetch none = fullPage limit encode feed)
    (hnext : ∀ k x, feed[k * limit + (limit - 1)]? = some x →
      fetch (some (encode x)) = if readsBack x then
        fullPage limit encode (feed.drop ((k + 1) * limit)) else fetch none)
    (h : Follows fetch none l) {k : ℕ} {x : α}
    (hx : feed[k * limit + (limit - 1)]? = some x) : readsBack x := by
  induction k using Nat.strong_induction_on generalizing x with
  | _ k ih =>
    have hreach (m : ℕ) (hm : m ≤ k) : ∃ c l', fetch c = fullPage limit encode
        (feed.drop (m * limit)) ∧ Follows fetch c l' ∧ l.length = m * limit + l'.length := by
      induction m with
      | zero => exact ⟨none, l, by rw [hfirst, Nat.zero_mul, List.drop_zero], h, by omega⟩
      | succ m ihm =>
        obtain ⟨c, l', hc, hl', hlength⟩ := ihm (by omega)
        have hlong := (List.getElem?_eq_some_iff.1 hx).1
        have hle : (m + 1) * limit ≤ k * limit := Nat.mul_le_mul_right _ hm
        rw [Nat.succ_mul] at hle
        obtain ⟨y, hy⟩ : ∃ y, feed[m * limit + (limit - 1)]? = some y :=
          ⟨_, List.getElem?_eq_getElem (by omega)⟩
        have hrest := hnext m y hy
        rw [if_pos (ih m (by omega) hy)] at hrest
        obtain ⟨l'', hl'', hlength'⟩ := hl'.goOn hlimit hc (List.getElem?_drop.trans hy)
        exact ⟨_, l'', hrest, hl'', by rw [hlength, hlength', Nat.succ_mul]; omega⟩
    obtain ⟨c, l', hc, hl', hlength⟩ := hreach k le_rfl
    obtain ⟨l'', hl'', hlength'⟩ := hl'.goOn hlimit hc (List.getElem?_drop.trans hx)
    by_contra hlost
    have hagain := hnext k x hx
    rw [if_neg hlost] at hagain
    have hsame : l'' = l := (hl''.congr hagain.symm).unique h
    rw [hsame] at hlength'
    omega

end FullPages

/-- Following the pages from the first gives what is selected, each once and in order. -/
def Exact (fetch : Option γ → Page α γ) (before : α → α → Prop) (selected : α → Prop) : Prop :=
  ∃ feed, Follows fetch none feed ∧ feed.Pairwise before ∧ feed.Nodup ∧ ∀ x, x ∈ feed ↔ selected x

variable {before : α → α → Prop} {selected : α → Prop}

theorem exact_feed (hfeed : Ordered key feed)
    (hfirst : Cuts limit encode feed (fetch none))
    (hnext : ∀ x ∈ feed, Cuts limit encode (feed.filter fun y ↦ key x < key y)
      (fetch (some (encode x))))
    (hbefore : ∀ x y, key x < key y → before x y) (hselected : ∀ x, x ∈ feed ↔ selected x) :
    Exact fetch before selected :=
  ⟨feed, follows_feed hfeed hfirst hnext, hfeed.imp fun h ↦ hbefore _ _ h, hfeed.nodup, hselected⟩

theorem exact_map_iff {β : Type} {before' : β → β → Prop} {selected' : β → Prop} {f : α → β}
    (hf : f.Injective) (hbefore : ∀ x y, before' (f x) (f y) ↔ before x y)
    (hselected : ∀ y, selected' y ↔ ∃ x, selected x ∧ f x = y) :
    Exact (fun c ↦ (fetch c).map f) before' selected' ↔ Exact fetch before selected := by
  constructor
  · rintro ⟨feed', hfollows, horder, hnodup, hmem⟩
    obtain ⟨feed, hunmapped, rfl⟩ := hfollows.of_map
    refine ⟨feed, hunmapped, (List.pairwise_map.1 horder).imp fun h ↦ (hbefore _ _).1 h,
      hnodup.of_map f, fun x ↦ ?_⟩
    have hx := hmem (f x)
    rw [List.mem_map_of_injective hf, hselected] at hx
    exact hx.trans ⟨fun ⟨y, hy, heq⟩ ↦ hf heq ▸ hy, fun hx ↦ ⟨x, hx, rfl⟩⟩
  · rintro ⟨feed, hfollows, horder, hnodup, hmem⟩
    refine ⟨feed.map f, hfollows.map f, List.pairwise_map.2 (horder.imp fun h ↦ (hbefore _ _).2 h),
      hnodup.map hf, fun y ↦ ?_⟩
    simp only [List.mem_map, hselected, hmem]

end Follow

end Birdtest.Base.Paging
