import Birdtest.Auth.Changes

namespace Birdtest.Auth

open Birdtest.Base.Crowd Birdtest.Base.Runs Birdtest.Base.Tables
open Birdtest.Jobs.Racks (Text)

section Holds

variable {texts : Texts} {s t : State} {p : Stage} {db : Database} {drawn u : ℕ}
  {event : Option Event}

theorem found_cons {token other : ℕ} {e : Event} {log : List Event} : Found token other (e :: log) ↔
    Found token other log ∨ ∃ user expires, e = .spending token user ∧
    .made other user expires ∈ log := by
  unfold Found
  constructor
  · rintro ⟨user, expires, h⟩
    rcases List.sublist_cons_iff.1 h with h | ⟨r, hr, h⟩
    · exact .inl ⟨user, expires, h⟩
    · cases hr
      exact .inr ⟨user, expires, rfl, List.singleton_sublist.1 h⟩
  · rintro (⟨user, expires, h⟩ | ⟨user, expires, rfl, h⟩)
    · exact ⟨user, expires, h.cons e⟩
    · exact ⟨user, expires, (List.singleton_sublist.2 h).cons_cons _⟩

theorem Inv.not_found {token k : ℕ} {row : Code} (h : Inv s)
    (hspending : ∀ token, event ≠ some (.spending token u)) (hrow : s.db.resets.get k = some row)
    (hu : row.user = u) (hnot : ¬Found token k s.log) : ¬Found token k (event.toList ++ s.log) := by
  cases event with
  | none => exact hnot
  | some e =>
    rw [Option.toList_some, List.singleton_append, found_cons]
    rintro (hfound | ⟨user, expires, rfl, hmade⟩)
    · exact hnot hfound
    · have huser := h.user_of_made hrow hmade
      exact hspending token (by rw [← hu, huser])

theorem Found.made {token k : ℕ} {log : List Event} (h : Found token k log) :
    ∃ user expires, .made k user expires ∈ log := by
  obtain ⟨user, expires, h⟩ := h
  exact ⟨user, expires, h.subset (by simp)⟩

theorem lt_of_found {token k : ℕ} (h : Inv s) (hfound : Found token k (event.toList ++ s.log)) :
    k < s.drawn := by
  have hmade : ∃ user expires, .made k user expires ∈ s.log := by
    cases event with
    | none => exact hfound.made
    | some e =>
      rw [Option.toList_some, List.singleton_append, found_cons] at hfound
      exact hfound.elim Found.made fun ⟨user, expires, _, hmade⟩ ↦ ⟨user, expires, hmade⟩
  obtain ⟨user, expires, hmade⟩ := hmade
  exact h.log_lt _ hmade k (by simp [Event.ids])

theorem present_congr (h : t.db.users.get u = s.db.users.get u) :
    t.db.present u = s.db.present u := by
  rw [Database.present, Database.present, h]

variable {exclusive : Bool}

theorem Database.Redeems.frame {token began : ℕ} (h : s.db.Redeems token began u)
    (hmine : Untouched s t.db event u exclusive) : t.db.Redeems token began u where
  present := by
    rw [present_congr hmine.user]
    exact h.present
  unspent := by
    obtain ⟨row, hrow, huser, hrest⟩ := h.unspent
    exact ⟨row, hmine.resets_of token row hrow huser, huser, hrest⟩

theorem Clears.frame {keys codes resets : List ℕ} (h : Clears s.db s.log u keys codes resets)
    (hlog : t.log = event.toList ++ s.log) (hmine : Untouched s t.db event u true) :
    Clears t.db t.log u keys codes resets where
  mem_keys k row hrow huser := by
    obtain ⟨old, hold, hu⟩ := hmine.keys k row hrow huser
    exact h.mem_keys k old hold hu
  mem_codes k row hrow huser := by
    obtain ⟨old, hold, hu⟩ := hmine.codes k row hrow huser
    exact h.mem_codes k old hold hu
  mem_resets k row hrow huser := by
    rcases hmine.of_resets k row hrow huser with hold | ⟨hfalse, -⟩
    · exact h.mem_resets k row hold huser
    · cases hfalse
  own k hk := by
    obtain ⟨expires, hmade⟩ := h.own k hk
    exact ⟨expires, by simp [hlog, hmade]⟩

theorem Holds.frame (h : Inv s) (hch : Changes s t.db t.drawn event) (hnow : s.now ≤ t.now)
    (hlog : t.log = event.toList ++ s.log) (hp : Holds s p)
    (hmine : ∀ u, p.account = some u → Untouched s t.db event u p.exclusive) : Holds t p := by
  have hmem {e : Event} (he : e ∈ s.log) : e ∈ t.log := by
    rw [hlog]
    exact List.mem_append_right _ he
  cases p with
  | releasing r began found =>
    refine ⟨hp.1.trans hnow, fun u hu ↦
      ⟨(hp.2 u hu).1.trans_le hch.drawn_le, fun k row hrow huser hnone ↦ ?_⟩⟩
    obtain ⟨hlt, hexpired⟩ := hp.2 u hu
    rcases hch.codes k row hrow with ⟨old, hold, hages⟩ | ⟨-, hnew⟩
    · rw [hages.expiresAt]
      refine hexpired k old hold (hages.user.symm.trans huser) ?_
      by_contra hused
      exact hages.usedAt hused hnone
    · omega
  | redeemed code began locked user => exact hmem hp
  | confirmed code began user => exact hmem hp
  | lockedReset token passwordHash began user =>
    obtain ⟨hpresent, expires, hmade⟩ := hp
    refine ⟨?_, expires, hmem hmade⟩
    rwa [present_congr (hmine user rfl).user]
  | redeemedReset token passwordHash began locked user =>
    obtain ⟨rfl, hredeems⟩ := hp
    exact ⟨rfl, hredeems.frame (hmine _ rfl)⟩
  | changedReset token passwordHash began user => exact Database.Redeems.frame hp (hmine user rfl)
  | spentReset token passwordHash began user spent =>
    have hmine := hmine user rfl
    obtain ⟨hredeems, hspent, hnot⟩ := hp
    refine ⟨hredeems.frame hmine, fun k hk ↦ ?_, fun k row hrow huser hnone hk ↦ ?_⟩
    · obtain ⟨expires, hmade⟩ := hspent k hk
      exact ⟨expires, hmem hmade⟩
    · rw [hlog]
      rcases hmine.of_resets k row hrow huser with hold | ⟨-, hle⟩
      · exact h.not_found hmine.spending hold huser (hnot k row hold huser hnone hk)
      · exact fun hfound ↦ absurd (lt_of_found h hfound) (by omega)
  | lockedKeys user =>
    simp only [Holds] at hp ⊢
    rwa [present_congr (hmine user rfl).user]
  | countedKeys user | createdKey user =>
    refine ⟨?_, (hmine user rfl).count.trans_lt hp.2⟩
    rw [present_congr (hmine user rfl).user]
    exact hp.1
  | unkeyed user began keys =>
    intro k row hrow huser
    obtain ⟨old, hold, hu⟩ := (hmine user rfl).keys k row hrow huser
    exact hp k old hold hu
  | uncoded user began keys codes =>
    refine ⟨fun k row hrow huser ↦ ?_, fun k row hrow huser ↦ ?_⟩
    · obtain ⟨old, hold, hu⟩ := (hmine user rfl).keys k row hrow huser
      exact hp.1 k old hold hu
    · obtain ⟨old, hold, hu⟩ := (hmine user rfl).codes k row hrow huser
      exact hp.2 k old hold hu
  | unreset user began keys codes resets => exact Clears.frame hp hlog (hmine user rfl)
  | anonymised user began keys codes resets name =>
    refine ⟨?_, hp.2.frame hlog (hmine user rfl)⟩
    rw [present_congr (hmine user rfl).user]
    exact hp.1
  | _ => trivial

section Advance

variable {others crowd : Multiset Stage} {sessions : List Issued} {o : Outcome} {q : Stage}

theorem mem_stale {lower : Text → Text} {now k : ℕ} {r : Registration}
    (hu : u ∈ db.stale lower now r) :
    (∃ row, db.users.get u = some row ∧ row.givesWay lower r = true) ∧
      ∀ row, db.confirmations.get k = some row → row.user = u → row.usedAt = none →
      row.expiresAt ≤ now := by
  obtain ⟨⟨v, row⟩, hmem, rfl⟩ := List.mem_map.1 hu
  rw [List.mem_filter, Table.mem_rows, Bool.and_eq_true, Bool.not_eq_true'] at hmem
  obtain ⟨hrow, hgives, hnot⟩ := hmem
  refine ⟨⟨row, hrow, hgives⟩, fun code hcode huser hnone ↦ ?_⟩
  simp only [Database.hasLiveCode, List.any_eq_false, decide_eq_true_eq] at hnot
  have hlive := hnot (k, code) (Table.mem_rows.2 hcode)
  simp only [Code.live, huser, hnone, true_and, decide_eq_true_eq] at hlive
  exact Nat.le_of_not_lt hlive

theorem Inv.redeems_of_live {token began : ℕ} {row : Code} {expires : ℕ} (h : Inv s)
    (hpresent : (s.db.present u).isSome) (hmade : .made token u expires ∈ s.log)
    (hrow : s.db.resets.get token = some row) (hlive : row.live began = true) :
    u = row.user ∧ s.db.Redeems token began row.user := by
  have huser := h.user_of_made hrow hmade
  simp only [Code.live, decide_eq_true_eq] at hlive
  subst huser
  exact ⟨rfl, hpresent, row, hrow, rfl, hlive⟩

theorem Inv.made_of_mem {k : ℕ} (h : Inv s) {row : Code} (hrow : s.db.resets.get k = some row)
    (hu : row.user = u) (events : List Event) : ∃ expires, .made k u expires ∈ events ++ s.log := by
  have hmade := h.made k row hrow
  rw [hu] at hmade
  exact ⟨row.expiresAt, List.mem_append_right _ hmade⟩

/-- A request's statement makes sure of what the ones after it rest on. -/
theorem holds_of_advance (h : Inv s) (hp : Holds s p) (hadv : advance texts s others p = some o)
    (hq : o.stage = some q) :
    Holds ⟨s.now, o.drawn, o.db, crowd, sessions, o.event.toList ++ s.log⟩ q := by
  cases goes_of_advance hadv hq with
  | registering =>
    cases hq
    refine ⟨Nat.le_refl _, fun u hu ↦ ⟨?_, fun k ↦ (mem_stale hu).2⟩⟩
    obtain ⟨⟨row, hrow, -⟩, -⟩ := mem_stale (k := 0) hu
    exact h.users_lt u row hrow
  | redeeming hrow =>
    cases hq
    exact h.registered _ _ hrow
  | redeemed =>
    cases hq
    exact hp
  | @lockingReset token began passwordHash row hrow hpresent =>
    cases hq
    exact ⟨hpresent, row.expiresAt, h.made token row hrow⟩
  | lockedReset hrow hlive =>
    cases hq
    obtain ⟨hpresent, expires, hmade⟩ := hp
    exact h.redeems_of_live hpresent hmade hrow hlive
  | redeemedReset =>
    cases hq
    exact hp.2
  | @changedReset token began user passwordHash =>
    cases hq
    refine ⟨hp, fun k hk ↦ ?_, fun k row hrow huser hnone hk ↦ absurd ?_ hk⟩
    · obtain ⟨row, hrow, huser, -⟩ := mem_unspentOf.1 (List.mem_of_mem_filter hk)
      exact h.made_of_mem hrow huser _
    · by_cases heq : k = token
      · exact List.mem_cons.2 (.inl heq)
      · refine List.mem_cons_of_mem _ (List.mem_filter.2 ⟨?_, decide_eq_true heq⟩)
        exact mem_unspentOf.2 ⟨row, hrow, huser, hnone⟩
  | creatingKey hpresent =>
    cases hq
    exact hpresent
  | lockedKeys hlt =>
    cases hq
    exact ⟨hp, hlt⟩
  | countedKeys =>
    cases hq
    exact hp
  | lockedDelete =>
    cases hq
    exact fun k row hrow huser ↦ mem_keysOf.2 ⟨row, hrow, huser⟩
  | unkeyed =>
    cases hq
    exact ⟨hp, fun k row hrow huser ↦ mem_codesOf.2 ⟨row, hrow, huser⟩⟩
  | uncoded =>
    cases hq
    refine ⟨hp.1, hp.2, fun k row hrow huser ↦ mem_resetsOf.2 ⟨row, hrow, huser⟩, fun k hk ↦ ?_⟩
    obtain ⟨row, hrow, huser⟩ := mem_resetsOf.1 hk
    exact h.made_of_mem hrow huser _
  | unreset hpresent =>
    cases hq
    exact ⟨hpresent, hp⟩
  | _ =>
    cases hq
    trivial

theorem Inv.lt_of_present (h : Inv s) (hpresent : (s.db.present u).isSome) : u < s.drawn := by
  obtain ⟨row, hrow⟩ := Option.isSome_iff_exists.1 hpresent
  exact h.users_lt u row (present_eq_some.1 hrow).1

theorem Inv.lt_of_isSome (h : Inv s) (hsome : (s.db.users.get u).isSome) : u < s.drawn := by
  obtain ⟨row, hrow⟩ := Option.isSome_iff_exists.1 hsome
  exact h.users_lt u row hrow

theorem Inv.lt_of_registered {code : ℕ} (h : Inv s) (hmem : .registered u code ∈ s.log) :
    u < s.drawn :=
  h.log_lt _ hmem u (by simp [Event.ids])

theorem account_of_advance (h : Inv s) (hp : Holds s p) (hadv : advance texts s others p = some o)
    (hq : o.stage = some q) (hu : q.account = some u) :
    p.account = some u ∨ FreeAccount others u ∧ u < s.drawn := by
  cases goes_of_advance hadv hq with
  | confirming hrow hfree =>
    cases hq
    cases hu
    exact .inr ⟨hfree, h.lt_of_registered (h.registered _ _ hrow)⟩
  | redeemed hfree =>
    cases hq
    cases hu
    exact .inr ⟨hfree, h.lt_of_registered hp⟩
  | lockingReset hrow hpresent hfree =>
    cases hq
    cases hu
    exact .inr ⟨hfree, h.lt_of_present hpresent⟩
  | redeemedReset =>
    obtain ⟨rfl, -⟩ := hp
    cases hq
    exact .inl hu
  | signingOut hsome hfree | deleting hsome hfree =>
    cases hq
    cases hu
    exact .inr ⟨hfree, h.lt_of_isSome hsome⟩
  | creatingKey hpresent hfree =>
    cases hq
    cases hu
    exact .inr ⟨hfree, h.lt_of_present hpresent⟩
  | _ =>
    cases hq
    exact .inl hu

end Advance

end Holds

section Next

variable {texts : Texts} {s t : State} {event : Option Event} {u : ℕ}

theorem Inv.token_lt {token began : ℕ} (h : Inv s) (hredeems : s.db.Redeems token began u) :
    token < s.drawn ∧ u < s.drawn := by
  obtain ⟨row, hrow, -⟩ := hredeems.unspent
  exact ⟨h.log_lt _ (h.made token row hrow) token (by simp [Event.ids]),
    h.lt_of_present hredeems.present⟩

theorem Event.Fits.ids_lt {e : Event} (h : Inv s) (hdrawn : s.drawn ≤ t.drawn)
    (hfits : e.Fits s t.db t.drawn) : ∀ i ∈ e.ids, i < t.drawn := by
  cases e with
  | registered user code =>
    obtain ⟨rfl, rfl, hdrawn⟩ := hfits
    simp only [Event.ids, List.mem_cons, List.not_mem_nil, or_false]
    omega
  | confirmed user code => exact fun i hi ↦ (h.log_lt _ hfits i hi).trans_le hdrawn
  | made token user expires =>
    obtain ⟨rfl, hdrawn, hpresent⟩ := hfits
    have hlt := h.lt_of_present hpresent
    simp only [Event.ids, List.mem_cons, List.not_mem_nil, or_false]
    omega
  | spending token user =>
    obtain ⟨began, hredeems⟩ := hfits
    have hlt := h.token_lt hredeems
    simp only [Event.ids, List.mem_cons, List.not_mem_nil, or_false]
    omega
  | changed token user began time =>
    have hlt := h.token_lt hfits.1
    simp only [Event.ids, List.mem_cons, List.not_mem_nil, or_false]
    omega
  | signedOut user | deleted user =>
    have hlt : user < s.drawn := hfits
    simp only [Event.ids, List.mem_cons, List.not_mem_nil, or_false]
    omega

theorem mem_log {e : Event} (hlog : t.log = event.toList ++ s.log) :
    e ∈ t.log ↔ event = some e ∨ e ∈ s.log := by
  rw [hlog, List.mem_append, Option.mem_toList]

theorem Inv.clears_changes {row : User} (h : Inv s) (hch : Changes s t.db t.drawn event)
    (hrow : t.db.users.get u = some row) (hdeleted : row.deletedAt ≠ none) :
    Clears t.db t.log u [] [] [] := by
  rcases hch.users u row hrow with ⟨old, hold, hchanges⟩ | ⟨-, -, -, -, hnone, -⟩
  · have hcases : old.deletedAt ≠ none ∨ event = some (.deleted u) := by
      by_contra! hnot
      exact hdeleted (hchanges.deletedAt.2 ⟨hnot.1, hnot.2⟩)
    rcases hcases with hgone | rfl
    · have hclears := h.gone u old hold hgone
      have habsent {v : ℕ} (hpresent : (s.db.present v).isSome) : v ≠ u := by
        rintro rfl
        obtain ⟨row, hpresent⟩ := Option.isSome_iff_exists.1 hpresent
        rw [present_eq_some, hold, Option.some.injEq] at hpresent
        obtain ⟨rfl, hnone⟩ := hpresent
        exact hgone hnone
      refine ⟨fun k row hrow hu ↦ ?_, fun k row hrow hu ↦ ?_, fun k row hrow hu ↦ ?_, nofun⟩
      · rcases hch.keys k row hrow with ⟨old, hold, huser⟩ | ⟨-, -, hpresent⟩
        · exact hclears.mem_keys k old hold (huser.trans hu)
        · exact absurd hu (habsent hpresent)
      · rcases hch.codes k row hrow with ⟨old, hold, hages⟩ | ⟨-, hnew⟩
        · exact hclears.mem_codes k old hold (hages.user.symm.trans hu)
        · have hlt := h.users_lt u old hold
          omega
      · rcases hch.resets k row hrow with ⟨old, hold, hages⟩ | ⟨-, hpresent⟩
        · exact hclears.mem_resets k old hold (hages.user.symm.trans hu)
        · exact absurd hu (habsent hpresent)
    · obtain ⟨hkeys, hcodes, hresets⟩ := hch.cleared u rfl
      exact ⟨fun k row hrow hu ↦ absurd hu (hkeys k row hrow),
        fun k row hrow hu ↦ absurd hu (hcodes k row hrow),
        fun k row hrow hu ↦ absurd hu (hresets k row hrow), nofun⟩
  · exact absurd hnone hdeleted

theorem Inv.changes (h : Inv s) (hch : Changes s t.db t.drawn event)
    (hlog : t.log = event.toList ++ s.log) (hlocks : ∀ u, t.crowd.countP (·.account = some u) ≤ 1)
    (hholds : ∀ p ∈ t.crowd, Holds t p)
    (hlocked : ∀ p ∈ t.crowd, ∀ u, p.account = some u → u < t.drawn) : Inv t where
  locks := hlocks
  holds := hholds
  locked_lt := hlocked
  users_lt u row hrow := by
    rcases hch.users u row hrow with ⟨old, hold, -⟩ | ⟨-, rfl, hdrawn, -⟩
    · exact (h.users_lt u old hold).trans_le hch.drawn_le
    · omega
  keys_lt k row hrow := by
    rcases hch.keys k row hrow with ⟨old, hold, -⟩ | ⟨rfl, hlt, -⟩
    · exact (h.keys_lt k old hold).trans_le hch.drawn_le
    · exact hlt
  log_lt e he i hi := by
    rcases (mem_log hlog).1 he with rfl | he
    · exact (hch.fits e rfl).ids_lt h hch.drawn_le i hi
    · exact (h.log_lt e he i hi).trans_le hch.drawn_le
  registered k row hrow := by
    rw [mem_log hlog]
    rcases hch.codes k row hrow with ⟨old, hold, hages⟩ | ⟨hnew, -⟩
    · rw [hages.user]
      exact .inr (h.registered k old hold)
    · exact .inl hnew
  made k row hrow := by
    rw [mem_log hlog]
    rcases hch.resets k row hrow with ⟨old, hold, hages⟩ | ⟨hnew, -⟩
    · rw [hages.user, hages.expiresAt]
      exact .inr (h.made k old hold)
    · exact .inl hnew
  registered_unique k u v hu hv := by
    have hlt {w : ℕ} (hmem : .registered w k ∈ s.log) : k < s.drawn :=
      h.log_lt _ hmem k (by simp [Event.ids])
    have hle {w : ℕ} (hnew : event = some (.registered w k)) : k = s.drawn + 1 :=
      (hch.fits _ hnew).2.1
    rw [mem_log hlog] at hu hv
    rcases hu with hu | hu <;> rcases hv with hv | hv
    · cases hu.symm.trans hv
      rfl
    · exact absurd (hlt hv) (by have := hle hu; omega)
    · exact absurd (hlt hu) (by have := hle hv; omega)
    · exact h.registered_unique k u v hu hv
  made_unique k u v e e' hu hv := by
    have hlt {w x : ℕ} (hmem : .made k w x ∈ s.log) : k < s.drawn :=
      h.log_lt _ hmem k (by simp [Event.ids])
    have hle {w x : ℕ} (hnew : event = some (.made k w x)) : k = s.drawn := (hch.fits _ hnew).1
    rw [mem_log hlog] at hu hv
    rcases hu with hu | hu <;> rcases hv with hv | hv
    · cases hu.symm.trans hv
      exact ⟨rfl, rfl⟩
    · exact absurd (hlt hv) (by have := hle hu; omega)
    · exact absurd (hlt hu) (by have := hle hv; omega)
    · exact h.made_unique k u v e e' hu hv
  gone _ _ hrow hdeleted := h.clears_changes hch hrow hdeleted
  keys u := hch.count u (h.keys u)

variable {p : Stage} {o : Outcome} {a : Action}

theorem Inv.go (h : Inv s) (hp : p ∈ s.crowd)
    (hadv : advance texts s (s.crowd.erase p) p = some o) :
    Inv (s.after p o) := by
  have heff := effect_of_advance hadv
  have hch := changes_of_effect h hp heff
  have haccount {q : Stage} (hq : o.stage = some q) (u : ℕ) (hu : q.account = some u) :=
    account_of_advance h (h.holds p hp) hadv hq hu
  refine h.changes (t := s.after p o) hch rfl
    (fun u ↦ countP_move_le_one hp (h.locks u) fun q hq hu ↦
      (haccount hq u hu).imp_right And.left)
    (fun q hq ↦ ?_) (fun q hq u hu ↦ ?_)
  · rcases mem_move hq with hq | hq
    · exact holds_of_advance h (h.holds p hp) hadv hq
    · exact (h.holds q (Multiset.mem_of_mem_erase hq)).frame (t := s.after p o) h hch
        (Nat.le_refl _) rfl
        fun u hu ↦ untouched_of_effect h hp hq hu heff
  · rcases mem_move hq with hq | hq
    · rcases haccount hq u hu with hpu | ⟨-, hlt⟩
      · exact (h.locked_lt p hp u hpu).trans_le hch.drawn_le
      · exact hlt.trans_le hch.drawn_le
    · exact (h.locked_lt q (Multiset.mem_of_mem_erase hq) u hu).trans_le hch.drawn_le

theorem changes_refl (s : State) : Changes s s.db s.drawn none :=
  .of_less (Nat.le_refl _) (fun _ _ ↦ id) (fun _ _ ↦ id) (fun _ _ ↦ id)
    (fun _ row hrow ↦ ⟨row, hrow, rfl⟩) (fun _ ↦ Nat.le_refl _) nofun

theorem Inv.of_crowd_le (h : Inv s) (hch : Changes s t.db t.drawn none) (hnow : s.now ≤ t.now)
    (hlog : t.log = s.log) (hcrowd : t.crowd ≤ s.crowd)
    (hmine : ∀ p ∈ t.crowd, ∀ u, p.account = some u → Untouched s t.db none u p.exclusive) :
    Inv t :=
  h.changes hch hlog (fun u ↦ (Multiset.countP_le_of_le _ hcrowd).trans (h.locks u))
    (fun p hp ↦ (h.holds p (Multiset.mem_of_le hcrowd hp)).frame h hch hnow hlog (hmine p hp))
    fun p hp u hu ↦ (h.locked_lt p (Multiset.mem_of_le hcrowd hp) u hu).trans_le hch.drawn_le

theorem untouched_refl (s : State) (u : ℕ) (exclusive : Bool) : Untouched s s.db none u exclusive :=
  .of_resets_iff rfl (fun _ row hrow huser ↦ ⟨row, hrow, huser⟩) (Nat.le_refl _)
    (fun _ row hrow huser ↦ ⟨row, hrow, huser⟩) (fun _ _ _ ↦ Iff.rfl) nofun

theorem Stage.account_of_isFirst (h : p.isFirst = true) : p.account = none := by
  cases p <;> first | rfl | cases h

theorem holds_of_isFirst (h : p.isFirst = true) (s : State) : Holds s p := by
  cases p <;> trivial

theorem Inv.arrive {request : Request} (h : Inv s) (hp : request.begins s = some p) :
    Inv { s with crowd := p ::ₘ s.crowd } := by
  have hfirst := isFirst_of_begins hp
  have haccount := Stage.account_of_isFirst hfirst
  have hold {q : Stage} (hq : q ∈ s.crowd) : Holds { s with crowd := p ::ₘ s.crowd } q :=
    (h.holds q hq).frame h (changes_refl s) (Nat.le_refl _) rfl fun u _ ↦ untouched_refl s u _
  refine h.changes (t := { s with crowd := p ::ₘ s.crowd }) (changes_refl s) rfl (fun u ↦ ?_)
    (fun q hq ↦ ?_) fun q hq u hu ↦ ?_
  · rw [Multiset.countP_cons_of_neg _ (by rw [haccount]; nofun)]
    exact h.locks u
  · rcases Multiset.mem_cons.1 hq with rfl | hq
    · exact holds_of_isFirst hfirst _
    · exact hold hq
  · rcases Multiset.mem_cons.1 hq with rfl | hq
    · rw [haccount] at hu
      cases hu
    · exact h.locked_lt q hq u hu

theorem Inv.next (h : Inv s) (hs : next texts s a = some t) : Inv t := by
  cases moves_of_next hs with
  | arrive hp => exact h.arrive hp
  | go hp hadv => exact h.go hp hadv
  | stop hp =>
    exact h.of_crowd_le (changes_refl s) (Nat.le_refl _) rfl (Multiset.erase_le _ s.crowd)
      fun q _ u _ ↦ untouched_refl s u _
  | pass =>
    exact h.of_crowd_le (changes_refl s) (Nat.le_add_right ..) rfl (le_refl _)
      fun q _ u _ ↦ untouched_refl s u _
  | @grant user hfree =>
    refine h.of_crowd_le (changes_grant user) (Nat.le_refl _) rfl (le_refl _) fun q hq u hu ↦ ?_
    exact untouched_setUser (by rintro rfl; exact hfree q hq hu) (by rintro token ⟨⟩) _

theorem Inv.exists_changes (h : Inv s) (hs : Auth.next texts s a = some t) :
    ∃ event, Changes s t.db t.drawn event ∧ t.log = event.toList ++ s.log := by
  cases moves_of_next hs with
  | arrive | stop | pass => exact ⟨none, changes_refl s, rfl⟩
  | go hp hadv => exact ⟨_, changes_of_effect h hp (effect_of_advance hadv), rfl⟩
  | grant => exact ⟨none, changes_grant _, rfl⟩

theorem inv_of_reachable (h : (machine texts).Reachable s) : Inv s := by
  refine h.invariant (fun s hs ↦ ?_) fun s a t hinv _ hs ↦ hinv.next hs
  obtain ⟨now, drawn, db, crowd, sessions, log⟩ := s
  obtain ⟨rfl, rfl, rfl, rfl, rfl⟩ := hs
  exact ⟨fun _ ↦ Nat.zero_le _, nofun, nofun, nofun, nofun, nofun, nofun, nofun, nofun,
    nofun, nofun, fun _ ↦ Nat.zero_le _⟩

end Next

end Birdtest.Auth
