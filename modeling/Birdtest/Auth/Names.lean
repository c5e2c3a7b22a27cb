import Birdtest.Auth.Locks

namespace Birdtest.Auth

open Birdtest.Base.Crowd Birdtest.Base.Runs Birdtest.Base.Tables
open Birdtest.Jobs.Racks (Text)

def User.name (row : User) : Text × Text := (row.username, row.email)

section Effects

variable {texts : Texts} {s : State} {others : Multiset Stage} {p q : Stage} {o : Outcome}
variable {db : Database} {drawn u v : ℕ} {event : Option Event} {row : User} {f : User → User}

theorem name_setUser (hrow : (s.db.setUser u f).users.get v = some row)
    (hf : ∀ row, (f row).name = row.name) :
    ∃ old, s.db.users.get v = some old ∧ old.name = row.name := by
  rw [get_setUser, Option.map_eq_some_iff] at hrow
  obtain ⟨old, hold, rfl⟩ := hrow
  refine ⟨old, hold, ?_⟩
  split
  · exact (hf old).symm
  · rfl

theorem name_of_effect (heff : Effect texts s others p db drawn event)
    (hrow : db.users.get u = some row) :
    (∃ old, s.db.users.get u = some old ∧ old.name = row.name) ∨
      p.writing = some row.name ∧ (p.account = some u ∨ p.account = none ∧ u = s.drawn) := by
  cases heff with
  | quiet | spending | makeReset | createKey | setKeyActive | revokeKey =>
    exact .inl ⟨row, hrow, rfl⟩
  | release => exact .inl ⟨row, (of_filter hrow).2, rfl⟩
  | register =>
    by_cases hu : u = s.drawn
    · subst hu
      rw [Database.register, Table.get_put_self, Option.some.injEq] at hrow
      subst hrow
      exact .inr ⟨rfl, .inr ⟨rfl, rfl⟩⟩
    · rw [Database.register, Table.get_put_of_ne hu] at hrow
      exact .inl ⟨row, hrow, rfl⟩
  | confirm => exact .inl (name_setUser hrow fun _ ↦ rfl)
  | resetPassword => exact .inl (name_setUser hrow fun _ ↦ by split <;> rfl)
  | signOut => exact .inl (name_setUser hrow fun _ ↦ rfl)
  | @anonymise user began keys codes resets name =>
    rw [Database.anonymise, get_setUser, Option.map_eq_some_iff] at hrow
    obtain ⟨old, hold, rfl⟩ := hrow
    split
    · next hu =>
      subst hu
      split
      · exact .inr ⟨rfl, .inl rfl⟩
      · exact .inl ⟨old, hold, rfl⟩
    · exact .inl ⟨old, hold, rfl⟩

theorem writing_of_advance {name : Text × Text} (hadv : advance texts s others p = some o)
    (hq : o.stage = some q) (hname : q.writing = some name) :
    o.db = s.db ∧ (p.writing = some name ∧ q.account = p.account ∨
      Unused (texts.lower ·.1) s.db others q.account name ∧
      Unused (·.2) s.db others q.account name) := by
  cases goes_of_advance hadv hq with
  | inserting hlower hemail =>
    cases hq
    cases hname
    exact ⟨rfl, .inr ⟨hlower, hemail⟩⟩
  | inserted =>
    cases hq
    exact ⟨rfl, .inl ⟨hname, rfl⟩⟩
  | unreset hpresent hlower hemail =>
    cases hq
    cases hname
    exact ⟨rfl, .inr ⟨hlower, hemail⟩⟩
  | _ =>
    cases hq
    cases hname

end Effects

section Distinct

variable {α : Type} [DecidableEq α] (f : Text × Text → α) {texts : Texts} {s t : State} {p : Stage}
  {o : Outcome}

/-- An index of `f`, unique in what is committed and what is being written. -/
structure Distinct (s : State) : Prop where
  rows : ∀ u v row row', s.db.users.get u = some row → s.db.users.get v = some row' →
    f row.name = f row'.name → u = v
  written : ∀ p ∈ s.crowd, ∀ name, p.writing = some name → ∀ u row, s.db.users.get u = some row →
    p.account ≠ some u → f row.name ≠ f name
  writing : ∀ a, s.crowd.countP (fun p ↦ p.writing.map f = some a) ≤ 1

variable {f}

theorem Distinct.ne {q : Stage} {name name' : Text × Text} (h : Distinct f s) (hp : p ∈ s.crowd)
    (hq : q ∈ s.crowd.erase p) (hname : p.writing = some name) (hname' : q.writing = some name') :
    f name ≠ f name' := by
  intro heq
  refine not_of_mem_erase hp (h.writing (f name')) ?_ hq (congrArg (Option.map f) hname')
  rw [hname, Option.map_some, heq]

theorem Distinct.go (h : Distinct f s) (hp : p ∈ s.crowd)
    (hadv : advance texts s (s.crowd.erase p) p = some o)
    (hwriting : ∀ q name, o.stage = some q → q.writing = some name → o.db = s.db ∧
      (p.writing = some name ∧ q.account = p.account ∨
        Unused f s.db (s.crowd.erase p) q.account name)) : Distinct f (s.after p o) where
  rows u v row row' hrow hrow' heq := by
    have heff := effect_of_advance hadv
    -- a row that was there is not told from the one being written, unless it is the one written
    -- over
    have hnew {u v : ℕ} {row row' : User}
        (hold : ∃ old, s.db.users.get u = some old ∧ old.name = row.name)
        (hname : p.writing = some row'.name)
        (hv : p.account = some v ∨ p.account = none ∧ v = s.drawn)
        (heq : f row.name = f row'.name) : u = v := by
      obtain ⟨old, hold, hsame⟩ := hold
      rw [← hsame] at heq
      by_contra hne
      refine h.written p hp _ hname u old hold ?_ heq
      rcases hv with hv | ⟨hv, -⟩ <;> simp [hv, Ne.symm hne]
    rcases name_of_effect heff hrow with hold | ⟨hname, hu⟩ <;>
      rcases name_of_effect heff hrow' with hold' | ⟨hname', hv⟩
    · obtain ⟨old, hold, hsame⟩ := hold
      obtain ⟨old', hold', hsame'⟩ := hold'
      rw [← hsame, ← hsame'] at heq
      exact h.rows u v old old' hold hold' heq
    · exact hnew hold hname' hv heq
    · exact (hnew hold' hname hu heq.symm).symm
    · rcases hu with hu | ⟨hu, rfl⟩ <;> rcases hv with hv | ⟨hv, rfl⟩
      · exact Option.some.inj (hu.symm.trans hv)
      · cases hu.symm.trans hv
      · cases hv.symm.trans hu
      · rfl
  written q hq name hname u row hrow haccount := by
    rcases mem_move hq with hq | hq
    · obtain ⟨hdb, hcases⟩ := hwriting q name hq hname
      have hrow : s.db.users.get u = some row := hdb ▸ hrow
      rcases hcases with ⟨hsame, heq⟩ | hunused
      · exact h.written p hp name hsame u row hrow (heq ▸ haccount)
      · exact hunused.1 (u, row) (Table.mem_rows.2 hrow) haccount
    · rcases name_of_effect (effect_of_advance hadv) hrow with ⟨old, hold, hsame⟩ | ⟨hnew, -⟩
      · rw [← hsame]
        exact h.written q (Multiset.mem_of_mem_erase hq) name hname u old hold haccount
      · exact h.ne hp hq hnew hname
  writing a := countP_move_le_one hp (h.writing a) fun q hq ha ↦ by
    obtain ⟨name, hname, rfl⟩ := Option.map_eq_some_iff.1 ha
    obtain ⟨-, ⟨hsame, -⟩ | hunused⟩ := hwriting q name hq hname
    · exact .inl (congrArg (Option.map f) hsame)
    · refine .inr fun q' hq' ha' ↦ ?_
      obtain ⟨name', hname', heq⟩ := Option.map_eq_some_iff.1 ha'
      exact hunused.2 q' hq' name' hname' heq

theorem Distinct.of_names (h : Distinct f s)
    (hrows : ∀ u row, t.db.users.get u = some row → ∃ old, s.db.users.get u = some old ∧
      old.name = row.name)
    (hcrowd : ∀ p ∈ t.crowd, ∀ name, p.writing = some name → p ∈ s.crowd)
    (hcount : ∀ a, t.crowd.countP (fun p ↦ p.writing.map f = some a) ≤
      s.crowd.countP fun p ↦ p.writing.map f = some a) : Distinct f t where
  rows u v row row' hrow hrow' heq := by
    obtain ⟨old, hold, hsame⟩ := hrows u row hrow
    obtain ⟨old', hold', hsame'⟩ := hrows v row' hrow'
    rw [← hsame, ← hsame'] at heq
    exact h.rows u v old old' hold hold' heq
  written p hp name hname u row hrow haccount := by
    obtain ⟨old, hold, hsame⟩ := hrows u row hrow
    rw [← hsame]
    exact h.written p (hcrowd p hp name hname) name hname u old hold haccount
  writing a := (hcount a).trans (h.writing a)

theorem Stage.writing_of_isFirst (h : p.isFirst = true) : p.writing = none := by
  cases p <;> first | rfl | cases h

/-- An index that every statement that writes a name goes by is unique. -/
theorem distinct_of_reachable
    (hf : ∀ db others own name, Unused (texts.lower ·.1) db others own name →
      Unused (·.2) db others own name → Unused f db others own name)
    (h : (machine texts).Reachable s) : Distinct f s := by
  refine h.invariant (fun s hs ↦ ?_) fun s a t hd _ hs ↦ ?_
  · obtain ⟨now, drawn, db, crowd, sessions, log⟩ := s
    obtain ⟨rfl, rfl, rfl, rfl, rfl⟩ := hs
    exact ⟨nofun, nofun, fun _ ↦ Nat.zero_le _⟩
  · cases moves_of_next hs with
    | @arrive request p hp =>
      have hwriting : p.writing = none := Stage.writing_of_isFirst (isFirst_of_begins hp)
      refine hd.of_names (fun u row hrow ↦ ⟨row, hrow, rfl⟩) (fun q hq name hname ↦ ?_) fun a ↦ ?_
      · rcases Multiset.mem_cons.1 hq with rfl | hq
        · cases hwriting.symm.trans hname
        · exact hq
      · rw [Multiset.countP_cons_of_neg _ (by rw [hwriting]; nofun)]
    | go hp hadv =>
      refine hd.go hp hadv fun q name hq hname ↦ ?_
      obtain ⟨hdb, hcases⟩ := writing_of_advance hadv hq hname
      exact ⟨hdb, hcases.imp_right fun hunused ↦ hf _ _ _ _ hunused.1 hunused.2⟩
    | stop hp =>
      exact hd.of_names (fun u row hrow ↦ ⟨row, hrow, rfl⟩)
        (fun q hq _ _ ↦ Multiset.mem_of_mem_erase hq)
        fun a ↦ Multiset.countP_le_of_le _ (Multiset.erase_le _ _)
    | pass =>
      exact hd.of_names (fun u row hrow ↦ ⟨row, hrow, rfl⟩) (fun q hq _ _ ↦ hq) fun a ↦
        Nat.le_refl _
    | grant hfree =>
      exact hd.of_names (fun u row hrow ↦ name_setUser hrow fun _ ↦ rfl) (fun q hq _ _ ↦ hq)
        fun a ↦ Nat.le_refl _

end Distinct

section Marks

variable (texts : Texts)

def Texts.key (name : Text) : Text := withoutMarks (texts.lower name)

def Stage.claimed : Stage → Option Registration
  | .hashing r _ | .inserting r | .inserted r | .coded r _ => some r
  | _ => none

def Stage.grave : Stage → Option Text
  | .anonymised _ _ _ _ _ name => some name.1
  | _ => none

def Action.checks : Action → Option Registration
  | .go (.checking r) => some r
  | _ => none

/-- A registration's check for its name is not between another's check and its commit, where the two
names are told apart by nothing but invisible marks. -/
def Apart (s : State) (a : Action) : Prop :=
  ∀ r ∈ a.checks, ∀ p ∈ s.crowd, ∀ r' ∈ p.claimed, texts.key r'.username = texts.key r.username →
    texts.lower r'.username = texts.lower r.username

instance (s : State) (a : Action) : Decidable (Apart texts s a) :=
  inferInstanceAs (Decidable (∀ r ∈ a.checks, ∀ p ∈ s.crowd, ∀ r' ∈ p.claimed,
    texts.key r'.username = texts.key r.username →
    texts.lower r'.username = texts.lower r.username))

def isPlain (c : Char) : Bool := c.isLower || c.isDigit || c == '-'

/-- What the database documents of its functions of text. -/
structure Texts.Documented : Prop where
  -- character by character
  length_lower : ∀ t, (texts.lower t).length = t.length
  lower_plain : ∀ t, t.all isPlain = true → texts.lower t = t
  length_uuid : ∀ n, (texts.uuid n).length = 36
  plain_uuid : ∀ n, (texts.uuid n).all isPlain = true

variable {texts}

theorem isPlain_cases {c : Char} (h : isPlain c = true) : 'a' ≤ c ∧ c ≤ 'z' ∨
    '0' ≤ c ∧ c ≤ '9' ∨ c = '-' := by
  rw [isPlain, Bool.or_eq_true, Bool.or_eq_true, beq_iff_eq, or_assoc] at h
  refine h.imp (fun h ↦ ?_) (Or.imp_left fun h ↦ ?_)
  · exact (Bool.and_eq_true_iff.1 h).imp of_decide_eq_true of_decide_eq_true
  · exact (Bool.and_eq_true_iff.1 h).imp of_decide_eq_true of_decide_eq_true

theorem isPlain_lt {c : Char} (h : isPlain c = true) : c.toNat < 128 := by
  rcases isPlain_cases h with ⟨-, h⟩ | ⟨-, h⟩ | rfl
  · exact Nat.lt_of_le_of_lt (UInt32.le_iff_toNat_le.1 h) (by decide)
  · exact Nat.lt_of_le_of_lt (UInt32.le_iff_toNat_le.1 h) (by decide)
  · decide

theorem inRanges_of_lt {c : Char} {ranges : List (ℕ × ℕ)} {n : ℕ} (hc : c.toNat < n)
    (h : ranges.all (n ≤ ·.1) = true) : inRanges ranges c = false := by
  refine List.any_eq_false.2 fun range hmem ↦ ?_
  have hle := of_decide_eq_true (List.all_eq_true.1 h range hmem)
  rw [decide_eq_true_eq]
  omega

theorem isMark_of_isPlain {c : Char} (h : isPlain c = true) : isMark c = false := by
  have hc := isPlain_lt h
  rw [isMark, isJoiner, isSelector, isIdeographicSelector, inRanges_of_lt hc (by decide),
    inRanges_of_lt hc (by decide), inRanges_of_lt hc (by decide)]
  rfl

theorem withoutMarks_of_plain {t : Text} (h : t.all isPlain = true) : withoutMarks t = t := by
  refine List.filter_eq_self.2 fun c hc ↦ ?_
  rw [isMark_of_isPlain (List.all_eq_true.1 h c hc)]
  rfl

section Tombstone

variable (ht : texts.Documented) (user : ℕ)
include ht

theorem plain_tombstone : (texts.tombstone user).all isPlain = true := by
  rw [Texts.tombstone, List.all_append, ht.plain_uuid user, Bool.and_true]
  decide

theorem key_tombstone : texts.key (texts.tombstone user) = texts.tombstone user := by
  have hplain := plain_tombstone ht user
  rw [Texts.key, ht.lower_plain _ hplain, withoutMarks_of_plain hplain]

theorem length_tombstone : (texts.tombstone user).length = 44 := by
  rw [Texts.tombstone, List.length_append, ht.length_uuid user]
  rfl

end Tombstone

def Texts.Names (texts : Texts) (name : Text) : Prop :=
  name.length ≤ 32 ∨ ∃ user, name = texts.tombstone user

def Texts.Tells (texts : Texts) (x y : Text) : Prop :=
  texts.key x = texts.key y → texts.lower x = texts.lower y

theorem Texts.Tells.symm {x y : Text} (h : texts.Tells x y) : texts.Tells y x :=
  fun heq ↦ (h heq.symm).symm

theorem tells_tombstone (ht : texts.Documented) {user : ℕ} {name : Text}
    (hname : texts.Names name) :
    texts.Tells (texts.tombstone user) name := by
  intro heq
  rcases hname with hshort | ⟨other, rfl⟩
  · have hle : (texts.key name).length ≤ (texts.lower name).length := List.length_filter_le ..
    rw [← heq, key_tombstone ht, length_tombstone ht, ht.length_lower] at hle
    omega
  · rw [key_tombstone ht, key_tombstone ht] at heq
    rw [heq]

def Named (s : State) (name : Text) : Prop :=
  (∃ u row, s.db.users.get u = some row ∧ row.username = name) ∨
    ∃ p ∈ s.crowd, ∃ r, p.claimed = some r ∧ r.username = name

variable {s t : State} {others : Multiset Stage} {p q : Stage} {o : Outcome} {r : Registration}
  {name : Text}

theorem claimed_of_advance (hadv : advance texts s others p = some o) (hq : o.stage = some q)
    (hr : q.claimed = some r) :
    p.claimed = some r ∨ p = .checking r ∧ s.db.usernameTaken texts.lower r = false := by
  cases goes_of_advance hadv hq with
  | checking htaken =>
    cases hq
    cases hr
    exact .inr ⟨rfl, htaken⟩
  | hashing | inserting | inserted =>
    cases hq
    exact .inl hr
  | _ =>
    cases hq
    cases hr

theorem grave_of_advance (hadv : advance texts s others p = some o) (hq : o.stage = some q)
    (hname : q.grave = some name) : ∃ user, name = texts.tombstone user := by
  cases goes_of_advance hadv hq with
  | @unreset user =>
    cases hq
    cases hname
    exact ⟨user, rfl⟩
  | _ =>
    cases hq
    cases hname

theorem Stage.claimed_or_grave {written : Text × Text} (h : p.writing = some written) :
    (∃ r, p.claimed = some r ∧ r.username = written.1) ∨ p.grave = some written.1 := by
  cases p with
  | inserted r | coded r expires =>
    cases h
    exact .inl ⟨r, rfl, rfl⟩
  | anonymised =>
    cases h
    exact .inr rfl
  | _ => cases h

/-- The names that a database has told apart by its taken check and by the lower-case index. -/
structure ToldApart (texts : Texts) (s : State) : Prop where
  graves : ∀ p ∈ s.crowd, ∀ name, p.grave = some name → ∃ user, name = texts.tombstone user
  names : ∀ name, Named s name → texts.Names name
  tells : ∀ x y, Named s x → Named s y → texts.Tells x y

theorem ToldApart.of_named (h : ToldApart texts s) (hnamed : ∀ name, Named t name → Named s name)
    (hgraves : ∀ p ∈ t.crowd, ∀ name, p.grave = some name → p ∈ s.crowd) : ToldApart texts t where
  graves p hp name hname := h.graves p (hgraves p hp name hname) name hname
  names name hname := h.names name (hnamed name hname)
  tells x y hx hy := h.tells x y (hnamed x hx) (hnamed y hy)

theorem ToldApart.named_of_go (h : ToldApart texts s) (hp : p ∈ s.crowd)
    (hadv : advance texts s (s.crowd.erase p) p = some o) (hname : Named (s.after p o) name) :
    Named s name ∨ (∃ r, p = .checking r ∧ s.db.usernameTaken texts.lower r = false ∧
      r.username = name) ∨
      ∃ user, name = texts.tombstone user := by
  rcases hname with ⟨u, row, hrow, rfl⟩ | ⟨q, hq, r, hr, rfl⟩
  · rcases name_of_effect (effect_of_advance hadv) hrow with ⟨old, hold, hsame⟩ | ⟨hwriting, -⟩
    · exact .inl (.inl ⟨u, old, hold, congrArg Prod.fst hsame⟩)
    · rcases Stage.claimed_or_grave hwriting with ⟨r, hr, heq⟩ | hgrave
      · exact .inl (.inr ⟨p, hp, r, hr, heq⟩)
      · exact .inr (.inr (h.graves p hp _ hgrave))
  · rcases mem_move hq with hq | hq
    · rcases claimed_of_advance hadv hq hr with hclaimed | ⟨hchecking, htaken⟩
      · exact .inl (.inr ⟨p, hp, r, hclaimed, rfl⟩)
      · exact .inr (.inl ⟨r, hchecking, htaken, rfl⟩)
    · exact .inl (.inr ⟨q, Multiset.mem_of_mem_erase hq, r, hr, rfl⟩)

theorem key_ne_of_usernameTaken {row : User} {u : ℕ} (h : s.db.usernameTaken texts.lower r = false)
    (hrow : s.db.users.get u = some row) : texts.key row.username ≠ texts.key r.username := by
  have hsame := List.any_eq_false.1 h (u, row) (Table.mem_rows.2 hrow)
  simp only [sameName, decide_eq_true_eq, not_or] at hsame
  exact hsame.2

/-- A name found not taken is told from every other, where no such check is in the way of
another. -/
theorem tells_of_apart (hapart : Apart texts s (.go (.checking r)))
    (htaken : s.db.usernameTaken texts.lower r = false) (hname : Named s name) :
    texts.Tells name r.username := by
  intro heq
  rcases hname with ⟨u, row, hrow, rfl⟩ | ⟨p, hp, r', hr', rfl⟩
  · exact absurd heq (key_ne_of_usernameTaken htaken hrow)
  · exact hapart r rfl p hp r' hr' heq

theorem ToldApart.go (ht : texts.Documented) (h : ToldApart texts s)
    (hapart : Apart texts s (.go p)) (hp : p ∈ s.crowd)
    (hadv : advance texts s (s.crowd.erase p) p = some o) :
    ToldApart texts (s.after p o) := by
  have hnames (name : Text) (hname : Named (s.after p o) name) : texts.Names name := by
    rcases h.named_of_go hp hadv hname with hname | ⟨r, -, -, rfl⟩ | hgrave
    · exact h.names name hname
    · exact .inl r.counted.2
    · exact .inr hgrave
  refine ⟨fun q hq name hname ↦ ?_, hnames, fun x y hx hy ↦ ?_⟩
  · rcases mem_move hq with hq | hq
    · exact grave_of_advance hadv hq hname
    · exact h.graves q (Multiset.mem_of_mem_erase hq) name hname
  · rcases h.named_of_go hp hadv hx with hx' | ⟨r, rfl, htaken, rfl⟩ | ⟨user, rfl⟩
    · rcases h.named_of_go hp hadv hy with hy' | ⟨r, rfl, htaken, rfl⟩ | ⟨user, rfl⟩
      · exact h.tells x y hx' hy'
      · exact tells_of_apart hapart htaken hx'
      · exact (tells_tombstone ht (hnames x hx)).symm
    · rcases h.named_of_go hp hadv hy with hy' | ⟨r', heq, -, rfl⟩ | ⟨user, rfl⟩
      · exact (tells_of_apart hapart htaken hy').symm
      · cases heq
        exact fun _ ↦ rfl
      · exact (tells_tombstone ht (hnames _ hx)).symm
    · exact tells_tombstone ht (hnames y hy)

theorem Stage.claimed_of_isFirst (h : p.isFirst = true) : p.claimed = none := by
  cases p <;> first | rfl | cases h

theorem Stage.grave_of_isFirst (h : p.isFirst = true) : p.grave = none := by
  cases p <;> first | rfl | cases h

theorem toldApart_of_reachable (ht : texts.Documented)
    (h : (machine texts).ReachableBy (Apart texts) s) :
    ToldApart texts s := by
  refine h.invariant (fun s hs ↦ ?_) fun s a t hd hapart hs ↦ ?_
  · obtain ⟨now, drawn, db, crowd, sessions, log⟩ := s
    obtain ⟨rfl, rfl, rfl, rfl, rfl⟩ := hs
    have hnone (name : Text) : ¬Named ⟨now, 0, .empty, 0, [], []⟩ name := by
      rintro (⟨u, row, hrow, -⟩ | ⟨p, hp, -⟩)
      · cases hrow
      · exact Multiset.notMem_zero p hp
    exact ⟨nofun, fun name hname ↦ absurd hname (hnone name), fun x y hx ↦ absurd hx (hnone x)⟩
  · cases moves_of_next hs with
    | @arrive request p hp =>
      have hfirst := isFirst_of_begins hp
      refine hd.of_named (fun name hname ↦ ?_) fun q hq name hname ↦ ?_
      · rcases hname with hrow | ⟨q, hq, r, hr, hname⟩
        · exact .inl hrow
        · rcases Multiset.mem_cons.1 hq with rfl | hq
          · cases (Stage.claimed_of_isFirst hfirst).symm.trans hr
          · exact .inr ⟨q, hq, r, hr, hname⟩
      · rcases Multiset.mem_cons.1 hq with rfl | hq
        · cases (Stage.grave_of_isFirst hfirst).symm.trans hname
        · exact hq
    | go hp hadv => exact hd.go ht hapart hp hadv
    | stop hp =>
      refine hd.of_named (fun name hname ↦ hname.imp_right ?_) fun q hq _ _ ↦
        Multiset.mem_of_mem_erase hq
      rintro ⟨q, hq, hrest⟩
      exact ⟨q, Multiset.mem_of_mem_erase hq, hrest⟩
    | pass => exact hd.of_named (fun _ ↦ id) fun q hq _ _ ↦ hq
    | grant hfree =>
      refine hd.of_named (fun name hname ↦ hname.imp_left ?_) fun q hq _ _ ↦ hq
      rintro ⟨u, row, hrow, hname⟩
      obtain ⟨old, hold, hsame⟩ := name_setUser hrow fun _ ↦ rfl
      exact ⟨u, old, hold, (congrArg Prod.fst hsame).trans hname⟩

end Marks

section Confirmed

variable {texts : Texts} {s t : State} {a : Action} {u : ℕ} {row : User}

structure Confirmed (s : State) : Prop where
  registered : ∀ user code, .confirmed user code ∈ s.log → .registered user code ∈ s.log
  rows : ∀ u row, s.db.users.get u = some row → row.emailConfirmedAt ≠ none →
    ∃ code, .confirmed u code ∈ s.log

theorem Confirmed.next (hinv : Inv s) (h : Confirmed s) (hs : next texts s a = some t) :
    Confirmed t := by
  obtain ⟨event, hch, hlog⟩ := hinv.exists_changes hs
  refine ⟨fun user code hmem ↦ ?_, fun u row hrow hconfirmed ↦ ?_⟩
  · rw [mem_log hlog] at hmem ⊢
    rcases hmem with rfl | hmem
    · exact .inr (hch.fits _ rfl)
    · exact .inr (h.registered user code hmem)
  · rcases hch.users u row hrow with ⟨old, hold, hchanges⟩ | ⟨-, -, -, -, -, hnone⟩
    · rcases hchanges.emailConfirmedAt hconfirmed with hold' | ⟨code, hevent⟩
      · obtain ⟨code, hmem⟩ := h.rows u old hold hold'
        exact ⟨code, (mem_log hlog).2 (.inr hmem)⟩
      · exact ⟨code, (mem_log hlog).2 (.inl hevent)⟩
    · exact absurd hnone hconfirmed

theorem confirmed_of_reachable (h : (machine texts).Reachable s) : Confirmed s := by
  refine h.invariant_of (fun _ ↦ inv_of_reachable) (fun s hs ↦ ?_)
    fun s a t hinv hconfirmed _ hs ↦ hconfirmed.next hinv hs
  obtain ⟨now, drawn, db, crowd, sessions, log⟩ := s
  obtain ⟨rfl, rfl, rfl, rfl, rfl⟩ := hs
  exact ⟨nofun, nofun⟩

end Confirmed

section Released

variable {texts : Texts} {s t : State} {a : Action} {p : Stage} {others : Multiset Stage}
  {db : Database}
variable {drawn u : ℕ} {event : Option Event} {row : User}

theorem isSome_setUser {f : User → User} (h : (s.db.users.get u).isSome) :
    ((s.db.setUser v f).users.get u).isSome := by
  rwa [get_setUser, Option.isSome_map]

theorem released_of_effect (heff : Effect texts s others p db drawn event)
    (hsome : (s.db.users.get u).isSome) (hnone : db.users.get u = none) :
    ∃ r began found, p = .releasing r began found ∧ u ∈ s.db.outdated texts.lower r found := by
  have hnot (hstays : (db.users.get u).isSome) : False := by
    rw [hnone] at hstays
    cases hstays
  cases heff with
  | quiet | spending | makeReset | createKey | setKeyActive | revokeKey => exact absurd hsome hnot
  | @release r began found hfree =>
    refine ⟨r, began, found, rfl, ?_⟩
    by_contra hmem
    rw [Database.release, Table.get_filter, if_pos (decide_eq_true hmem)] at hnone
    rw [hnone] at hsome
    cases hsome
  | register =>
    refine (hnot ?_).elim
    by_cases hu : u = s.drawn
    · rw [hu, Database.register, Table.get_put_self]
      rfl
    · rwa [Database.register, Table.get_put_of_ne hu]
  | confirm | resetPassword | signOut | anonymise => exact (hnot (isSome_setUser hsome)).elim

/-- A release removes only what has never been confirmed, and can no longer be. -/
theorem Inv.released (h : Inv s) (hs : Auth.next texts s a = some t)
    (hrow : s.db.users.get u = some row) (hnone : t.db.users.get u = none) :
    row.emailConfirmedAt = none ∧ row.deletedAt = none ∧
      row.isAdmin = false ∧ s.db.hasLiveCode s.now u = false := by
  have hsome : (s.db.users.get u).isSome := by
    rw [hrow]
    rfl
  cases moves_of_next hs with
  | arrive | stop | pass => cases hrow.symm.trans hnone
  | @go p o hp hadv =>
    obtain ⟨r, began, found, rfl, hmem⟩ := released_of_effect (effect_of_advance hadv) hsome hnone
    obtain ⟨hfound, hgives⟩ := List.mem_filter.1 hmem
    rw [hrow, Option.any_some, User.givesWay, decide_eq_true_eq] at hgives
    obtain ⟨-, hconfirmed, hdeleted, hadmin⟩ := hgives
    refine ⟨hconfirmed, hdeleted, hadmin, List.any_eq_false.2 fun code hcode hlive ↦ ?_⟩
    obtain ⟨hbegan, hexpired⟩ := h.holds _ hp
    simp only [Code.live, decide_eq_true_eq] at hlive
    obtain ⟨huser, hunused, hlt⟩ := hlive
    have hle := (hexpired u hfound).2 code.1 code.2 (Table.mem_rows.1 hcode) huser hunused
    omega
  | @grant user hfree =>
    have hstays : ((s.db.grant user).users.get u).isSome := isSome_setUser hsome
    exact absurd hnone (Option.isSome_iff_ne_none.1 hstays)

end Released

variable {texts : Texts} {s : State}

/-- One name, one account: in every run in which no two registrations of names that differ only in
invisible marks are between their checks and their commits. The rest holds in every run. -/
theorem one_name_one_account (ht : texts.Documented) (h : (machine texts).Reachable s) :
    ((machine texts).ReachableBy (Apart texts) s → ∀ u v row row', s.db.users.get u = some row →
      s.db.users.get v = some row' → texts.key row.username = texts.key row'.username → u = v) ∧
    (∀ u v row row', s.db.users.get u = some row → s.db.users.get v = some row' →
      row.email = row'.email → u = v) ∧
    (∀ a t u row, next texts s a = some t → s.db.users.get u = some row → t.db.users.get u = none →
      row.emailConfirmedAt = none ∧ row.deletedAt = none ∧ row.isAdmin = false ∧
        s.db.hasLiveCode s.now u = false) ∧
    (∀ u row, s.db.users.get u = some row → row.emailConfirmedAt ≠ none →
      ∃ code, .confirmed u code ∈ s.log) ∧
    ∀ u code, .confirmed u code ∈ s.log → ∀ v, .registered v code ∈ s.log ↔ v = u := by
  have hinv := inv_of_reachable h
  have hconfirmed := confirmed_of_reachable h
  refine ⟨fun hby u v row row' hrow hrow' hkey ↦ ?_, ?_, fun a t u row hs ↦ hinv.released hs,
    hconfirmed.rows, fun u code hmem v ↦ ⟨fun hv ↦ ?_, ?_⟩⟩
  · have hlower : Distinct (texts.lower ·.1) s := distinct_of_reachable (fun _ _ _ _ h _ ↦ h) h
    have htold := toldApart_of_reachable ht hby
    exact hlower.rows u v row row' hrow hrow'
      (htold.tells _ _ (.inl ⟨u, row, hrow, rfl⟩) (.inl ⟨v, row', hrow', rfl⟩) hkey)
  · have hemail : Distinct (·.2) s := distinct_of_reachable (fun _ _ _ _ _ h ↦ h) h
    exact hemail.rows
  · exact hinv.registered_unique code v u hv (hconfirmed.registered u code hmem)
  · rintro rfl
    exact hconfirmed.registered v code hmem

theorem toLower_of_isPlain {c : Char} (h : isPlain c = true) : c.toLower = c := by
  refine dif_neg ?_
  rintro ⟨ha, hz⟩
  rcases isPlain_cases h with ⟨h, -⟩ | ⟨-, h⟩ | rfl
  · exact absurd (UInt32.le_trans h hz) (by decide)
  · exact absurd (UInt32.le_trans ha h) (by decide)
  · exact absurd ha (by decide)

theorem documented_ascii : Texts.ascii.Documented where
  length_lower _ := List.length_map _
  lower_plain t h :=
    (List.map_congr_left fun c hc ↦ toLower_of_isPlain (List.all_eq_true.1 h c hc)).trans
      (List.map_id t)
  length_uuid n := by simp [Texts.ascii]
  plain_uuid n := by
    have hdigit : ∀ k < 16, isPlain (Nat.digitChar k) = true := by decide
    refine List.all_eq_true.2 fun c hc ↦ ?_
    obtain ⟨i, -, rfl⟩ := List.mem_map.1 hc
    split
    · rfl
    · exact hdigit _ (Nat.mod_lt _ (by decide))

def plainName : Registration where
  username := ['ب', 'ب', 'ب', 'ب']
  email := ['a', '@', 'b', '.', 'c', 'o']
  passwordHash := ['a']
  counted := by decide
  visible := by decide
  placed := by decide
  bare := by decide

def joinedName : Registration where
  username := ['ب', '\u200D', 'ب', 'ب', 'ب']
  email := ['z', '@', 'b', '.', 'c', 'o']
  passwordHash := ['z']
  counted := by decide
  visible := by decide
  placed := by decide
  bare := by decide

/-- Two registrations one after the other. -/
theorem one_name_one_account_twice : ∃ s, (machine .ascii).ReachableBy (Apart .ascii) s ∧
    (s.db.users.get 0).isSome ∧ (s.db.users.get 2).isSome ∧
    ∀ row row', s.db.users.get 0 = some row → s.db.users.get 2 = some row' →
      Texts.ascii.key row.username ≠ Texts.ascii.key row'.username ∧ row.email ≠ row'.email := by
  have hstart : (machine .ascii).ReachableBy (Apart .ascii) _ := start_ascii
  obtain ⟨s, hs, hp⟩ := hstart.follow_any (registerRun josh 0 ++ registerRun plainName 0)
    (fun s ↦ (s.db.users.get 0).isSome ∧ (s.db.users.get 2).isSome)
    (by decide +kernel)
  obtain ⟨hjosh, hplain⟩ := of_decide_eq_true hp
  obtain ⟨hnames, hemails, -⟩ := one_name_one_account documented_ascii hs.reachable
  refine ⟨s, hs, hjosh, hplain, fun row row' hrow hrow' ↦ ⟨fun hkey ↦ ?_, fun hemail ↦ ?_⟩⟩
  · cases hnames hs 0 2 row row' hrow hrow' hkey
  · cases hemails 0 2 row row' hrow hrow' hemail

/-- Two registrations that each check while the other has not committed: one name, two accounts. -/
theorem two_accounts_of_one_name : ¬∀ (texts : Texts) (s : State), texts.Documented →
    (machine texts).Reachable s → ∀ u v row row', s.db.users.get u = some row →
      s.db.users.get v = some row' → texts.key row.username = texts.key row'.username → u = v := by
  intro hclaim
  have hstart : (machine .ascii).Reachable _ := start_ascii
  obtain ⟨s, hs, hp⟩ := hstart.follow_any
    (checkRun plainName 0 ++ checkRun joinedName 0 ++ insertRun plainName 0 ++
      insertRun joinedName 0)
    (fun s ↦ (s.db.users.get 0).any fun row ↦ (s.db.users.get 2).any fun row' ↦
      Texts.ascii.key row.username = Texts.ascii.key row'.username)
    (by decide +kernel)
  obtain ⟨row, hrow, hp⟩ := (Option.any_eq_true ..).1 hp
  obtain ⟨row', hrow', hkey⟩ := (Option.any_eq_true ..).1 hp
  cases hclaim .ascii s documented_ascii hs 0 2 row row' hrow hrow' (of_decide_eq_true hkey)

end Birdtest.Auth
