import Birdtest.Auth.Effects

namespace Birdtest.Auth

open Birdtest.Base.Crowd Birdtest.Base.Runs Birdtest.Base.Tables
open Birdtest.Jobs.Racks (Text)

def Event.revokes (user : ℕ) : Event → Bool
  | .changed _ u _ _ | .signedOut u | .deleted u => u = user
  | _ => false

def revocations (user : ℕ) (log : List Event) : ℕ := log.countP (Event.revokes user)

def Event.ids : Event → List ℕ
  | .registered user code | .confirmed user code => [user, code]
  | .made token user _ | .spending token user | .changed token user _ _ => [token, user]
  | .signedOut user | .deleted user => [user]

def Found (token other : ℕ) (log : List Event) : Prop :=
  ∃ user expires, [Event.spending token user, .made other user expires].Sublist log

structure Database.Redeems (db : Database) (token began user : ℕ) : Prop where
  present : (db.present user).isSome
  unspent : ∃ row, db.resets.get token = some row ∧ row.user = user ∧ row.usedAt = none ∧
    began < row.expiresAt

structure Clears (db : Database) (log : List Event) (user : ℕ) (keys codes resets : List ℕ) :
    Prop where
  mem_keys : ∀ k row, db.keys.get k = some row → row.user = user → k ∈ keys
  mem_codes : ∀ k row, db.confirmations.get k = some row → row.user = user → k ∈ codes
  mem_resets : ∀ k row, db.resets.get k = some row → row.user = user → k ∈ resets
  own : ∀ k ∈ resets, ∃ expires, .made k user expires ∈ log

def Holds (s : State) : Stage → Prop
  | .releasing _ began found => began ≤ s.now ∧ ∀ u ∈ found, u < s.drawn ∧
    ∀ k row, s.db.confirmations.get k = some row → row.user = u → row.usedAt = none →
      row.expiresAt ≤ began
  | .redeemed code _ _ user | .confirmed code _ user => .registered user code ∈ s.log
  | .lockedReset token _ _ user =>
    (s.db.present user).isSome ∧ ∃ expires, .made token user expires ∈ s.log
  | .redeemedReset token _ began locked user => locked = user ∧ s.db.Redeems token began user
  | .changedReset token _ began user => s.db.Redeems token began user
  | .spentReset token _ began user spent => s.db.Redeems token began user ∧
    (∀ k ∈ spent, ∃ expires, .made k user expires ∈ s.log) ∧
    ∀ k row, s.db.resets.get k = some row → row.user = user → row.usedAt = none →
      k ∉ token :: spent → ¬Found token k s.log
  | .lockedKeys user => (s.db.present user).isSome
  | .countedKeys user | .createdKey user =>
    (s.db.present user).isSome ∧ s.db.keys.count (·.user = user) < maxApiKeys
  | .unkeyed user _ keys => ∀ k row, s.db.keys.get k = some row → row.user = user → k ∈ keys
  | .uncoded user _ keys codes =>
    (∀ k row, s.db.keys.get k = some row → row.user = user → k ∈ keys) ∧
    ∀ k row, s.db.confirmations.get k = some row → row.user = user → k ∈ codes
  | .unreset user _ keys codes resets => Clears s.db s.log user keys codes resets
  | .anonymised user _ keys codes resets _ =>
    (s.db.present user).isSome ∧ Clears s.db s.log user keys codes resets
  | _ => True

structure Inv (s : State) : Prop where
  locks : ∀ u, s.crowd.countP (·.account = some u) ≤ 1
  holds : ∀ p ∈ s.crowd, Holds s p
  locked_lt : ∀ p ∈ s.crowd, ∀ u, p.account = some u → u < s.drawn
  users_lt : ∀ u row, s.db.users.get u = some row → u < s.drawn
  keys_lt : ∀ k row, s.db.keys.get k = some row → k < s.drawn
  log_lt : ∀ e ∈ s.log, ∀ i ∈ e.ids, i < s.drawn
  registered : ∀ k row, s.db.confirmations.get k = some row → .registered row.user k ∈ s.log
  made : ∀ k row, s.db.resets.get k = some row → .made k row.user row.expiresAt ∈ s.log
  registered_unique : ∀ k u v, .registered u k ∈ s.log → .registered v k ∈ s.log → u = v
  made_unique : ∀ k u v e e', .made k u e ∈ s.log → .made k v e' ∈ s.log → u = v ∧ e = e'
  gone : ∀ u row, s.db.users.get u = some row → row.deletedAt ≠ none → Clears s.db s.log u [] [] []
  keys : ∀ u, s.db.keys.count (·.user = u) ≤ maxApiKeys

structure Ages (old row : Code) : Prop where
  user : row.user = old.user
  expiresAt : row.expiresAt = old.expiresAt
  usedAt : old.usedAt ≠ none → row.usedAt ≠ none

structure UserChanges (u : ℕ) (event : Option Event) (old row : User) : Prop where
  generation : row.sessionGeneration = old.sessionGeneration + revocations u event.toList
  deletedAt : row.deletedAt = none ↔ old.deletedAt = none ∧ event ≠ some (.deleted u)
  emailConfirmedAt : row.emailConfirmedAt ≠ none →
    old.emailConfirmedAt ≠ none ∨ ∃ code, event = some (.confirmed u code)

/-- What an event says of the database that it was committed in. -/
def Event.Fits (s : State) (db : Database) (drawn : ℕ) : Event → Prop
  | .registered user code => user = s.drawn ∧ code = s.drawn + 1 ∧ drawn = s.drawn + 2
  | .confirmed user code => .registered user code ∈ s.log
  | .made token user _ => token = s.drawn ∧ drawn = s.drawn + 1 ∧ (s.db.present user).isSome
  | .spending token user => ∃ began, s.db.Redeems token began user
  | .changed token user began time => s.db.Redeems token began user ∧ time = s.now ∧
    (∀ row, db.resets.get token = some row → row.usedAt ≠ none) ∧
    ∀ k row, db.resets.get k = some row → row.user = user → row.usedAt = none → ¬Found token k s.log
  | .signedOut user | .deleted user => user < s.drawn

structure Changes (s : State) (db : Database) (drawn : ℕ) (event : Option Event) : Prop where
  drawn_le : s.drawn ≤ drawn
  users : ∀ u row, db.users.get u = some row →
    (∃ old, s.db.users.get u = some old ∧ UserChanges u event old row) ∨
      event = some (.registered u (u + 1)) ∧ u = s.drawn ∧ drawn = u + 2 ∧
        row.sessionGeneration = 0 ∧ row.deletedAt = none ∧ row.emailConfirmedAt = none
  codes : ∀ k row, db.confirmations.get k = some row →
    (∃ old, s.db.confirmations.get k = some old ∧ Ages old row) ∨
      event = some (.registered row.user k) ∧ row.user = s.drawn
  resets : ∀ k row, db.resets.get k = some row →
    (∃ old, s.db.resets.get k = some old ∧ Ages old row) ∨
      event = some (.made k row.user row.expiresAt) ∧ (s.db.present row.user).isSome
  keys : ∀ k row, db.keys.get k = some row →
    (∃ old, s.db.keys.get k = some old ∧ old.user = row.user) ∨
      k = s.drawn ∧ s.drawn < drawn ∧ (s.db.present row.user).isSome
  count : ∀ u, s.db.keys.count (·.user = u) ≤ maxApiKeys → db.keys.count (·.user = u) ≤ maxApiKeys
  cleared : ∀ u, event = some (.deleted u) →
    (∀ k row, db.keys.get k = some row → row.user ≠ u) ∧
    (∀ k row, db.confirmations.get k = some row → row.user ≠ u) ∧
    ∀ k row, db.resets.get k = some row → row.user ≠ u
  fits : ∀ e ∈ event, e.Fits s db drawn

structure Untouched (s : State) (db : Database) (event : Option Event) (u : ℕ) (exclusive : Bool) :
    Prop where
  user : db.users.get u = s.db.users.get u
  keys : ∀ k row, db.keys.get k = some row → row.user = u →
    ∃ old, s.db.keys.get k = some old ∧ old.user = u
  count : db.keys.count (·.user = u) ≤ s.db.keys.count (·.user = u)
  codes : ∀ k row, db.confirmations.get k = some row → row.user = u →
    ∃ old, s.db.confirmations.get k = some old ∧ old.user = u
  resets_of : ∀ k row, s.db.resets.get k = some row → row.user = u → db.resets.get k = some row
  of_resets : ∀ k row, db.resets.get k = some row → row.user = u →
    s.db.resets.get k = some row ∨ exclusive = false ∧ s.drawn ≤ k
  spending : ∀ token, event ≠ some (.spending token u)

section Changes

variable {s : State} {db : Database} {drawn u v : ℕ} {event : Option Event} {old row : User}

theorem Ages.refl (row : Code) : Ages row row := ⟨rfl, rfl, id⟩

theorem UserChanges.refl (hrevoke : ∀ e ∈ event, e.revokes u = false) (row : User) :
    UserChanges u event row row where
  generation := by
    cases event with
    | none => rfl
    | some e => simp [revocations, hrevoke e rfl]
  deletedAt := by
    refine ⟨fun h ↦ ⟨h, ?_⟩, And.left⟩
    rintro rfl
    exact absurd (hrevoke _ rfl) (by simp [Event.revokes])
  emailConfirmedAt := .inl

theorem users_setUser {f : User → User} (hevent : ∀ e ∈ event, ∀ v, v ≠ u → e.revokes v = false)
    (h : ∀ row, s.db.users.get u = some row → UserChanges u event row (f row)) (v : ℕ) (row : User)
    (hrow : (s.db.setUser u f).users.get v = some row) :
    ∃ old, s.db.users.get v = some old ∧ UserChanges v event old row := by
  rw [get_setUser, Option.map_eq_some_iff] at hrow
  obtain ⟨old, hold, rfl⟩ := hrow
  refine ⟨old, hold, ?_⟩
  split
  · next hv =>
    subst hv
    exact h old hold
  · next hv => exact .refl (fun e he ↦ hevent e he v hv) old

theorem ages_spend {began : ℕ} {codes : List ℕ} {table : Table ℕ Code} {k : ℕ} {row : Code}
    (h : (spend began codes table).get k = some row) : ∃ old, table.get k = some old ∧
    Ages old row := by
  rw [get_spend, Option.map_eq_some_iff] at h
  obtain ⟨old, hold, rfl⟩ := h
  refine ⟨old, hold, ?_⟩
  split
  · exact ⟨rfl, rfl, fun _ ↦ Option.some_ne_none _⟩
  · exact .refl old

theorem of_retain {p : Code → Bool} {table : Table ℕ Code} {k : ℕ} {row : Code}
    (h : (table.retain p).get k = some row) : table.get k = some row := by
  rw [Table.get_retain, Option.filter_eq_some_iff] at h
  exact h.1

theorem of_filter {κ ρ : Type} [DecidableEq κ] {table : Table κ ρ} {p : κ → Bool} {k : κ} {row : ρ}
    (h : (table.filter p).get k = some row) : p k = true ∧ table.get k = some row := by
  rw [Table.get_filter, Option.ite_none_right_eq_some] at h
  exact h

theorem Changes.of_less (hdrawn : s.drawn ≤ drawn)
    (husers : ∀ u row, db.users.get u = some row → s.db.users.get u = some row)
    (hcodes : ∀ k row, db.confirmations.get k = some row → s.db.confirmations.get k = some row)
    (hresets : ∀ k row, db.resets.get k = some row → s.db.resets.get k = some row)
    (hkeys : ∀ k row, db.keys.get k = some row → ∃ old, s.db.keys.get k = some old ∧
      old.user = row.user)
    (hcount : ∀ u, db.keys.count (·.user = u) ≤ s.db.keys.count (·.user = u))
    (hevent : ∀ e ∈ event, (∀ u, e.revokes u = false) ∧ e.Fits s db drawn) :
    Changes s db drawn event where
  drawn_le := hdrawn
  users u row h := .inl ⟨row, husers u row h, .refl (fun e he ↦ (hevent e he).1 u) row⟩
  codes k row h := .inl ⟨row, hcodes k row h, .refl row⟩
  resets k row h := .inl ⟨row, hresets k row h, .refl row⟩
  keys k row h := .inl (hkeys k row h)
  count u h := (hcount u).trans h
  cleared u he := by
    subst he
    exact absurd ((hevent _ rfl).1 u) (by simp [Event.revokes])
  fits e he := (hevent e he).2

theorem changes_release (ids : List ℕ) : Changes s (s.db.release ids) s.drawn none :=
  .of_less (Nat.le_refl _) (fun _ _ h ↦ (of_filter h).2) (fun _ _ ↦ of_retain) (fun _ _ ↦ of_retain)
    (fun k row h ↦ by
      rw [Database.release, Table.get_retain, Option.filter_eq_some_iff] at h
      exact ⟨row, h.1, rfl⟩)
    (fun _ ↦ Table.count_retain_le (q := fun row : ApiKey ↦ decide (row.user ∉ ids))) nofun

theorem changes_register (r : Registration) (expires : ℕ) :
    Changes s (s.db.register s.drawn (s.drawn + 1) r expires) (s.drawn + 2)
      (some (.registered s.drawn (s.drawn + 1))) where
  drawn_le := Nat.le_add_right ..
  users u row hrow := by
    by_cases hu : u = s.drawn
    · subst hu
      rw [Database.register, Table.get_put_self, Option.some.injEq] at hrow
      subst hrow
      exact .inr ⟨rfl, rfl, rfl, rfl, rfl, rfl⟩
    · rw [Database.register, Table.get_put_of_ne hu] at hrow
      exact .inl ⟨row, hrow, .refl (by rintro e ⟨⟩; rfl) row⟩
  codes k row hrow := by
    by_cases hk : k = s.drawn + 1
    · subst hk
      rw [Database.register, Table.get_put_self, Option.some.injEq] at hrow
      subst hrow
      exact .inr ⟨rfl, rfl⟩
    · rw [Database.register, Table.get_put_of_ne hk] at hrow
      exact .inl ⟨row, hrow, .refl row⟩
  resets k row hrow := .inl ⟨row, hrow, .refl row⟩
  keys k row hrow := .inl ⟨row, hrow, rfl⟩
  count _ := id
  cleared := nofun
  fits := by
    rintro e ⟨⟩
    exact ⟨rfl, rfl, rfl⟩

theorem changes_confirm {code began : ℕ} (h : .registered u code ∈ s.log) :
    Changes s (s.db.confirm u code began) s.drawn (some (.confirmed u code)) where
  drawn_le := Nat.le_refl _
  users v row hrow := .inl (users_setUser (by rintro e ⟨⟩ v -; rfl)
    (fun old _ ↦ ⟨rfl, by simp, fun _ ↦ .inr ⟨code, rfl⟩⟩) v row hrow)
  codes k row hrow := .inl (ages_spend hrow)
  resets k row hrow := .inl ⟨row, hrow, .refl row⟩
  keys k row hrow := .inl ⟨row, hrow, rfl⟩
  count _ := id
  cleared := nofun
  fits := by
    rintro e ⟨⟩
    exact h

theorem changes_makeReset (expires : ℕ) (hpresent : (s.db.present u).isSome) :
    Changes s (s.db.makeReset u s.drawn expires) (s.drawn + 1)
    (some (.made s.drawn u expires)) where
  drawn_le := Nat.le_succ _
  users v row hrow := .inl ⟨row, hrow, .refl (by rintro e ⟨⟩; rfl) row⟩
  codes k row hrow := .inl ⟨row, hrow, .refl row⟩
  resets k row hrow := by
    by_cases hk : k = s.drawn
    · subst hk
      rw [Database.makeReset, Table.get_put_self, Option.some.injEq] at hrow
      subst hrow
      exact .inr ⟨rfl, hpresent⟩
    · rw [Database.makeReset, Table.get_put_of_ne hk] at hrow
      exact .inl ⟨row, hrow, .refl row⟩
  keys k row hrow := .inl ⟨row, hrow, rfl⟩
  count _ := id
  cleared := nofun
  fits := by
    rintro e ⟨⟩
    exact ⟨rfl, rfl, hpresent⟩

theorem changes_resetPassword {token began : ℕ} {passwordHash : Text} {spent : List ℕ}
    (h : Holds s (.spentReset token passwordHash began u spent)) :
    Changes s (s.db.resetPassword u token passwordHash began spent) s.drawn
      (some (.changed token u began s.now)) where
  drawn_le := Nat.le_refl _
  users v row hrow := by
    refine .inl (users_setUser ?_ (fun old hold ↦ ?_) v row hrow)
    · rintro e ⟨⟩ v hv
      simpa [Event.revokes] using Ne.symm hv
    · obtain ⟨old', hold'⟩ := Option.isSome_iff_exists.1 h.1.present
      rw [present_eq_some, hold, Option.some.injEq] at hold'
      obtain ⟨rfl, hdeleted⟩ := hold'
      rw [if_pos hdeleted]
      exact ⟨by simp [revocations, Event.revokes], by simp, .inl⟩
  codes k row hrow := .inl ⟨row, hrow, .refl row⟩
  resets k row hrow := .inl (ages_spend hrow)
  keys k row hrow := .inl ⟨row, hrow, rfl⟩
  count _ := id
  cleared := nofun
  fits := by
    rintro e ⟨⟩
    refine ⟨h.1, rfl, fun row hrow ↦ ?_, fun k row hrow huser hunspent ↦ ?_⟩
    · rw [Database.resetPassword, get_spend, Option.map_eq_some_iff] at hrow
      obtain ⟨old, -, rfl⟩ := hrow
      rw [if_pos List.mem_cons_self]
      exact Option.some_ne_none _
    · rw [Database.resetPassword, get_spend, Option.map_eq_some_iff] at hrow
      obtain ⟨old, hold, rfl⟩ := hrow
      split at huser
      · next hk => simp [hk] at hunspent
      · next hk => exact h.2.2 k old hold huser (by simpa [hk] using hunspent) hk

theorem changes_signOut (hu : u < s.drawn) :
    Changes s (s.db.signOut u) s.drawn (some (.signedOut u)) where
  drawn_le := Nat.le_refl _
  users v row hrow := by
    refine .inl (users_setUser ?_ (fun old _ ↦ ?_) v row hrow)
    · rintro e ⟨⟩ v hv
      simpa [Event.revokes] using Ne.symm hv
    · exact ⟨by simp [revocations, Event.revokes], by simp, .inl⟩
  codes k row hrow := .inl ⟨row, hrow, .refl row⟩
  resets k row hrow := .inl ⟨row, hrow, .refl row⟩
  keys k row hrow := .inl ⟨row, hrow, rfl⟩
  count _ := id
  cleared := nofun
  fits := by
    rintro e ⟨⟩
    exact hu

theorem Inv.keys_none (h : Inv s) : s.db.keys.get s.drawn = none := by
  by_contra hsome
  obtain ⟨row, hrow⟩ := Option.ne_none_iff_exists'.1 hsome
  exact Nat.lt_irrefl _ (h.keys_lt _ row hrow)

theorem changes_createKey (h : Inv s) (hp : Holds s (.createdKey u)) :
    Changes s (s.db.createKey u s.drawn) (s.drawn + 1) none where
  drawn_le := Nat.le_succ _
  users v row hrow := .inl ⟨row, hrow, .refl (by rintro e ⟨⟩) row⟩
  codes k row hrow := .inl ⟨row, hrow, .refl row⟩
  resets k row hrow := .inl ⟨row, hrow, .refl row⟩
  keys k row hrow := by
    by_cases hk : k = s.drawn
    · subst hk
      rw [Database.createKey, Table.get_put_self, Option.some.injEq] at hrow
      subst hrow
      exact .inr ⟨rfl, Nat.lt_succ_self _, hp.1⟩
    · rw [Database.createKey, Table.get_put_of_ne hk] at hrow
      exact .inl ⟨row, hrow, rfl⟩
  count v hv := by
    have hcount := Table.count_put (t := s.db.keys) (k := s.drawn) (r := ⟨u, true⟩)
      (p := fun row : ApiKey ↦ decide (row.user = v))
    rw [h.keys_none, Option.any_none, Bool.toNat_false, Nat.add_zero] at hcount
    rw [Database.createKey, hcount]
    by_cases huv : u = v
    · subst huv
      simpa using Nat.succ_le_of_lt hp.2
    · simpa [huv] using hv
  cleared := nofun
  fits := nofun

theorem changes_setKeyActive (key : ℕ) (active : Bool) :
    Changes s (s.db.setKeyActive key active) s.drawn none := by
  refine .of_less (Nat.le_refl _) (fun _ _ ↦ id) (fun _ _ ↦ id) (fun _ _ ↦ id) (fun k row hrow ↦ ?_)
    (fun u ↦ le_of_eq (Table.count_update (p := fun row : ApiKey ↦ decide (row.user = u)) ?_)) nofun
  · rw [Database.setKeyActive, Table.get_update, Option.map_eq_some_iff] at hrow
    obtain ⟨old, hold, rfl⟩ := hrow
    refine ⟨old, hold, ?_⟩
    split <;> rfl
  · intro k row
    split <;> rfl

theorem changes_revokeKey (key : ℕ) : Changes s (s.db.revokeKey key) s.drawn none :=
  .of_less (Nat.le_refl _) (fun _ _ ↦ id) (fun _ _ ↦ id) (fun _ _ ↦ id)
    (fun _ row hrow ↦ ⟨row, (of_filter hrow).2, rfl⟩)
    (fun _ ↦ Table.count_filter_le (q := fun k ↦ decide (k ≠ key))) nofun

theorem changes_anonymise {began : ℕ} {keys codes resets : List ℕ} {name : Text × Text}
    (hu : u < s.drawn) (h : Holds s (.anonymised u began keys codes resets name)) :
    Changes s (s.db.anonymise u began keys codes resets name) s.drawn (some (.deleted u)) where
  drawn_le := Nat.le_refl _
  users v row hrow := by
    refine .inl (users_setUser ?_ (fun old hold ↦ ?_) v row hrow)
    · rintro e ⟨⟩ v hv
      simpa [Event.revokes] using Ne.symm hv
    · obtain ⟨old', hold'⟩ := Option.isSome_iff_exists.1 h.1
      rw [present_eq_some, hold, Option.some.injEq] at hold'
      obtain ⟨rfl, hdeleted⟩ := hold'
      rw [if_pos hdeleted]
      exact ⟨by simp [revocations, Event.revokes], by simp, fun hne ↦ absurd rfl hne⟩
  codes k row hrow := .inl ⟨row, (of_filter hrow).2, .refl row⟩
  resets k row hrow := .inl ⟨row, (of_filter hrow).2, .refl row⟩
  keys k row hrow := .inl ⟨row, (of_filter hrow).2, rfl⟩
  count v := (Table.count_filter_le).trans
  cleared v hv := by
    cases hv
    have hnot {l : List ℕ} {k : ℕ} (hk : decide (k ∉ l) = true) : k ∉ l := of_decide_eq_true hk
    refine ⟨fun k row hrow huser ↦ ?_, fun k row hrow huser ↦ ?_, fun k row hrow huser ↦ ?_⟩
    · exact hnot (of_filter hrow).1 (h.2.mem_keys k row (of_filter hrow).2 huser)
    · exact hnot (of_filter hrow).1 (h.2.mem_codes k row (of_filter hrow).2 huser)
    · exact hnot (of_filter hrow).1 (h.2.mem_resets k row (of_filter hrow).2 huser)
  fits := by
    rintro e ⟨⟩
    exact hu

theorem changes_grant (u : ℕ) : Changes s (s.db.grant u) s.drawn none where
  drawn_le := Nat.le_refl _
  users v row hrow := by
    refine .inl (users_setUser (by rintro e ⟨⟩) (fun old _ ↦ ?_) v row hrow)
    exact ⟨rfl, by simp, .inl⟩
  codes k row hrow := .inl ⟨row, hrow, .refl row⟩
  resets k row hrow := .inl ⟨row, hrow, .refl row⟩
  keys k row hrow := .inl ⟨row, hrow, rfl⟩
  count _ := id
  cleared := nofun
  fits := nofun

variable {texts : Texts} {others : Multiset Stage} {p : Stage}

theorem changes_of_effect (h : Inv s) (hp : p ∈ s.crowd)
    (heff : Effect texts s others p db drawn event) :
    Changes s db drawn event := by
  have hholds := h.holds p hp
  cases heff with
  | quiet hn =>
    exact .of_less hn (fun _ _ ↦ id) (fun _ _ ↦ id) (fun _ _ ↦ id)
      (fun _ row hrow ↦ ⟨row, hrow, rfl⟩)
      (fun _ ↦ Nat.le_refl _) nofun
  | spending =>
    refine .of_less (Nat.le_refl _) (fun _ _ ↦ id) (fun _ _ ↦ id) (fun _ _ ↦ id)
      (fun _ row hrow ↦ ⟨row, hrow, rfl⟩) (fun _ ↦ Nat.le_refl _) ?_
    rintro e ⟨⟩
    exact ⟨fun _ ↦ rfl, _, hholds⟩
  | release hfree => exact changes_release _
  | register => exact changes_register _ _
  | confirm => exact changes_confirm hholds
  | makeReset hpresent hshared => exact changes_makeReset _ hpresent
  | resetPassword => exact changes_resetPassword hholds
  | signOut => exact changes_signOut (h.locked_lt _ hp _ rfl)
  | createKey => exact changes_createKey h hholds
  | setKeyActive => exact changes_setKeyActive _ _
  | revokeKey => exact changes_revokeKey _
  | anonymise => exact changes_anonymise (h.locked_lt _ hp _ rfl) hholds

end Changes

section Untouched

variable {texts : Texts} {s : State} {p q : Stage} {db : Database} {drawn u v : ℕ}
  {event : Option Event}

theorem Inv.account_ne (h : Inv s) (hp : p ∈ s.crowd) (hq : q ∈ s.crowd.erase p)
    (hu : q.account = some u) : p.account ≠ some u :=
  fun hpu ↦ not_of_mem_erase hp (h.locks u) hpu hq hu

theorem Inv.user_of_made {k expires : ℕ} {row : Code} (h : Inv s)
    (hrow : s.db.resets.get k = some row) (hmade : .made k v expires ∈ s.log) : row.user = v :=
  (h.made_unique k _ _ _ _ (h.made k row hrow) hmade).1

theorem Untouched.of_resets_iff {exclusive : Bool} (huser : db.users.get u = s.db.users.get u)
    (hkeys : ∀ k row, db.keys.get k = some row → row.user = u →
      ∃ old, s.db.keys.get k = some old ∧ old.user = u)
    (hcount : db.keys.count (·.user = u) ≤ s.db.keys.count (·.user = u))
    (hcodes : ∀ k row, db.confirmations.get k = some row → row.user = u →
      ∃ old, s.db.confirmations.get k = some old ∧ old.user = u)
    (hresets : ∀ k row, row.user = u → (db.resets.get k = some row ↔ s.db.resets.get k = some row))
    (hspending : ∀ token, event ≠ some (.spending token u)) :
    Untouched s db event u exclusive where
  user := huser
  keys := hkeys
  count := hcount
  codes := hcodes
  resets_of k row hrow hu := (hresets k row hu).2 hrow
  of_resets k row hrow hu := .inl ((hresets k row hu).1 hrow)
  spending := hspending

theorem get_spend_of_made {k token began expires : ℕ} {spent : List ℕ} {row : Code} (h : Inv s)
    (htoken : .made token v expires ∈ s.log)
    (hspent : ∀ k ∈ spent, ∃ expires, .made k v expires ∈ s.log)
    (hne : v ≠ u) (hu : row.user = u) :
    (spend began (token :: spent) s.db.resets).get k = some row ↔ s.db.resets.get k = some row := by
  have hnot : ∀ old, s.db.resets.get k = some old → old.user = u → k ∉ token :: spent := by
    intro old hold huser hk
    rcases List.mem_cons.1 hk with rfl | hk
    · exact hne ((h.user_of_made hold htoken).symm.trans huser)
    · obtain ⟨_, hmade⟩ := hspent k hk
      exact hne ((h.user_of_made hold hmade).symm.trans huser)
  rw [get_spend, Option.map_eq_some_iff]
  constructor
  · rintro ⟨old, hold, rfl⟩
    have huser : old.user = u := by
      rw [← hu]
      split <;> rfl
    rwa [if_neg (hnot old hold huser)]
  · intro hrow
    exact ⟨row, hrow, if_neg (hnot row hrow hu)⟩

theorem untouched_release {ids : List ℕ} (hu : u ∉ ids) (exclusive : Bool) :
    Untouched s (s.db.release ids) none u exclusive := by
  refine .of_resets_iff ?_ (fun k row hrow huser ↦ ?_)
    (Table.count_retain_le (q := fun row : ApiKey ↦ decide (row.user ∉ ids)))
    (fun k row hrow huser ↦ ⟨row, of_retain hrow, huser⟩) (fun k row huser ↦ ?_) nofun
  · rw [Database.release, Table.get_filter, if_pos (decide_eq_true hu)]
  · rw [Database.release, Table.get_retain, Option.filter_eq_some_iff] at hrow
    exact ⟨row, hrow.1, huser⟩
  · rw [Database.release, Table.get_retain, Option.filter_eq_some_iff, huser]
    exact and_iff_left (decide_eq_true hu)

theorem untouched_register {r : Registration} {expires : ℕ} (hu : u < s.drawn) (exclusive : Bool) :
    Untouched s (s.db.register s.drawn (s.drawn + 1) r expires)
      (some (.registered s.drawn (s.drawn + 1))) u exclusive := by
  refine .of_resets_iff (Table.get_put_of_ne hu.ne) (fun k row hrow huser ↦ ⟨row, hrow, huser⟩)
    (Nat.le_refl _) (fun k row hrow huser ↦ ?_) (fun k row _ ↦ Iff.rfl) nofun
  by_cases hk : k = s.drawn + 1
  · subst hk
    rw [Database.register, Table.get_put_self, Option.some.injEq] at hrow
    subst hrow
    exact absurd huser hu.ne'
  · rw [Database.register, Table.get_put_of_ne hk] at hrow
    exact ⟨row, hrow, huser⟩

theorem untouched_confirm {code began : ℕ} (hne : v ≠ u) (exclusive : Bool) :
    Untouched s (s.db.confirm v code began) (some (.confirmed v code)) u exclusive := by
  refine .of_resets_iff (get_setUser_of_ne hne.symm) (fun k row hrow huser ↦ ⟨row, hrow, huser⟩)
    (Nat.le_refl _) (fun k row hrow huser ↦ ?_) (fun k row _ ↦ Iff.rfl) nofun
  obtain ⟨old, hold, hages⟩ := ages_spend hrow
  exact ⟨old, hold, hages.user.symm.trans huser⟩

theorem untouched_makeReset {expires : ℕ} {exclusive : Bool} (h : Inv s)
    (hshared : u = v → exclusive = false) :
    Untouched s (s.db.makeReset v s.drawn expires) (some (.made s.drawn v expires)) u
    exclusive where
  user := rfl
  keys k row hrow huser := ⟨row, hrow, huser⟩
  count := Nat.le_refl _
  codes k row hrow huser := ⟨row, hrow, huser⟩
  resets_of k row hrow _ := by
    have hlt : k < s.drawn := h.log_lt _ (h.made k row hrow) k (by simp [Event.ids])
    rwa [Database.makeReset, Table.get_put_of_ne hlt.ne]
  of_resets k row hrow huser := by
    by_cases hk : k = s.drawn
    · subst hk
      rw [Database.makeReset, Table.get_put_self, Option.some.injEq] at hrow
      subst hrow
      exact .inr ⟨hshared huser.symm, Nat.le_refl _⟩
    · rw [Database.makeReset, Table.get_put_of_ne hk] at hrow
      exact .inl hrow
  spending := nofun

theorem untouched_resetPassword {token began : ℕ} {passwordHash : Text} {spent : List ℕ} (h : Inv s)
    (hp : Holds s (.spentReset token passwordHash began v spent)) (hne : v ≠ u) (exclusive : Bool) :
    Untouched s (s.db.resetPassword v token passwordHash began spent)
      (some (.changed token v began s.now)) u exclusive := by
  obtain ⟨row, hrow, rfl, -, -⟩ := hp.1.unspent
  exact .of_resets_iff (get_setUser_of_ne hne.symm) (fun k row hrow huser ↦ ⟨row, hrow, huser⟩)
    (Nat.le_refl _) (fun k row hrow huser ↦ ⟨row, hrow, huser⟩)
    (fun k row' hu ↦ get_spend_of_made h (h.made token row hrow) hp.2.1 hne hu) nofun

theorem untouched_setUser {f : User → User} (hne : v ≠ u)
    (hspending : ∀ token, event ≠ some (.spending token u)) (exclusive : Bool) :
    Untouched s (s.db.setUser v f) event u exclusive :=
  .of_resets_iff (get_setUser_of_ne hne.symm) (fun _ row hrow huser ↦ ⟨row, hrow, huser⟩)
    (Nat.le_refl _) (fun _ row hrow huser ↦ ⟨row, hrow, huser⟩) (fun _ _ _ ↦ Iff.rfl) hspending

theorem untouched_createKey {key : ℕ} (hnone : s.db.keys.get key = none) (hne : v ≠ u)
    (exclusive : Bool) :
    Untouched s (s.db.createKey v key) none u exclusive := by
  refine .of_resets_iff rfl (fun k row hrow huser ↦ ?_) ?_
    (fun k row hrow huser ↦ ⟨row, hrow, huser⟩) (fun k row _ ↦ Iff.rfl) nofun
  · by_cases hk : k = key
    · subst hk
      rw [Database.createKey, Table.get_put_self, Option.some.injEq] at hrow
      subst hrow
      exact absurd huser hne
    · rw [Database.createKey, Table.get_put_of_ne hk] at hrow
      exact ⟨row, hrow, huser⟩
  · have hcount := Table.count_put (t := s.db.keys) (k := key) (r := ⟨v, true⟩)
      (p := fun row : ApiKey ↦ decide (row.user = u))
    rw [hnone, Option.any_none, Bool.toNat_false, Nat.add_zero] at hcount
    rw [Database.createKey, hcount]
    simp [hne]

theorem untouched_anonymise {began : ℕ} {keys codes resets : List ℕ}
    {name : Text × Text} (h : Inv s) (hp : Clears s.db s.log v keys codes resets) (hne : v ≠ u)
    (exclusive : Bool) :
    Untouched s (s.db.anonymise v began keys codes resets name)
    (some (.deleted v)) u exclusive := by
  refine .of_resets_iff (get_setUser_of_ne hne.symm)
    (fun k row hrow huser ↦ ⟨row, (of_filter hrow).2, huser⟩)
    (Table.count_filter_le (q := fun k ↦ decide (k ∉ keys)))
    (fun k row hrow huser ↦ ⟨row, (of_filter hrow).2, huser⟩) (fun k row huser ↦ ?_) nofun
  rw [Database.anonymise, Table.get_filter, Option.ite_none_right_eq_some]
  refine and_iff_right_of_imp fun hrow ↦ decide_eq_true fun hk ↦ ?_
  obtain ⟨_, hmade⟩ := hp.own k hk
  exact hne ((h.user_of_made hrow hmade).symm.trans huser)

theorem untouched_of_effect (h : Inv s) (hp : p ∈ s.crowd) (hq : q ∈ s.crowd.erase p)
    (hu : q.account = some u) (heff : Effect texts s (s.crowd.erase p) p db drawn event) :
    Untouched s db event u q.exclusive := by
  have hholds := h.holds p hp
  have hne := h.account_ne hp hq hu
  have hother {v : ℕ} (hv : p.account = some v) : v ≠ u := fun heq ↦ hne (heq ▸ hv)
  cases heff with
  | quiet hn =>
    exact .of_resets_iff rfl (fun _ row hrow huser ↦ ⟨row, hrow, huser⟩) (Nat.le_refl _)
      (fun _ row hrow huser ↦ ⟨row, hrow, huser⟩) (fun _ _ _ ↦ Iff.rfl) nofun
  | spending =>
    refine .of_resets_iff rfl (fun _ row hrow huser ↦ ⟨row, hrow, huser⟩) (Nat.le_refl _)
      (fun _ row hrow huser ↦ ⟨row, hrow, huser⟩) (fun _ _ _ ↦ Iff.rfl) ?_
    rintro token ⟨⟩
    exact hne rfl
  | release hfree => exact untouched_release (fun hmem ↦ hfree u hmem q hq hu) _
  | register =>
    exact untouched_register (h.locked_lt q (Multiset.mem_of_mem_erase hq) u hu) _
  | confirm => exact untouched_confirm (hother rfl) _
  | makeReset hpresent hshared =>
    exact untouched_makeReset h fun heq ↦ hshared q hq (heq ▸ hu)
  | resetPassword => exact untouched_resetPassword h hholds (hother rfl) _
  | signOut => exact untouched_setUser (hother rfl) (by rintro token ⟨⟩) _
  | createKey => exact untouched_createKey h.keys_none (hother rfl) _
  | setKeyActive =>
    refine .of_resets_iff rfl (fun k row hrow huser ↦ ?_) (le_of_eq (Table.count_update
      (p := fun row : ApiKey ↦ decide (row.user = u)) fun k row ↦ by split <;> rfl))
      (fun _ row hrow huser ↦ ⟨row, hrow, huser⟩) (fun _ _ _ ↦ Iff.rfl) nofun
    rw [Database.setKeyActive, Table.get_update, Option.map_eq_some_iff] at hrow
    obtain ⟨old, hold, rfl⟩ := hrow
    refine ⟨old, hold, ?_⟩
    rw [← huser]
    split <;> rfl
  | @revokeKey key =>
    exact .of_resets_iff rfl (fun k row hrow huser ↦ ⟨row, (of_filter hrow).2, huser⟩)
      (Table.count_filter_le (q := fun k ↦ decide (k ≠ key)))
      (fun _ row hrow huser ↦ ⟨row, hrow, huser⟩) (fun _ _ _ ↦ Iff.rfl) nofun
  | anonymise => exact untouched_anonymise h hholds.2 (hother rfl) _

end Untouched

end Birdtest.Auth
