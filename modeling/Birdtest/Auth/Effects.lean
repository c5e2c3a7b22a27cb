import Birdtest.Auth.Requests

namespace Birdtest.Auth

open Birdtest.Base.Crowd Birdtest.Base.Runs Birdtest.Base.Tables
open Birdtest.Jobs.Racks (Text)

variable {texts : Texts} {s t : State} {others : Multiset Stage} {p q : Stage} {o : Outcome} {u : ℕ}

/-- What a request's statement does to the committed database: nothing, or what its transaction has
written. -/
inductive Effect (texts : Texts) (s : State) (others : Multiset Stage) :
    Stage → Database → ℕ → Option Event → Prop
  | quiet {p : Stage} {n : ℕ} (hn : s.drawn ≤ n) : Effect texts s others p s.db n none
  | spending {token : ℕ} {passwordHash : Text} {began user : ℕ} :
      Effect texts s others (.changedReset token passwordHash began user) s.db s.drawn
        (some (.spending token user))
  | release {r : Registration} {began : ℕ} {found : List ℕ}
      (hfree : ∀ user ∈ s.db.outdated texts.lower r found, FreeAccount others user) :
      Effect texts s others (.releasing r began found)
        (s.db.release (s.db.outdated texts.lower r found)) s.drawn none
  | register {r : Registration} {expires : ℕ} :
      Effect texts s others (.coded r expires) (s.db.register s.drawn (s.drawn + 1) r expires)
        (s.drawn + 2) (some (.registered s.drawn (s.drawn + 1)))
  | confirm {code began user : ℕ} :
      Effect texts s others (.confirmed code began user) (s.db.confirm user code began) s.drawn
        (some (.confirmed user code))
  | makeReset {user expires : ℕ} (hpresent : (s.db.present user).isSome)
      (hshared : ∀ p ∈ others, p.account = some user → p.exclusive = false) :
      Effect texts s others (.mailing user expires) (s.db.makeReset user s.drawn expires)
        (s.drawn + 1) (some (.made s.drawn user expires))
  | resetPassword {token : ℕ} {passwordHash : Text} {began user : ℕ} {spent : List ℕ} :
      Effect texts s others (.spentReset token passwordHash began user spent)
        (s.db.resetPassword user token passwordHash began spent) s.drawn
        (some (.changed token user began s.now))
  | signOut {user : ℕ} :
      Effect texts s others (.signedOut user) (s.db.signOut user) s.drawn (some (.signedOut user))
  | createKey {user : ℕ} :
      Effect texts s others (.createdKey user) (s.db.createKey user s.drawn) (s.drawn + 1) none
  | setKeyActive {key : ℕ} {active : Bool} :
      Effect texts s others (.changedKey key active) (s.db.setKeyActive key active) s.drawn none
  | revokeKey {key : ℕ} : Effect texts s others (.revokedKey key) (s.db.revokeKey key) s.drawn none
  | anonymise {user began : ℕ} {keys codes resets : List ℕ} {name : Text × Text} :
      Effect texts s others (.anonymised user began keys codes resets name)
        (s.db.anonymise user began keys codes resets name) s.drawn (some (.deleted user))

theorem effect_of_advance (h : advance texts s others p = some o) :
    Effect texts s others p o.db o.drawn o.event := by
  cases p with
  | releasing r began found =>
    simp only [advance, Option.ite_none_right_eq_some] at h
    obtain ⟨⟨hfree, -, -⟩, h⟩ := h
    cases h
    exact .release hfree
  | coded r expires =>
    cases h
    exact .register
  | confirmed code began user =>
    cases h
    exact .confirm
  | mailing user expires =>
    simp only [advance] at h
    split at h
    · next hpresent =>
      simp only [Option.ite_none_right_eq_some] at h
      obtain ⟨hshared, h⟩ := h
      cases h
      exact .makeReset hpresent hshared
    · cases h
      exact .quiet (Nat.le_refl _)
  | changedReset token passwordHash began user =>
    cases h
    exact .spending
  | spentReset token passwordHash began user spent =>
    cases h
    exact .resetPassword
  | signedOut user =>
    cases h
    exact .signOut
  | createdKey user =>
    cases h
    exact .createKey
  | changedKey key active =>
    cases h
    exact .setKeyActive
  | revokedKey key =>
    cases h
    exact .revokeKey
  | unreset user began keys codes resets =>
    simp only [advance] at h
    split at h
    · simp only [Option.ite_none_right_eq_some] at h
      obtain ⟨-, h⟩ := h
      cases h
      exact .quiet (Nat.le_succ _)
    · cases h
      exact .quiet (Nat.le_refl _)
  | anonymised user began keys codes resets name =>
    cases h
    exact .anonymise
  | _ =>
    simp only [advance] at h
    repeat' split at h
    all_goals
      cases h
      try exact .quiet (Nat.le_refl _)

inductive Goes (texts : Texts) (s : State) (others : Multiset Stage) : Stage → Outcome → Prop
  | registering {r : Registration} :
      Goes texts s others (.registering r)
      (s.goesTo (.releasing r s.now (s.db.stale texts.lower s.now r)))
  | releasing {r : Registration} {began : ℕ} {found : List ℕ} :
      Goes texts s others (.releasing r began found)
        { s.goesTo (.checking r) with db := s.db.release (s.db.outdated texts.lower r found) }
  | checking {r : Registration} (htaken : s.db.usernameTaken texts.lower r = false) :
      Goes texts s others (.checking r) (s.goesTo (.hashing r (s.db.emailTaken r)))
  | hashing {r : Registration} {emailTaken : Bool} :
      Goes texts s others (.hashing r emailTaken) (s.goesTo (.inserting r))
  | inserting {r : Registration}
      (hname : Unused (texts.lower ·.1) s.db others none (r.username, r.email))
      (hemail : Unused (·.2) s.db others none (r.username, r.email)) :
      Goes texts s others (.inserting r) (s.goesTo (.inserted r))
  | inserted {r : Registration} :
      Goes texts s others (.inserted r) (s.goesTo (.coded r (s.now + confirmationTtl)))
  | confirming {code began : ℕ} {row : Code} (hrow : s.db.confirmations.get code = some row)
      (hfree : FreeAccount others row.user) :
      Goes texts s others (.confirming code began)
      (s.goesTo (.redeeming code began (some row.user)))
  | confirmingNone {code began : ℕ} :
      Goes texts s others (.confirming code began) (s.goesTo (.redeeming code began none))
  | redeeming {code began : ℕ} {locked : Option ℕ} {row : Code}
      (hrow : s.db.confirmations.get code = some row) :
      Goes texts s others (.redeeming code began locked)
      (s.goesTo (.redeemed code began locked row.user))
  | redeemed {code began user : ℕ} {locked : Option ℕ} (hfree : FreeAccount others user) :
      Goes texts s others (.redeemed code began locked user) (s.goesTo (.confirmed code began user))
  | loggingIn {name : Text} {user : ℕ} {row : User}
      (hfound : s.db.accountOf texts.lower name = some (user, row)) :
      Goes texts s others (.loggingIn name)
        (s.goesTo (.verifying ⟨user, row.sessionGeneration⟩ row.emailConfirmedAt.isSome s.log))
  | requesting {email : Text} {user : ℕ} :
      Goes texts s others (.requesting email) (s.goesTo (.drawing user))
  | drawing {user : ℕ} :
      Goes texts s others (.drawing user) (s.goesTo (.mailing user (s.now + resetTtl)))
  | resetting {token : ℕ} {passwordHash : Text} :
      Goes texts s others (.resetting token passwordHash) (s.goesTo (.rehashing token passwordHash))
  | rehashing {token : ℕ} {passwordHash : Text} :
      Goes texts s others (.rehashing token passwordHash)
      (s.goesTo (.lockingReset token passwordHash s.now))
  | lockingReset {token began : ℕ} {passwordHash : Text} {row : Code}
      (hrow : s.db.resets.get token = some row) (hpresent : (s.db.present row.user).isSome)
      (hfree : FreeAccount others row.user) :
      Goes texts s others (.lockingReset token passwordHash began)
        (s.goesTo (.lockedReset token passwordHash began row.user))
  | lockedReset {token began locked : ℕ} {passwordHash : Text} {row : Code}
      (hrow : s.db.resets.get token = some row) (hlive : row.live began = true) :
      Goes texts s others (.lockedReset token passwordHash began locked)
        (s.goesTo (.redeemedReset token passwordHash began locked row.user))
  | redeemedReset {token began locked user : ℕ} {passwordHash : Text}
      (hfree : FreeAccount others user) :
      Goes texts s others (.redeemedReset token passwordHash began locked user)
        (s.goesTo (.changedReset token passwordHash began user))
  | changedReset {token began user : ℕ} {passwordHash : Text} :
      Goes texts s others (.changedReset token passwordHash began user)
        { s.goesTo (.spentReset token passwordHash began user
          ((s.db.unspentOf user).filter (· ≠ token))) with event := some (.spending token user) }
  | signingOut {user : ℕ} (hsome : (s.db.users.get user).isSome) (hfree : FreeAccount others user) :
      Goes texts s others (.signingOut user) (s.goesTo (.signedOut user))
  | creatingKey {user : ℕ} (hpresent : (s.db.present user).isSome)
      (hfree : FreeAccount others user) :
      Goes texts s others (.creatingKey user) (s.goesTo (.lockedKeys user))
  | lockedKeys {user : ℕ} (hlt : s.db.keys.count (·.user = user) < maxApiKeys) :
      Goes texts s others (.lockedKeys user) (s.goesTo (.countedKeys user))
  | countedKeys {user : ℕ} : Goes texts s others (.countedKeys user) (s.goesTo (.createdKey user))
  | changingKey {user key : ℕ} {active : Bool} :
      Goes texts s others (.changingKey user key active) (s.goesTo (.changedKey key active))
  | revokingKey {user key : ℕ} :
      Goes texts s others (.revokingKey user key) (s.goesTo (.revokedKey key))
  | deleting {user began : ℕ} (hsome : (s.db.users.get user).isSome)
      (hfree : FreeAccount others user) :
      Goes texts s others (.deleting user began) (s.goesTo (.lockedDelete user began))
  | lockedDelete {user began : ℕ} :
      Goes texts s others (.lockedDelete user began)
      (s.goesTo (.unkeyed user began (s.db.keysOf user)))
  | unkeyed {user began : ℕ} {keys : List ℕ} :
      Goes texts s others (.unkeyed user began keys)
      (s.goesTo (.uncoded user began keys (s.db.codesOf user)))
  | uncoded {user began : ℕ} {keys codes : List ℕ} :
      Goes texts s others (.uncoded user began keys codes)
        (s.goesTo (.unreset user began keys codes (s.db.resetsOf user)))
  | unreset {user began : ℕ} {keys codes resets : List ℕ} (hpresent : (s.db.present user).isSome)
      (hname : Unused (texts.lower ·.1) s.db others (some user)
        (texts.tombstone user, texts.graveEmail s.drawn))
      (hemail : Unused (·.2) s.db others (some user)
        (texts.tombstone user, texts.graveEmail s.drawn)) :
      Goes texts s others (.unreset user began keys codes resets)
        { s.goesTo (.anonymised user began keys codes resets
            (texts.tombstone user, texts.graveEmail s.drawn)) with drawn := s.drawn + 1 }

theorem of_ite_ends {c : Prop} [Decidable c] {x : Option Outcome}
    (hadv : (if c then x else some s.ends) = some o) (hq : o.stage = some q) : c ∧ x = some o := by
  split at hadv
  · next hc => exact ⟨hc, hadv⟩
  · cases hadv
    cases hq

theorem goes_of_advance (hadv : advance texts s others p = some o) (hq : o.stage = some q) :
    Goes texts s others p o := by
  cases p with
  | registering | inserted | drawing | rehashing | changedReset | countedKeys | uncoded =>
    cases hadv
    constructor
  | releasing | lockedDelete | unkeyed =>
    obtain ⟨-, hadv⟩ := Option.ite_none_right_eq_some.1 hadv
    cases hadv
    constructor
  | redeemed | redeemedReset =>
    obtain ⟨hfree, hadv⟩ := Option.ite_none_right_eq_some.1 hadv
    cases hadv
    constructor
    exact hfree
  | inserting r =>
    obtain ⟨⟨hname, hemail⟩, hadv⟩ := Option.ite_none_right_eq_some.1 hadv
    cases hadv
    exact .inserting hname hemail
  | checking r =>
    simp only [advance] at hadv
    split at hadv
    · cases hadv
      cases hq
    · next htaken =>
      cases hadv
      exact .checking (Bool.eq_false_of_not_eq_true htaken)
  | lockedKeys user =>
    obtain ⟨hlt, hadv⟩ := of_ite_ends hadv hq
    cases hadv
    exact .lockedKeys hlt
  | signingOut | creatingKey | deleting =>
    obtain ⟨hsome, hadv⟩ := of_ite_ends hadv hq
    obtain ⟨hfree, hadv⟩ := Option.ite_none_right_eq_some.1 hadv
    cases hadv
    constructor
    · exact hsome
    · exact hfree
  | unreset =>
    obtain ⟨hpresent, hadv⟩ := of_ite_ends hadv hq
    obtain ⟨⟨hname, hemail⟩, hadv⟩ := Option.ite_none_right_eq_some.1 hadv
    cases hadv
    exact .unreset hpresent hname hemail
  | confirming code began =>
    simp only [advance] at hadv
    split at hadv
    · next row hrow =>
      obtain ⟨hfree, hadv⟩ := Option.ite_none_right_eq_some.1 hadv
      cases hadv
      exact .confirming hrow hfree
    · cases hadv
      exact .confirmingNone
  | redeeming code began locked =>
    simp only [advance] at hadv
    split at hadv
    · next row hrow =>
      obtain ⟨-, hadv⟩ := of_ite_ends hadv hq
      obtain ⟨-, hadv⟩ := Option.ite_none_right_eq_some.1 hadv
      cases hadv
      exact .redeeming hrow
    · cases hadv
      cases hq
  | loggingIn name =>
    simp only [advance] at hadv
    split at hadv
    · next user row hfound =>
      cases hadv
      exact .loggingIn hfound
    · cases hadv
      cases hq
  | lockingReset token passwordHash began =>
    simp only [advance] at hadv
    split at hadv
    · next row hrow =>
      obtain ⟨hpresent, hadv⟩ := of_ite_ends hadv hq
      obtain ⟨hfree, hadv⟩ := Option.ite_none_right_eq_some.1 hadv
      cases hadv
      exact .lockingReset hrow hpresent hfree
    · cases hadv
      cases hq
  | lockedReset token passwordHash began locked =>
    simp only [advance] at hadv
    split at hadv
    · next row hrow =>
      obtain ⟨hlive, hadv⟩ := of_ite_ends hadv hq
      cases hadv
      exact .lockedReset hrow hlive
    · cases hadv
      cases hq
  | hashing | requesting | resetting | verifying | mailing | changingKey | revokingKey =>
    simp only [advance] at hadv
    repeat' split at hadv
    all_goals
      cases hadv
      try cases hq
      try constructor
  | coded | confirmed | spentReset | signedOut | createdKey | changedKey | revokedKey
  | anonymised =>
    cases hadv
    cases hq

def Stage.isFirst : Stage → Bool
  | .registering _ | .confirming _ _ | .loggingIn _ | .requesting _ | .resetting _ _ => true
  | .signingOut _ | .creatingKey _ | .changingKey _ _ _ | .revokingKey _ _ | .deleting _ _ => true
  | _ => false

theorem isFirst_of_begins {request : Request} (h : request.begins s = some p) :
    p.isFirst = true := by
  cases request with
  | register | confirmEmail | login | requestReset | confirmReset =>
    cases h
    rfl
  | signOut | createKey | setKeyActive | revokeKey =>
    simp only [Request.begins, Option.map_eq_some_iff] at h
    obtain ⟨-, -, rfl⟩ := h
    rfl
  | deleteUser =>
    simp only [Request.begins, Option.ite_none_right_eq_some] at h
    obtain ⟨-, h⟩ := h
    cases h
    rfl

def State.after (s : State) (p : Stage) (o : Outcome) : State :=
  ⟨s.now, o.drawn, o.db, move s.crowd p o.stage, o.issued.toList ++ s.sessions,
    o.event.toList ++ s.log⟩

inductive Moves (texts : Texts) (s : State) : Action → State → Prop
  | arrive {request : Request} {p : Stage} (hp : request.begins s = some p) :
      Moves texts s (.arrive request) { s with crowd := p ::ₘ s.crowd }
  | go {p : Stage} {o : Outcome} (hp : p ∈ s.crowd)
      (hadv : advance texts s (s.crowd.erase p) p = some o) :
      Moves texts s (.go p) (s.after p o)
  | stop {p : Stage} (hp : p ∈ s.crowd) :
      Moves texts s (.stop p) { s with crowd := s.crowd.erase p }
  | pass {seconds : ℕ} : Moves texts s (.pass seconds) { s with now := s.now + seconds }
  | grant {user : ℕ} (hfree : FreeAccount s.crowd user) :
      Moves texts s (.grant user) { s with db := s.db.grant user }

theorem moves_of_next {a : Action} (h : next texts s a = some t) : Moves texts s a t := by
  cases a with
  | arrive request =>
    simp only [next, Option.ite_none_right_eq_some, Option.map_eq_some_iff] at h
    obtain ⟨-, p, hp, rfl⟩ := h
    exact .arrive hp
  | go p =>
    simp only [next, Option.ite_none_right_eq_some, Option.map_eq_some_iff] at h
    obtain ⟨hp, o, hadv, rfl⟩ := h
    exact .go hp hadv
  | stop p =>
    simp only [next, Option.ite_none_right_eq_some, Option.some.injEq, move, Option.elim_none,
      zero_add] at h
    obtain ⟨hp, rfl⟩ := h
    exact .stop hp
  | pass seconds =>
    cases h
    exact .pass
  | grant user =>
    simp only [next, Option.ite_none_right_eq_some, Option.some.injEq] at h
    obtain ⟨hfree, rfl⟩ := h
    exact .grant hfree

section Tables

variable {db : Database} {f : User → User} {row : User} {code : Code} {key : ApiKey}
variable {k v began : ℕ} {codes ids : List ℕ} {table : Table ℕ Code}

theorem get_setUser : (db.setUser u f).users.get v =
    (db.users.get v).map fun row ↦ if v = u then f row else row := Table.get_update

theorem get_setUser_of_ne (h : v ≠ u) : (db.setUser u f).users.get v = db.users.get v := by
  simp [get_setUser, h]

theorem get_spend : (spend began codes table).get k =
    (table.get k).map fun row ↦ if k ∈ codes then { row with usedAt := some began } else row :=
  Table.get_update

theorem present_eq_some : db.present u = some row ↔ db.users.get u = some row ∧
    row.deletedAt = none := by
  simp [Database.present, Option.filter_eq_some_iff]

theorem mem_keysOf : k ∈ db.keysOf u ↔ ∃ key, db.keys.get k = some key ∧ key.user = u := by
  simp [Database.keysOf, Table.mem_rows]

theorem mem_codesOf : k ∈ db.codesOf u ↔ ∃ code, db.confirmations.get k = some code ∧
    code.user = u := by
  simp [Database.codesOf, Table.mem_rows]

theorem mem_resetsOf : k ∈ db.resetsOf u ↔ ∃ code, db.resets.get k = some code ∧ code.user = u := by
  simp [Database.resetsOf, Table.mem_rows]

theorem mem_unspentOf : k ∈ db.unspentOf u ↔
    ∃ code, db.resets.get k = some code ∧ code.user = u ∧ code.usedAt = none := by
  simp [Database.unspentOf, Table.mem_rows]

theorem accountOf_eq_some {lower : Text → Text} {name : Text}
    (h : db.accountOf lower name = some (u, row)) :
    db.users.get u = some row ∧ lower row.username = lower name ∧ row.deletedAt = none := by
  have hfound := List.find?_some h
  rw [decide_eq_true_eq] at hfound
  exact ⟨Table.mem_rows.1 (List.mem_of_find?_eq_some h), hfound⟩

end Tables

end Birdtest.Auth
