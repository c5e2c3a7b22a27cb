import Birdtest.Auth.Database
import Birdtest.Base.Crowd
import Birdtest.Base.Runs
import Mathlib.Data.Multiset.ZeroCons

namespace Birdtest.Auth

open Birdtest.Base.Crowd Birdtest.Base.Runs Birdtest.Base.Tables
open Birdtest.Jobs.Racks (Text)

/-- What has happened, the newest first. All but `spending` are commits: `spending` is where a reset
looks for the account's other tokens. -/
inductive Event
  | registered (user code : ℕ)
  | confirmed (user code : ℕ)
  | made (token user expires : ℕ)
  | spending (token user : ℕ)
  | changed (token user began time : ℕ)
  | signedOut (user : ℕ)
  | deleted (user : ℕ)
  deriving DecidableEq

/-- Where a request is: `began` is `now()` in its transaction, `locked` the account whose row it has
locked, where that may be none. -/
inductive Stage
  -- `register`
  | registering (r : Registration)
  | releasing (r : Registration) (began : ℕ) (found : List ℕ)
  | checking (r : Registration)
  | hashing (r : Registration) (emailTaken : Bool)
  | inserting (r : Registration)
  | inserted (r : Registration)
  | coded (r : Registration) (expires : ℕ)
  -- `confirm_email`
  | confirming (code began : ℕ)
  | redeeming (code began : ℕ) (locked : Option ℕ)
  | redeemed (code began : ℕ) (locked : Option ℕ) (user : ℕ)
  | confirmed (code began user : ℕ)
  -- `login`
  | loggingIn (name : Text)
  | verifying (session : Session) (isConfirmed : Bool) (read : List Event)
  -- `request_password_reset`
  | requesting (email : Text)
  | drawing (user : ℕ)
  | mailing (user expires : ℕ)
  -- `confirm_password_reset`
  | resetting (token : ℕ) (passwordHash : Text)
  | rehashing (token : ℕ) (passwordHash : Text)
  | lockingReset (token : ℕ) (passwordHash : Text) (began : ℕ)
  | lockedReset (token : ℕ) (passwordHash : Text) (began locked : ℕ)
  | redeemedReset (token : ℕ) (passwordHash : Text) (began locked user : ℕ)
  | changedReset (token : ℕ) (passwordHash : Text) (began user : ℕ)
  | spentReset (token : ℕ) (passwordHash : Text) (began user : ℕ) (others : List ℕ)
  -- `sign_out_everywhere`
  | signingOut (user : ℕ)
  | signedOut (user : ℕ)
  -- `create_key`
  | creatingKey (user : ℕ)
  | lockedKeys (user : ℕ)
  | countedKeys (user : ℕ)
  | createdKey (user : ℕ)
  -- `set_key_active` and `revoke_key`
  | changingKey (user key : ℕ) (active : Bool)
  | changedKey (key : ℕ) (active : Bool)
  | revokingKey (user key : ℕ)
  | revokedKey (key : ℕ)
  -- `delete_user`
  | deleting (user began : ℕ)
  | lockedDelete (user began : ℕ)
  | unkeyed (user began : ℕ) (keys : List ℕ)
  | uncoded (user began : ℕ) (keys codes : List ℕ)
  | unreset (user began : ℕ) (keys codes resets : List ℕ)
  | anonymised (user began : ℕ) (keys codes resets : List ℕ) (name : Text × Text)
  deriving DecidableEq

def Stage.account : Stage → Option ℕ
  | .redeeming _ _ locked | .redeemed _ _ locked _ => locked
  | .lockedReset _ _ _ user | .redeemedReset _ _ _ user _ => some user
  | .confirmed _ _ user | .changedReset _ _ _ user | .spentReset _ _ _ user _ => some user
  | .signedOut user | .lockedKeys user | .countedKeys user | .createdKey user => some user
  | .lockedDelete user _ | .unkeyed user _ _ | .uncoded user _ _ _ => some user
  | .unreset user _ _ _ _ | .anonymised user _ _ _ _ _ => some user
  | _ => none

def Stage.exclusive : Stage → Bool
  | .lockedKeys _ | .countedKeys _ | .createdKey _ => true
  | .lockedDelete _ _ | .unkeyed _ _ _ | .uncoded _ _ _ _ => true
  | .unreset _ _ _ _ _ | .anonymised _ _ _ _ _ _ => true
  | _ => false

def Stage.codes : Stage → List ℕ
  | .redeemed code _ _ _ | .confirmed code _ _ => [code]
  | .uncoded _ _ _ codes | .unreset _ _ _ codes _ | .anonymised _ _ _ codes _ _ => codes
  | _ => []

def Stage.keys : Stage → List ℕ
  | .changedKey key _ | .revokedKey key => [key]
  | .unkeyed _ _ keys | .uncoded _ _ keys _ | .unreset _ _ keys _ _ | .anonymised _ _ keys _ _ _ =>
    keys
  | _ => []

def Stage.writing : Stage → Option (Text × Text)
  | .inserted r | .coded r _ => some (r.username, r.email)
  | .anonymised _ _ _ _ _ name => some name
  | _ => none

inductive Request
  | register (r : Registration)
  | confirmEmail (code : ℕ)
  | login (name : Text)
  | requestReset (email : Text)
  | confirmReset (token : ℕ) (passwordHash : Text)
  | signOut (session : Session)
  | createKey (session : Session)
  | setKeyActive (session : Session) (key : ℕ) (active : Bool)
  | revokeKey (session : Session) (key : ℕ)
  | deleteUser (session : Session) (user : ℕ)

/-- A session as it was issued, and all that had happened when its account was read. -/
structure Issued where
  session : Session
  read : List Event
  deriving DecidableEq

/-- The committed database, the requests that are under way and the sessions issued. `drawn` is how
many ids and codes have been drawn at random, none of them twice. -/
structure State where
  now : ℕ
  drawn : ℕ
  db : Database
  crowd : Multiset Stage
  sessions : List Issued
  log : List Event

structure Outcome where
  stage : Option Stage
  db : Database
  drawn : ℕ
  event : Option Event
  issued : Option Issued

structure Texts where
  lower : Text → Text
  uuid : ℕ → Text

def Texts.tombstone (texts : Texts) (user : ℕ) : Text :=
  ['d', 'e', 'l', 'e', 't', 'e', 'd', '-'] ++ texts.uuid user

def Texts.graveEmail (texts : Texts) (drawn : ℕ) : Text :=
  texts.uuid drawn ++ "@deleted.invalid".toList

def Texts.ascii : Texts where
  lower := List.map Char.toLower
  uuid n := (List.range 36).map fun i ↦
    if i ∈ [8, 13, 18, 23] then '-' else Nat.digitChar (n / 16 ^ (35 - i) % 16)

section Locks

abbrev FreeAccount (others : Multiset Stage) (user : ℕ) : Prop :=
  ∀ p ∈ others, p.account ≠ some user

abbrev FreeCodes (others : Multiset Stage) (codes : List ℕ) : Prop :=
  ∀ p ∈ others, ∀ code ∈ codes, code ∉ p.codes

abbrev FreeKeys (others : Multiset Stage) (keys : List ℕ) : Prop :=
  ∀ p ∈ others, ∀ key ∈ keys, key ∉ p.keys

abbrev Unused {α : Type} [DecidableEq α] (f : Text × Text → α) (db : Database)
    (others : Multiset Stage) (own : Option ℕ) (name : Text × Text) : Prop :=
  (∀ row ∈ db.users.rows, own ≠ some row.1 → f (row.2.username, row.2.email) ≠ f name) ∧
    ∀ p ∈ others, ∀ name' ∈ p.writing, f name' ≠ f name

end Locks

namespace State

variable (s : State)

def goesTo (p : Stage) : Outcome := ⟨some p, s.db, s.drawn, none, none⟩

def ends : Outcome := ⟨none, s.db, s.drawn, none, none⟩

def commits (db : Database) (event : Option Event) : Outcome := ⟨none, db, s.drawn, event, none⟩

end State

/-- A request's next statement, which waits (`none`) where others have the rows that it locks. -/
def advance (texts : Texts) (s : State) (others : Multiset Stage) : Stage → Option Outcome
  | .registering r => some (s.goesTo (.releasing r s.now (s.db.stale texts.lower s.now r)))
  | .releasing r _ found =>
    let ids := s.db.outdated texts.lower r found
    if (∀ user ∈ ids, FreeAccount others user) ∧
      (∀ user ∈ ids, FreeCodes others (s.db.codesOf user)) ∧
        ∀ user ∈ ids, FreeKeys others (s.db.keysOf user) then
      some { s.goesTo (.checking r) with db := s.db.release ids }
    else none
  | .checking r =>
    if s.db.usernameTaken texts.lower r then some s.ends
    else some (s.goesTo (.hashing r (s.db.emailTaken r)))
  | .hashing r emailTaken => if emailTaken then some s.ends else some (s.goesTo (.inserting r))
  -- `users_username_lower_idx` and the address's own index
  | .inserting r =>
    if Unused (texts.lower ·.1) s.db others none (r.username, r.email) ∧
        Unused (·.2) s.db others none (r.username, r.email) then some (s.goesTo (.inserted r))
    else none
  | .inserted r => some (s.goesTo (.coded r (s.now + confirmationTtl)))
  -- nothing can name the account's id or its code before this
  | .coded r expires =>
    some { s.commits (s.db.register s.drawn (s.drawn + 1) r expires)
      (some (.registered s.drawn (s.drawn + 1))) with drawn := s.drawn + 2 }
  | .confirming code began =>
    match s.db.confirmations.get code with
    | some row =>
      if FreeAccount others row.user then some (s.goesTo (.redeeming code began (some row.user)))
        else none
    | none => some (s.goesTo (.redeeming code began none))
  | .redeeming code began locked =>
    match s.db.confirmations.get code with
    | some row =>
      if row.live began then
        if FreeCodes others [code] then some (s.goesTo (.redeemed code began locked row.user))
          else none
      else some s.ends
    | none => some s.ends
  | .redeemed code began _ user =>
    if FreeAccount others user then some (s.goesTo (.confirmed code began user)) else none
  | .confirmed code began user =>
    some (s.commits (s.db.confirm user code began) (some (.confirmed user code)))
  | .loggingIn name =>
    match s.db.accountOf texts.lower name with
    | some (user, row) =>
      some (s.goesTo (.verifying ⟨user, row.sessionGeneration⟩ row.emailConfirmedAt.isSome s.log))
    | none => some s.ends
  -- a wrong password ends the request
  | .verifying session isConfirmed read =>
    if isConfirmed then some { s.ends with issued := some ⟨session, read⟩ } else some s.ends
  | .requesting email =>
    match s.db.accountAt email with
    | some (user, _) => some (s.goesTo (.drawing user))
    | none => some s.ends
  | .drawing user => some (s.goesTo (.mailing user (s.now + resetTtl)))
  | .mailing user expires =>
    if (s.db.present user).isSome then
      if ∀ p ∈ others, p.account = some user → p.exclusive = false then
        some { s.commits (s.db.makeReset user s.drawn expires) (some (.made s.drawn user expires))
          with drawn := s.drawn + 1 }
      else none
    else some s.ends
  | .resetting token passwordHash =>
    match s.db.resets.get token with
    | some row =>
      if row.live s.now ∧ (s.db.present row.user).isSome then
        some (s.goesTo (.rehashing token passwordHash))
      else some s.ends
    | none => some s.ends
  | .rehashing token passwordHash => some (s.goesTo (.lockingReset token passwordHash s.now))
  | .lockingReset token passwordHash began =>
    match s.db.resets.get token with
    | some row =>
      if (s.db.present row.user).isSome then
        if FreeAccount others row.user then
          some (s.goesTo (.lockedReset token passwordHash began row.user))
        else none
      else some s.ends
    | none => some s.ends
  | .lockedReset token passwordHash began locked =>
    match s.db.resets.get token with
    | some row =>
      if row.live began then
        some (s.goesTo (.redeemedReset token passwordHash began locked row.user))
      else some s.ends
    | none => some s.ends
  | .redeemedReset token passwordHash began _ user =>
    if FreeAccount others user then some (s.goesTo (.changedReset token passwordHash began user))
      else none
  | .changedReset token passwordHash began user =>
    some { s.goesTo (.spentReset token passwordHash began user
      ((s.db.unspentOf user).filter (· ≠ token))) with event := some (.spending token user) }
  | .spentReset token passwordHash began user others =>
    some (s.commits (s.db.resetPassword user token passwordHash began others)
      (some (.changed token user began s.now)))
  | .signingOut user =>
    if (s.db.users.get user).isSome then
      if FreeAccount others user then some (s.goesTo (.signedOut user)) else none
    else some s.ends
  | .signedOut user => some (s.commits (s.db.signOut user) (some (.signedOut user)))
  | .creatingKey user =>
    if (s.db.present user).isSome then
      if FreeAccount others user then some (s.goesTo (.lockedKeys user)) else none
    else some s.ends
  | .lockedKeys user =>
    if s.db.keys.count (·.user = user) < maxApiKeys then some (s.goesTo (.countedKeys user))
    else some s.ends
  | .countedKeys user => some (s.goesTo (.createdKey user))
  | .createdKey user =>
    some { s.commits (s.db.createKey user s.drawn) none with drawn := s.drawn + 1 }
  | .changingKey user key active =>
    match s.db.keys.get key with
    | some row =>
      if row.user = user ∧ row.isActive ≠ active then
        if FreeKeys others [key] then some (s.goesTo (.changedKey key active)) else none
      else some s.ends
    | none => some s.ends
  | .changedKey key active => some (s.commits (s.db.setKeyActive key active) none)
  | .revokingKey user key =>
    match s.db.keys.get key with
    | some row =>
      if row.user = user then
        if FreeKeys others [key] then some (s.goesTo (.revokedKey key)) else none
      else some s.ends
    | none => some s.ends
  | .revokedKey key => some (s.commits (s.db.revokeKey key) none)
  -- an account that is not there has nothing to delete, and is answered so
  | .deleting user began =>
    if (s.db.users.get user).isSome then
      if FreeAccount others user then some (s.goesTo (.lockedDelete user began)) else none
    else some s.ends
  | .lockedDelete user began =>
    if FreeKeys others (s.db.keysOf user) then
      some (s.goesTo (.unkeyed user began (s.db.keysOf user)))
    else none
  | .unkeyed user began keys =>
    if FreeCodes others (s.db.codesOf user) then
      some (s.goesTo (.uncoded user began keys (s.db.codesOf user)))
    else none
  | .uncoded user began keys codes =>
    some (s.goesTo (.unreset user began keys codes (s.db.resetsOf user)))
  | .unreset user began keys codes resets =>
    if (s.db.present user).isSome then
      let name := (texts.tombstone user, texts.graveEmail s.drawn)
      if Unused (texts.lower ·.1) s.db others (some user) name ∧
          Unused (·.2) s.db others (some user) name then
        some { s.goesTo (.anonymised user began keys codes resets name) with drawn := s.drawn + 1 }
      else none
    else some s.ends
  | .anonymised user began keys codes resets name =>
    some (s.commits (s.db.anonymise user began keys codes resets name) (some (.deleted user)))

def Request.begins (s : State) : Request → Option Stage
  | .register r => some (.registering r)
  | .confirmEmail code => some (.confirming code s.now)
  | .login name => some (.loggingIn name)
  | .requestReset email => some (.requesting email)
  | .confirmReset token passwordHash => some (.resetting token passwordHash)
  | .signOut session => (s.db.currentUser session).map fun _ ↦ .signingOut session.user
  | .createKey session => (s.db.currentUser session).map fun _ ↦ .creatingKey session.user
  | .setKeyActive session key active =>
    (s.db.currentUser session).map fun _ ↦ .changingKey session.user key active
  | .revokeKey session key => (s.db.currentUser session).map fun _ ↦ .revokingKey session.user key
  | .deleteUser session user =>
    if (s.db.currentUser session).any User.isAdmin ∧ user ≠ session.user then
      some (.deleting user s.now)
    else none

inductive Action
  | arrive (request : Request)
  | go (p : Stage)
  -- a request that is refused, fails or is given up; what it has written and not committed is
  -- undone
  | stop (p : Stage)
  | pass (seconds : ℕ)
  | grant (user : ℕ)

def Request.session? : Request → Option Session
  | .signOut session | .createKey session | .setKeyActive session _ _ => some session
  | .revokeKey session _ | .deleteUser session _ => some session
  | _ => none

def next (texts : Texts) (s : State) : Action → Option State
  | .arrive request =>
    if ∀ session ∈ request.session?, session ∈ s.sessions.map Issued.session then
      (request.begins s).map fun p ↦ { s with crowd := p ::ₘ s.crowd }
    else none
  | .go p =>
    if p ∈ s.crowd then
      (advance texts s (s.crowd.erase p) p).map fun o ↦
        ⟨s.now, o.drawn, o.db, move s.crowd p o.stage, o.issued.toList ++ s.sessions,
          o.event.toList ++ s.log⟩
    else none
  | .stop p => if p ∈ s.crowd then some { s with crowd := move s.crowd p none } else none
  | .pass seconds => some { s with now := s.now + seconds }
  | .grant user => if FreeAccount s.crowd user then some { s with db := s.db.grant user } else none

def machine (texts : Texts) : Machine State Action where
  start s := s.drawn = 0 ∧ s.db = .empty ∧ s.crowd = 0 ∧ s.sessions = [] ∧ s.log = []
  next := next texts

theorem start_ascii {ok : State → Action → Prop} :
    (machine .ascii).ReachableBy ok ⟨0, 0, .empty, 0, [], []⟩ := .start ⟨rfl, rfl, rfl, rfl, rfl⟩

section Runs

variable (r : Registration) (began : ℕ)

def checkRun : List Action :=
  [.arrive (.register r), .go (.registering r), .go (.releasing r began []), .go (.checking r)]

def insertRun : List Action :=
  [.go (.hashing r false), .go (.inserting r), .go (.inserted r),
    .go (.coded r (began + confirmationTtl))]

def registerRun : List Action := checkRun r began ++ insertRun r began

end Runs

def josh : Registration where
  username := ['j', 'o', 's', 'h']
  email := ['j', '@', 'b', '.', 'c', 'o']
  passwordHash := ['a']
  counted := by decide
  visible := by decide
  placed := by decide
  bare := by decide

end Birdtest.Auth
