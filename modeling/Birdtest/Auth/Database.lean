import Birdtest.Auth.Usernames
import Birdtest.Base.Tables

namespace Birdtest.Auth

open Birdtest.Base.Tables
open Birdtest.Jobs.Racks (Text)

structure User where
  username : Text
  email : Text
  passwordHash : Text
  emailConfirmedAt : Option ℕ
  isAdmin : Bool
  sessionGeneration : ℕ
  deletedAt : Option ℕ

structure Code where
  user : ℕ
  expiresAt : ℕ
  usedAt : Option ℕ

def Code.live (now : ℕ) (code : Code) : Bool := code.usedAt = none ∧ now < code.expiresAt

structure ApiKey where
  user : ℕ
  isActive : Bool

structure Database where
  users : Table ℕ User
  confirmations : Table ℕ Code
  resets : Table ℕ Code
  keys : Table ℕ ApiKey

def Database.empty : Database := ⟨.empty, .empty, .empty, .empty⟩

structure Session where
  user : ℕ
  generation : ℕ
  deriving DecidableEq

section Queries

-- `lower` is the database's.
variable (lower : Text → Text) (db : Database)

def sameName (a b : Text) : Bool :=
  lower a = lower b ∨ withoutMarks (lower a) = withoutMarks (lower b)

/-- An account that a registration takes the place of, once it has no live code. -/
def User.givesWay (r : Registration) (row : User) : Bool :=
  (sameName lower row.username r.username ∨ row.email = r.email) ∧
    row.emailConfirmedAt = none ∧ row.deletedAt = none ∧ row.isAdmin = false

def Database.hasLiveCode (now u : ℕ) : Bool :=
  db.confirmations.rows.any fun code ↦ code.2.user = u ∧ code.2.live now

/-- The rows that the `DELETE` of `register` finds in its snapshot. -/
def Database.stale (now : ℕ) (r : Registration) : List ℕ :=
  (db.users.rows.filter fun row ↦ row.2.givesWay lower r && !db.hasLiveCode now row.1).map Prod.fst

/-- Of the rows found, those that still give way once nobody else has them locked. -/
def Database.outdated (r : Registration) (found : List ℕ) : List ℕ :=
  found.filter fun u ↦ (db.users.get u).any (User.givesWay lower r)

def Database.usernameTaken (r : Registration) : Bool :=
  db.users.rows.any fun row ↦ sameName lower row.2.username r.username

def Database.emailTaken (r : Registration) : Bool :=
  db.users.rows.any fun row ↦ row.2.email = r.email

def Database.accountOf (name : Text) : Option (ℕ × User) :=
  db.users.rows.find? fun row ↦ lower row.2.username = lower name ∧ row.2.deletedAt = none

def Database.accountAt (email : Text) : Option (ℕ × User) :=
  db.users.rows.find? fun row ↦
    row.2.email = email ∧ row.2.emailConfirmedAt.isSome ∧ row.2.deletedAt = none

def Database.present (u : ℕ) : Option User := (db.users.get u).filter (·.deletedAt = none)

def Database.currentUser (session : Session) : Option User :=
  (db.present session.user).filter (·.sessionGeneration = session.generation)

def Database.keysOf (u : ℕ) : List ℕ := (db.keys.rows.filter (·.2.user = u)).map Prod.fst

def Database.codesOf (u : ℕ) : List ℕ := (db.confirmations.rows.filter (·.2.user = u)).map Prod.fst

def Database.resetsOf (u : ℕ) : List ℕ := (db.resets.rows.filter (·.2.user = u)).map Prod.fst

def Database.unspentOf (u : ℕ) : List ℕ :=
  (db.resets.rows.filter fun row ↦ row.2.user = u ∧ row.2.usedAt = none).map Prod.fst

end Queries

def confirmationTtl : ℕ := 24 * 60 * 60

def resetTtl : ℕ := 30 * 60

def maxApiKeys : ℕ := 100

section Commits

variable (db : Database) (u : ℕ)

def Database.release (ids : List ℕ) : Database where
  users := db.users.filter (· ∉ ids)
  confirmations := db.confirmations.retain (·.user ∉ ids)
  resets := db.resets.retain (·.user ∉ ids)
  keys := db.keys.retain (·.user ∉ ids)

def Database.register (code : ℕ) (r : Registration) (expires : ℕ) : Database :=
  { db with
    users := db.users.put u ⟨r.username, r.email, r.passwordHash, none, false, 0, none⟩
    confirmations := db.confirmations.put code ⟨u, expires, none⟩ }

def spend (began : ℕ) (codes : List ℕ) (table : Table ℕ Code) : Table ℕ Code :=
  table.update fun code row ↦ if code ∈ codes then { row with usedAt := some began } else row

def Database.setUser (f : User → User) : Database :=
  { db with users := db.users.update fun v row ↦ if v = u then f row else row }

def Database.confirm (code began : ℕ) : Database :=
  { db.setUser u fun row ↦ { row with emailConfirmedAt := some began } with
    confirmations := spend began [code] db.confirmations }

def Database.makeReset (token expires : ℕ) : Database :=
  { db with resets := db.resets.put token ⟨u, expires, none⟩ }

def Database.resetPassword (token : ℕ) (passwordHash : Text) (began : ℕ) (others : List ℕ) :
    Database :=
  { db.setUser u fun row ↦
      if row.deletedAt = none then
        { row with passwordHash := passwordHash, sessionGeneration := row.sessionGeneration + 1 }
      else row with
    resets := spend began (token :: others) db.resets }

def Database.signOut : Database :=
  db.setUser u fun row ↦ { row with sessionGeneration := row.sessionGeneration + 1 }

def Database.createKey (key : ℕ) : Database := { db with keys := db.keys.put key ⟨u, true⟩ }

def Database.setKeyActive (key : ℕ) (active : Bool) : Database :=
  { db with keys := db.keys.update fun k row ↦ if k = key then { row with isActive := active }
    else row }

def Database.revokeKey (key : ℕ) : Database := { db with keys := db.keys.filter (· ≠ key) }

def Database.anonymise (began : ℕ) (keys codes resets : List ℕ) (name : Text × Text) : Database :=
  { db.setUser u fun row ↦
      if row.deletedAt = none then
        ⟨name.1, name.2, ['!'], none, false, row.sessionGeneration + 1, some began⟩
      else row with
    keys := db.keys.filter (· ∉ keys)
    confirmations := db.confirmations.filter (· ∉ codes)
    resets := db.resets.filter (· ∉ resets) }

/-- An operator's statement, which makes an admin of an account. -/
def Database.grant : Database := db.setUser u fun row ↦ { row with isAdmin := true }

end Commits

end Birdtest.Auth
