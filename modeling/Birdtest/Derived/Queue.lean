import Birdtest.Base.Runs
import Birdtest.Base.Tables
import Mathlib.Algebra.Group.Nat.Defs
import Mathlib.Data.List.MinMax

namespace Birdtest.Derived

open Birdtest.Base.Runs Birdtest.Base.Tables

inductive Role
  | wmp | rit | wit
  deriving DecidableEq

structure Builders where
  wmpBuilderVersion : ℤ
  ritBuilderVersion : ℤ
  witBuilderVersion : ℤ

def Builders.forRole (builders : Builders) : Role → String
  | .wmp => "wmp-" ++ toString builders.wmpBuilderVersion
  | .rit => "rit-" ++ toString builders.ritBuilderVersion
  | .wit => "wit-" ++ toString builders.witBuilderVersion

structure DerivedNeed where
  role : Role
  name : String
  kwgId : ℕ
  klvId : Option ℕ
  letterdistId : ℕ

structure Key where
  role : Role
  name : String
  builder : String
  kwgId : ℕ
  klvId : Option ℕ
  letterdistId : ℕ
  deriving DecidableEq

inductive BuildState
  | pending | building | built | failed
  deriving DecidableEq

structure Row where
  state : BuildState
  sha256 : Option String
  bytes : Option ℤ
  buildTarget : Option String
  error : Option String
  leasedUntil : Option ℕ
  attempts : ℕ
  requestedAt : ℕ
  builtAt : Option ℕ
  deriving DecidableEq

structure Lease where
  key : Key
  leasedUntil : ℕ
  deriving DecidableEq

section Statements

def lease : ℕ := 75 * 60 * 1000000

def maxAttempts : ℕ := 3

def DerivedNeed.key (builders : Builders) (need : DerivedNeed) : Key :=
  ⟨need.role, need.name, builders.forRole need.role, need.kwgId, need.klvId, need.letterdistId⟩

def newRow (now : ℕ) : Row := ⟨.pending, none, none, none, none, none, 0, now, none⟩

def requestForJob (builders : Builders) (now : ℕ) (rows : Table Key Row)
    (needs : List DerivedNeed) : Table Key Row :=
  needs.foldl (fun rows need ↦
    if (rows.get (need.key builders)).isSome then rows
    else rows.put (need.key builders) (newRow now)) rows

/-- The first statement of `take_next`: a build that ended on its last attempt without an
outcome. -/
def failStopped (now : ℕ) (row : Row) : Row :=
  if row.state = .building ∧ row.leasedUntil.any (· < now) ∧ maxAttempts ≤ row.attempts then
    { row with
      state := .failed
      leasedUntil := none
      error := some "the builder stopped without recording an outcome (killed, or out of memory?)" }
  else row

def canTake (builders : Builders) (now : ℕ) (key : Key) (row : Row) : Bool :=
  ((row.state = .pending ∧ row.leasedUntil.all (· < now)) ∨
    (row.state = .building ∧ row.leasedUntil.any (· < now))) ∧
  row.attempts < maxAttempts ∧ key.builder = builders.forRole key.role

def oldest (builders : Builders) (now : ℕ) (locked : List Key) (rows : Table Key Row) :
    Option (Key × Row) :=
  (rows.rows.filter fun p ↦ canTake builders now p.1 p.2 ∧ p.1 ∉ locked).argmin (·.2.requestedAt)

def take (now : ℕ) (row : Row) : Row :=
  { row with
    state := .building
    leasedUntil := some (now + lease)
    attempts := row.attempts + 1
    error := none }

def Lease.heldBy (l : Lease) (row : Row) : Bool :=
  row.state = .building ∧ row.leasedUntil = some l.leasedUntil

def recordBuilt (now : ℕ) (sha256 : String) (bytes : ℤ) (buildTarget : String) (row : Row) : Row :=
  { row with
    state := .built
    sha256 := some sha256
    bytes := some bytes
    buildTarget := some buildTarget
    builtAt := some now
    leasedUntil := none
    error := none }

def recordFailed (now : ℕ) (message : String) (row : Row) : Row :=
  { row with
    state := if maxAttempts ≤ row.attempts then .failed else .pending
    leasedUntil :=
      if maxAttempts ≤ row.attempts then none
      else some (now + 5 * 3 ^ (row.attempts - 1) * 60 * 1000000)
    error := some message }

def record (l : Lease) (outcome : Row → Row) (rows : Table Key Row) : Table Key Row :=
  match rows.get l.key with
  | some row => if l.heldBy row then rows.put l.key (outcome row) else rows
  | none => rows

def canRetry (builders : Builders) (key : Key) (row : Row) : Bool :=
  row.state = .failed ∧ key.builder = builders.forRole key.role

def retry (row : Row) : Row :=
  { row with state := .pending, attempts := 0, error := none, leasedUntil := none }

end Statements

structure State where
  now : ℕ
  rows : Table Key Row
  /-- The builds that run, each with the lease it was started under. -/
  builds : ℕ → Option Lease
  /-- How often each row has been taken since it was queued or last retried. -/
  taken : Key → ℕ

inductive Action
  | tick (elapsed : ℕ)
  | request (builders : Builders) (needs : List DerivedNeed)
  | failStopped
  | take (build : ℕ) (builders : Builders) (locked : List Key)
  | succeed (build : ℕ) (sha256 : String) (bytes : ℤ) (buildTarget : String)
  | fail (build : ℕ) (message : String)
  | crash (build : ℕ)
  | retry (builders : Builders) (key : Key)

def next (s : State) : Action → Option State
  | .tick elapsed => some { s with now := s.now + elapsed }
  | .request builders needs => some { s with rows := requestForJob builders s.now s.rows needs }
  | .failStopped => some { s with rows := s.rows.map (failStopped s.now) }
  | .take build builders locked =>
    if (s.builds build).isSome then none
    else (oldest builders s.now locked s.rows).map fun p ↦ { s with
      rows := s.rows.put p.1 (take s.now p.2)
      builds := Function.update s.builds build (some ⟨p.1, s.now + lease⟩)
      taken := Function.update s.taken p.1 (s.taken p.1 + 1) }
  | .succeed build sha256 bytes buildTarget => (s.builds build).map fun l ↦ { s with
      rows := record l (recordBuilt s.now sha256 bytes buildTarget) s.rows
      builds := Function.update s.builds build none }
  | .fail build message => (s.builds build).map fun l ↦ { s with
      rows := record l (recordFailed s.now message) s.rows
      builds := Function.update s.builds build none }
  | .crash build => some { s with builds := Function.update s.builds build none }
  | .retry builders key => (s.rows.get key).bind fun row ↦
    if canRetry builders key row then
      some { s with
        rows := s.rows.put key (retry row)
        taken := Function.update s.taken key 0 }
    else none

def start (s : State) : Prop :=
  s.rows.rows = [] ∧ (∀ build, s.builds build = none) ∧ ∀ key, s.taken key = 0

def machine : Machine State Action := ⟨start, next⟩

section Steps

variable {s t : State} {a : Action} {k : Key}

inductive RowStep (s : State) (a : Action) (k : Key) : Option Row × ℕ → Option Row × ℕ → Prop
  | same (p : Option Row × ℕ) : RowStep s a k p p
  | queue {n : ℕ} : RowStep s a k (none, n) (some (newRow s.now), n)
  | stop {row : Row} {n : ℕ} (hstate : row.state = .building) :
      RowStep s a k (some row, n) (some (failStopped s.now row), n)
  | take {row : Row} {n build : ℕ} {builders : Builders} {locked : List Key}
      (ha : a = .take build builders locked) (htake : canTake builders s.now k row = true) :
      RowStep s a k (some row, n) (some (take s.now row), n + 1)
  | succeed {row : Row} {n build : ℕ} {sha256 : String} {bytes : ℤ} {buildTarget : String}
      {l : Lease} (ha : a = .succeed build sha256 bytes buildTarget)
      (hbuild : s.builds build = some l) (hkey : l.key = k) (hheld : l.heldBy row = true) :
      RowStep s a k (some row, n) (some (recordBuilt s.now sha256 bytes buildTarget row), n)
  | fail {row : Row} {n build : ℕ} {message : String} {l : Lease} (ha : a = .fail build message)
      (hbuild : s.builds build = some l) (hkey : l.key = k) (hheld : l.heldBy row = true) :
      RowStep s a k (some row, n) (some (recordFailed s.now message row), n)
  | retry {row : Row} {n : ℕ} (hstate : row.state = .failed) :
      RowStep s a k (some row, n) (some (retry row), 0)

theorem get_requestForJob (builders : Builders) (now : ℕ) (rows : Table Key Row)
    (needs : List DerivedNeed) (k : Key) :
    (requestForJob builders now rows needs).get k = rows.get k ∨
      (rows.get k = none ∧ (requestForJob builders now rows needs).get k = some (newRow now)) := by
  induction needs generalizing rows with
  | nil => exact .inl rfl
  | cons need needs ih =>
    rw [requestForJob, List.foldl_cons]
    split
    · exact ih rows
    · next hnone =>
      rw [Option.not_isSome_iff_eq_none] at hnone
      rcases ih (rows.put (need.key builders) (newRow now)) with hsame | ⟨habsent, hnew⟩
      · by_cases hk : k = need.key builders
        · subst hk
          rw [Table.get_put_self] at hsame
          exact .inr ⟨hnone, hsame⟩
        · rw [Table.get_put_of_ne hk] at hsame
          exact .inl hsame
      · by_cases hk : k = need.key builders
        · subst hk
          rw [Table.get_put_self] at habsent
          cases habsent
        · rw [Table.get_put_of_ne hk] at habsent
          exact .inr ⟨habsent, hnew⟩

theorem get_record (l : Lease) (outcome : Row → Row) (rows : Table Key Row) (k : Key) :
    (record l outcome rows).get k = rows.get k ∨ ∃ row, l.key = k ∧ rows.get k = some row ∧
      l.heldBy row = true ∧ (record l outcome rows).get k = some (outcome row) := by
  unfold record
  split
  · next row hrow =>
    split
    · next hheld =>
      by_cases hk : k = l.key
      · subst hk
        exact .inr ⟨row, rfl, hrow, hheld, Table.get_put_self⟩
      · exact .inl (Table.get_put_of_ne hk)
    · exact .inl rfl
  · exact .inl rfl

theorem oldest_eq_some {builders : Builders} {now : ℕ} {locked : List Key} {rows : Table Key Row}
    {p : Key × Row} (h : oldest builders now locked rows = some p) :
    rows.get p.1 = some p.2 ∧ canTake builders now p.1 p.2 = true := by
  have hmem := List.argmin_mem h
  rw [List.mem_filter, decide_eq_true_eq] at hmem
  exact ⟨Table.mem_rows.1 hmem.1, hmem.2.1⟩

theorem rowStep_of_next (hs : next s a = some t) (k : Key) :
    RowStep s a k (s.rows.get k, s.taken k) (t.rows.get k, t.taken k) := by
  cases a with
  | tick elapsed =>
    simp only [next, Option.some.injEq] at hs
    subst hs
    exact .same _
  | request builders needs =>
    simp only [next, Option.some.injEq] at hs
    subst hs
    rcases get_requestForJob builders s.now s.rows needs k with hsame | ⟨hnone, hnew⟩
    · rw [hsame]
      exact .same _
    · rw [hnone, hnew]
      exact .queue
  | failStopped =>
    simp only [next, Option.some.injEq] at hs
    subst hs
    rw [Table.get_map]
    cases hrow : s.rows.get k with
    | none => exact .same _
    | some row =>
      rw [Option.map_some]
      by_cases hstate : row.state = .building
      · exact .stop hstate
      · rw [failStopped, if_neg fun h ↦ hstate h.1]
        exact .same _
  | take build builders locked =>
    simp only [next, Option.ite_none_left_eq_some, Option.map_eq_some_iff] at hs
    obtain ⟨-, ⟨key, row⟩, holdest, rfl⟩ := hs
    obtain ⟨hrow, htake⟩ := oldest_eq_some holdest
    by_cases hk : k = key
    · subst hk
      simp only [Table.get_put_self, Function.update_self] at hrow ⊢
      rw [hrow]
      exact .take rfl htake
    · simp only [Table.get_put_of_ne hk, Function.update_of_ne hk]
      exact .same _
  | succeed build sha256 bytes buildTarget =>
    simp only [next, Option.map_eq_some_iff] at hs
    obtain ⟨l, hbuild, rfl⟩ := hs
    rcases get_record l (recordBuilt s.now sha256 bytes buildTarget) s.rows k with
      hsame | ⟨row, hkey, hrow, hheld, hnew⟩
    · rw [hsame]
      exact .same _
    · rw [hrow, hnew]
      exact .succeed rfl hbuild hkey hheld
  | fail build message =>
    simp only [next, Option.map_eq_some_iff] at hs
    obtain ⟨l, hbuild, rfl⟩ := hs
    rcases get_record l (recordFailed s.now message) s.rows k with
      hsame | ⟨row, hkey, hrow, hheld, hnew⟩
    · rw [hsame]
      exact .same _
    · rw [hrow, hnew]
      exact .fail rfl hbuild hkey hheld
  | crash build =>
    simp only [next, Option.some.injEq] at hs
    subst hs
    exact .same _
  | retry builders key =>
    simp only [next, Option.bind_eq_some_iff, Option.ite_none_right_eq_some,
      Option.some.injEq] at hs
    obtain ⟨row, hrow, hretry, rfl⟩ := hs
    rw [canRetry, decide_eq_true_eq] at hretry
    by_cases hk : k = key
    · subst hk
      simp only [Table.get_put_self, Function.update_self]
      rw [hrow]
      exact .retry hretry.1
    · simp only [Table.get_put_of_ne hk, Function.update_of_ne hk]
      exact .same _

def Action.outcomeOf : Action → Option ℕ
  | .succeed build _ _ _ | .fail build _ => some build
  | _ => none

theorem now_le_of_next (hs : next s a = some t) : s.now ≤ t.now := by
  cases a <;> simp only [next, Option.some.injEq, Option.ite_none_left_eq_some,
    Option.map_eq_some_iff, Option.bind_eq_some_iff, Option.ite_none_right_eq_some] at hs
  case tick elapsed =>
    subst hs
    exact Nat.le_add_right _ _
  case request => exact hs ▸ le_rfl
  case failStopped => exact hs ▸ le_rfl
  case take =>
    obtain ⟨-, _, -, rfl⟩ := hs
    exact le_rfl
  case succeed =>
    obtain ⟨_, -, rfl⟩ := hs
    exact le_rfl
  case fail =>
    obtain ⟨_, -, rfl⟩ := hs
    exact le_rfl
  case crash => exact hs ▸ le_rfl
  case retry =>
    obtain ⟨_, -, -, rfl⟩ := hs
    exact le_rfl

theorem builds_of_next (hs : next s a = some t) {build : ℕ} {l : Lease}
    (h : t.builds build = some l) :
    (s.builds build = some l ∧ a.outcomeOf ≠ some build) ∨
      (l.leasedUntil = s.now + lease ∧ (∀ other, other ≠ build → t.builds other = s.builds other) ∧
        ∃ builders row, s.rows.get l.key = some row ∧
          canTake builders s.now l.key row = true ∧ t.rows.get l.key = some (take s.now row)) := by
  have hended {other : ℕ} (h : Function.update s.builds other none build = some l) :
      s.builds build = some l ∧ some other ≠ some build := by
    by_cases hb : build = other
    · subst hb
      rw [Function.update_self] at h
      cases h
    · rw [Function.update_of_ne hb] at h
      exact ⟨h, fun heq ↦ hb (Option.some.inj heq).symm⟩
  cases a <;> simp only [next, Option.some.injEq, Option.ite_none_left_eq_some,
    Option.map_eq_some_iff, Option.bind_eq_some_iff, Option.ite_none_right_eq_some] at hs
  case tick elapsed =>
    subst hs
    exact .inl ⟨h, fun houtcome ↦ by cases houtcome⟩
  case request =>
    subst hs
    exact .inl ⟨h, fun houtcome ↦ by cases houtcome⟩
  case failStopped =>
    subst hs
    exact .inl ⟨h, fun houtcome ↦ by cases houtcome⟩
  case take other builders locked =>
    obtain ⟨-, ⟨key, row⟩, holdest, rfl⟩ := hs
    obtain ⟨hrow, htake⟩ := oldest_eq_some holdest
    by_cases hb : build = other
    · subst hb
      simp only [Function.update_self, Option.some.injEq] at h
      subst h
      exact .inr ⟨rfl, fun _ hne ↦ Function.update_of_ne hne .., builders, row, hrow, htake,
        Table.get_put_self⟩
    · simp only [Function.update_of_ne hb] at h
      exact .inl ⟨h, fun houtcome ↦ by cases houtcome⟩
  case succeed =>
    obtain ⟨_, -, rfl⟩ := hs
    exact .inl (hended h)
  case fail =>
    obtain ⟨_, -, rfl⟩ := hs
    exact .inl (hended h)
  case crash =>
    subst hs
    exact .inl ⟨(hended h).1, fun houtcome ↦ by cases houtcome⟩
  case retry =>
    obtain ⟨_, -, -, rfl⟩ := hs
    exact .inl ⟨h, fun houtcome ↦ by cases houtcome⟩

end Steps

section Invariant

variable {s t : State} {a : Action} {k : Key} {l : Lease}

theorem heldBy_iff {row : Row} :
    l.heldBy row = true ↔ row.state = .building ∧ row.leasedUntil = some l.leasedUntil := by
  rw [Lease.heldBy, decide_eq_true_iff]

theorem eq_of_heldBy {l' : Lease} {row : Row} (hkey : l'.key = l.key) (h : l.heldBy row = true)
    (h' : l'.heldBy row = true) : l' = l := by
  have huntil := (heldBy_iff.1 h').2
  rw [(heldBy_iff.1 h).2, Option.some.injEq] at huntil
  cases l
  cases l'
  rw [Lease.mk.injEq]
  exact ⟨hkey, huntil.symm⟩

def State.Held (s : State) (l : Lease) : Prop :=
  ∃ row, s.rows.get l.key = some row ∧ l.heldBy row = true

def RowInv : Option Row × ℕ → Prop
  | (none, n) => n = 0
  | (some row, n) => row.attempts = n ∧ row.attempts ≤ maxAttempts ∧
      (row.state = .pending → row.attempts < maxAttempts) ∧
      (row.state = .building → row.leasedUntil.isSome)

structure Inv (s : State) : Prop where
  row (k : Key) : RowInv (s.rows.get k, s.taken k)
  build {build : ℕ} {l : Lease} : s.builds build = some l → s.Held l ∨ l.leasedUntil < s.now
  unique {build other : ℕ} {l : Lease} : s.builds build = some l → s.builds other = some l →
    build = other

theorem RowStep.rowInv {p p' : Option Row × ℕ} (h : RowStep s a k p p') (hp : RowInv p) :
    RowInv p' := by
  cases h with
  | same => exact hp
  | queue => exact ⟨hp.symm, Nat.zero_le _, fun _ ↦ Nat.zero_lt_succ _, nofun⟩
  | @stop row _ hstate =>
    rw [failStopped]
    split
    · exact ⟨hp.1, hp.2.1, nofun, nofun⟩
    · exact hp
  | @take row _ _ builders _ _ htake =>
    rw [canTake, decide_eq_true_eq] at htake
    exact ⟨congrArg (· + 1) hp.1, htake.2.1, nofun, fun _ ↦ rfl⟩
  | succeed => exact ⟨hp.1, hp.2.1, nofun, nofun⟩
  | @fail row =>
    refine ⟨hp.1, hp.2.1, ?_, ?_⟩ <;> simp only [recordFailed]
    · split
      · exact nofun
      · next hlt => exact fun _ ↦ Nat.not_le.1 hlt
    · split <;> exact nofun
  | retry => exact ⟨rfl, Nat.zero_le _, fun _ ↦ Nat.zero_lt_succ _, nofun⟩

theorem held_of_next (hinv : Inv s) (hs : next s a = some t) {build : ℕ}
    (hbuild : s.builds build = some l) (hend : a.outcomeOf ≠ some build) (h : s.Held l) :
    t.Held l ∨ l.leasedUntil < s.now := by
  obtain ⟨row, hrow, hheld⟩ := h
  have hstep := rowStep_of_next hs l.key
  rw [hrow] at hstep
  have hboth := heldBy_iff.1 hheld
  have hother {other : ℕ} {l' : Lease} (hother : s.builds other = some l') (hkey : l'.key = l.key)
      (hheld' : l'.heldBy row = true) : other = build :=
    hinv.unique (eq_of_heldBy hkey hheld hheld' ▸ hother) hbuild
  generalize hp : (t.rows.get l.key, t.taken l.key) = p at hstep
  cases hstep with
  | same =>
    exact .inl ⟨row, congrArg Prod.fst hp, hheld⟩
  | stop =>
    by_cases hlapsed : l.leasedUntil < s.now
    · exact .inr hlapsed
    · have hstays : failStopped s.now row = row := by
        rw [failStopped, if_neg]
        rintro ⟨-, hlt, -⟩
        rw [hboth.2, Option.any_some, decide_eq_true_eq] at hlt
        exact hlapsed hlt
      rw [hstays] at hp
      exact .inl ⟨row, congrArg Prod.fst hp, hheld⟩
  | take _ htake =>
    rw [canTake, decide_eq_true_eq, hboth.1, hboth.2] at htake
    simp only [Option.any_some, decide_eq_true_eq] at htake
    exact .inr (htake.1.resolve_left nofun).2
  | succeed ha hsucceeds hkey hheld' =>
    subst ha
    exact absurd (congrArg some (hother hsucceeds hkey hheld')) hend
  | fail ha hfails hkey hheld' =>
    subst ha
    exact absurd (congrArg some (hother hfails hkey hheld')) hend
  | retry hstate => exact nomatch hboth.1.symm.trans hstate

theorem Inv.next (h : Inv s) (hs : next s a = some t) : Inv t := by
  have hnow := now_le_of_next hs
  -- A lease that is still some build's is not the one that a row is taken under now.
  have hfresh {build : ℕ} {l : Lease} {builders : Builders} {row : Row}
      (hbuild : s.builds build = some l) (huntil : l.leasedUntil = s.now + lease)
      (hrow : s.rows.get l.key = some row) (htake : canTake builders s.now l.key row = true) :
      False := by
    rw [canTake, decide_eq_true_eq] at htake
    rcases h.build hbuild with ⟨row', hrow', hheld⟩ | hlapsed
    · rw [hrow, Option.some.injEq] at hrow'
      subst hrow'
      obtain ⟨hstate, hleased⟩ := heldBy_iff.1 hheld
      rw [hstate, hleased, huntil] at htake
      have hlt := (htake.1.resolve_left fun hpending ↦ nomatch hpending.1).2
      rw [Option.any_some, decide_eq_true_eq] at hlt
      exact absurd hlt (Nat.not_lt.2 (Nat.le_add_right _ _))
    · rw [huntil] at hlapsed
      exact absurd hlapsed (Nat.not_lt.2 (Nat.le_add_right _ _))
  refine ⟨fun k ↦ (rowStep_of_next hs k).rowInv (h.row k), ?_, ?_⟩
  · intro build l hbuild
    rcases builds_of_next hs hbuild with ⟨hold, hend⟩ | ⟨huntil, -, builders, row, -, -, hrow⟩
    · rcases h.build hold with hheld | hlapsed
      · exact (held_of_next h hs hold hend hheld).imp_right fun hlt ↦ hlt.trans_le hnow
      · exact .inr (hlapsed.trans_le hnow)
    · exact .inl ⟨_, hrow, heldBy_iff.2 ⟨rfl, congrArg some huntil.symm⟩⟩
  · intro build other l hbuild hother
    by_contra hne
    rcases builds_of_next hs hbuild with ⟨hold, -⟩ | ⟨huntil, hrest, builders, row, hrow, htake, -⟩
    · rcases builds_of_next hs hother with ⟨hold', -⟩ |
        ⟨huntil, hrest, builders, row, hrow, htake, -⟩
      · exact hne (h.unique hold hold')
      · rw [hrest build hne] at hbuild
        exact hfresh hbuild huntil hrow htake
    · rw [hrest other (Ne.symm hne)] at hother
      exact hfresh hother huntil hrow htake

theorem inv_of_reachable (h : machine.Reachable s) : Inv s := by
  apply h.invariant
  · rintro s ⟨hrows, hbuilds, htaken⟩
    refine ⟨fun k ↦ ?_, fun {build l} hb ↦ ?_, fun {build other l} hb ↦ ?_⟩
    · have hnone : s.rows.get k = none := by rw [Table.get, hrows]; rfl
      rw [hnone]
      exact htaken k
    · rw [hbuilds build] at hb
      cases hb
    · rw [hbuilds build] at hb
      cases hb
  · exact fun s a t hi _ hs ↦ hi.next hs

end Invariant

section Outcomes

variable {s t u : State} {a : Action} {k : Key} {l : Lease} {row : Row}

theorem get_of_next_of_built (hs : next s a = some t) (hrow : s.rows.get k = some row)
    (hbuilt : row.state = .built) : t.rows.get k = some row := by
  have hstep := rowStep_of_next hs k
  rw [hrow] at hstep
  generalize hp : (t.rows.get k, t.taken k) = p at hstep
  cases hstep with
  | same => exact congrArg Prod.fst hp
  | stop hstate => exact nomatch hbuilt.symm.trans hstate
  | take _ htake =>
    rw [canTake, decide_eq_true_eq, hbuilt] at htake
    rcases htake.1 with hpending | hbuilding
    · exact nomatch hpending.1
    · exact nomatch hbuilding.1
  | succeed _ _ _ hheld => exact nomatch hbuilt.symm.trans (heldBy_iff.1 hheld).1
  | fail _ _ _ hheld => exact nomatch hbuilt.symm.trans (heldBy_iff.1 hheld).1
  | retry hstate => exact nomatch hbuilt.symm.trans hstate

theorem get_of_reachable_of_built (ht : (machine.startingAt s).Reachable t)
    (hrow : s.rows.get k = some row) (hbuilt : row.state = .built) : t.rows.get k = some row := by
  apply ht.invariant (I := fun t ↦ t.rows.get k = some row)
  · rintro _ rfl
    exact hrow
  · exact fun s a t h _ hs ↦ get_of_next_of_built hs h hbuilt

theorem built_of_next (hs : next s a = some t) (hrow : t.rows.get k = some row)
    (hbuilt : row.state = .built) : s.rows.get k = some row ∨
      ∃ build sha256 bytes buildTarget l, a = .succeed build sha256 bytes buildTarget ∧
        s.builds build = some l ∧ l.key = k ∧ s.Held l ∧ row.sha256 = some sha256 := by
  have hstep := rowStep_of_next hs k
  rw [hrow] at hstep
  generalize hp : (s.rows.get k, s.taken k) = p at hstep
  generalize hp' : (some row, t.taken k) = p' at hstep
  cases hstep with
  | same => exact .inl (congrArg Prod.fst (hp.trans hp'.symm))
  | queue =>
    cases (Prod.mk.inj hp').1
    exact nomatch hbuilt
  | @stop old _ hstate =>
    cases (Prod.mk.inj hp').1
    by_cases hstops : old.state = .building ∧ old.leasedUntil.any (· < s.now) ∧
        maxAttempts ≤ old.attempts
    · rw [failStopped, if_pos hstops] at hbuilt
      exact nomatch hbuilt
    · rw [failStopped, if_neg hstops] at hbuilt
      exact nomatch hbuilt.symm.trans hstate
  | take =>
    cases (Prod.mk.inj hp').1
    exact nomatch hbuilt
  | succeed ha hbuild hkey hheld =>
    cases (Prod.mk.inj hp').1
    subst hkey
    exact .inr ⟨_, _, _, _, _, ha, hbuild, rfl, ⟨_, congrArg Prod.fst hp, hheld⟩, rfl⟩
  | fail =>
    cases (Prod.mk.inj hp').1
    simp only [recordFailed] at hbuilt
    split at hbuilt <;> exact nomatch hbuilt
  | retry =>
    cases (Prod.mk.inj hp').1
    exact nomatch hbuilt

/-- The step of a run that recorded a row's build, by a build that held the row's lease. -/
def RecordedIn (s : State) (k : Key) (row : Row) : Prop :=
  ∃ s₁ s₂ build sha256 bytes buildTarget l, machine.Reachable s₁ ∧ s₁.builds build = some l ∧
    l.key = k ∧ s₁.Held l ∧ next s₁ (.succeed build sha256 bytes buildTarget) = some s₂ ∧
    s₂.rows.get k = some row ∧ row.sha256 = some sha256 ∧ (machine.startingAt s₂).Reachable s

theorem recorded_of_built (h : machine.Reachable s) (hrow : s.rows.get k = some row)
    (hbuilt : row.state = .built) : RecordedIn s k row := by
  induction h with
  | start h =>
    rw [Table.get, h.1] at hrow
    cases hrow
  | @step s t a hr hok hs ih =>
    rcases built_of_next hs hrow hbuilt with hold |
      ⟨build, sha256, bytes, buildTarget, l, rfl, hbuild, hkey, hheld, hsha⟩
    · obtain ⟨s₁, s₂, build, sha256, bytes, buildTarget, l, hr₁, hbuild, hkey, hheld, hnext, hrow₂,
        hsha, hrun⟩ := ih hold
      exact ⟨s₁, s₂, build, sha256, bytes, buildTarget, l, hr₁, hbuild, hkey, hheld, hnext, hrow₂,
        hsha, hrun.step hok hs⟩
    · exact ⟨s, t, build, sha256, bytes, buildTarget, l, hr, hbuild, hkey, hheld, hs, hrow, hsha,
        .start rfl⟩

theorem lost_of_next (hs : next s a = some t) (hlapsed : l.leasedUntil < s.now)
    (h : ¬ s.Held l) : ¬ t.Held l := by
  rintro ⟨row, hrow, hheld⟩
  have hboth := heldBy_iff.1 hheld
  have hstep := rowStep_of_next hs l.key
  rw [hrow] at hstep
  generalize hp : (s.rows.get l.key, s.taken l.key) = p at hstep
  generalize hp' : (some row, t.taken l.key) = p' at hstep
  cases hstep with
  | same => exact h ⟨row, congrArg Prod.fst (hp.trans hp'.symm), hheld⟩
  | queue =>
    cases (Prod.mk.inj hp').1
    exact nomatch hboth.1
  | @stop old _ hstate =>
    cases (Prod.mk.inj hp').1
    by_cases hstops : old.state = .building ∧ old.leasedUntil.any (· < s.now) ∧
        maxAttempts ≤ old.attempts
    · rw [failStopped, if_pos hstops] at hboth
      exact nomatch hboth.1
    · rw [failStopped, if_neg hstops] at hheld
      exact h ⟨old, congrArg Prod.fst hp, hheld⟩
  | take =>
    cases (Prod.mk.inj hp').1
    have huntil : s.now + lease = l.leasedUntil := Option.some.inj hboth.2
    rw [← huntil] at hlapsed
    exact absurd hlapsed (Nat.not_lt.2 (Nat.le_add_right _ _))
  | succeed =>
    cases (Prod.mk.inj hp').1
    exact nomatch hboth.1
  | fail =>
    cases (Prod.mk.inj hp').1
    simp only [recordFailed] at hboth
    split at hboth <;> exact nomatch hboth.1
  | retry =>
    cases (Prod.mk.inj hp').1
    exact nomatch hboth.1

theorem lost_of_reachable (hs : machine.Reachable s) {build : ℕ} (hbuild : s.builds build = some l)
    (hlost : ¬ s.Held l) (ht : (machine.startingAt s).Reachable t) : ¬ t.Held l := by
  have hlapsed := ((inv_of_reachable hs).build hbuild).resolve_left hlost
  have hboth : l.leasedUntil < t.now ∧ ¬ t.Held l := by
    apply ht.invariant (I := fun t ↦ l.leasedUntil < t.now ∧ ¬ t.Held l)
    · rintro _ rfl
      exact ⟨hlapsed, hlost⟩
    · exact fun s a t h _ hs ↦ ⟨h.1.trans_le (now_le_of_next hs), lost_of_next hs h.1 h.2⟩
  exact hboth.2

theorem rows_of_lost (hlost : ¬ s.Held l) {build : ℕ} (hbuild : s.builds build = some l)
    (ha : a.outcomeOf = some build) (hs : next s a = some t) : t.rows = s.rows := by
  have hrecord (outcome : Row → Row) : record l outcome s.rows = s.rows := by
    rw [record]
    split
    · next row hrow =>
      rw [if_neg]
      exact fun hheld ↦ hlost ⟨row, hrow, hheld⟩
    · rfl
  cases a <;> simp only [Action.outcomeOf, reduceCtorEq, Option.some.injEq] at ha
  case succeed =>
    subst ha
    simp only [next, hbuild, Option.map_some, Option.some.injEq] at hs
    subst hs
    exact hrecord _
  case fail =>
    subst ha
    simp only [next, hbuild, Option.map_some, Option.some.injEq] at hs
    subst hs
    exact hrecord _

end Outcomes

section TakeNext

variable {builders : Builders} {now : ℕ} {rows : Table Key Row} {k : Key} {row : Row}

/-- `take_next`, where no other transaction holds a row: what it leaves in the table. -/
def takeNext (builders : Builders) (now : ℕ) (rows : Table Key Row) : Table Key Row :=
  let rows := rows.map (failStopped now)
  match oldest builders now [] rows with
  | some p => rows.put p.1 (take now p.2)
  | none => rows

theorem exists_takeNext {s : State} {build : ℕ} (hfree : s.builds build = none)
    (builders : Builders) : ∃ t, (machine.startingAt s).Reachable t ∧
      t.rows = takeNext builders s.now s.rows := by
  have h₀ : (machine.startingAt s).Reachable s := .start rfl
  have h₁ := h₀.step (a := Action.failStopped) trivial rfl
  rw [takeNext]
  cases holdest : oldest builders s.now [] (s.rows.map (failStopped s.now)) with
  | none => exact ⟨_, h₁, rfl⟩
  | some p =>
    refine ⟨{ s with
      rows := (s.rows.map (failStopped s.now)).put p.1 (take s.now p.2)
      builds := Function.update s.builds build (some ⟨p.1, s.now + lease⟩)
      taken := Function.update s.taken p.1 (s.taken p.1 + 1) },
      h₁.step (a := Action.take build builders []) trivial ?_, rfl⟩
    simp only [machine, Machine.startingAt, next, hfree, Option.isSome_none, Bool.false_eq_true,
      if_false, holdest, Option.map_some]

theorem canTake_failStopped :
    canTake builders now k (failStopped now row) = canTake builders now k row := by
  rw [failStopped]
  split
  · next h =>
    have hmax : ¬ row.attempts < maxAttempts := Nat.not_lt.2 h.2.2
    simp [canTake, hmax]
  · rfl

theorem failStopped_of_canTake (h : canTake builders now k row = true) :
    failStopped now row = row := by
  rw [canTake, decide_eq_true_eq] at h
  rw [failStopped, if_neg]
  exact fun hstops ↦ absurd h.2.1 (Nat.not_lt.2 hstops.2.2)

theorem canTake_take : canTake builders now k (take now row) = false := by
  rw [canTake, decide_eq_false_iff_not]
  rintro ⟨hpending | hbuilding, -⟩
  · exact nomatch hpending.1
  · have hlt := hbuilding.2
    rw [take, Option.any_some, decide_eq_true_eq] at hlt
    exact absurd hlt (Nat.not_lt.2 (Nat.le_add_right _ _))

def takeable (builders : Builders) (now : ℕ) (rows : Table Key Row) : ℕ :=
  rows.rows.countP fun p ↦ canTake builders now p.1 p.2

theorem takeable_map_failStopped :
    takeable builders now (rows.map (failStopped now)) = takeable builders now rows := by
  rw [takeable, takeable, Table.map, List.countP_map]
  apply List.countP_congr
  intro p _
  rw [Function.comp_apply, canTake_failStopped]

theorem get_takeNext (hrow : rows.get k = some row) (h : canTake builders now k row = true) :
    (takeNext builders now rows).get k = some (take now row) ∨
      ((takeNext builders now rows).get k = some row ∧
        takeable builders now (takeNext builders now rows) < takeable builders now rows) := by
  have hstays : (rows.map (failStopped now)).get k = some row := by
    rw [Table.get_map, hrow, Option.map_some, failStopped_of_canTake h]
  simp only [takeNext]
  split
  · next p holdest =>
    obtain ⟨hrow', htake⟩ := oldest_eq_some holdest
    by_cases hk : k = p.1
    · subst hk
      rw [hstays, Option.some.injEq] at hrow'
      subst hrow'
      exact .inl Table.get_put_self
    · refine .inr ⟨?_, ?_⟩
      · rw [Table.get_put_of_ne hk, hstays]
      · calc takeable builders now _ < takeable builders now (rows.map (failStopped now)) :=
            Table.countP_put_lt hrow' htake canTake_take
          _ = takeable builders now rows := takeable_map_failStopped
  · next hnone =>
    have hmem : (k, row) ∈ (rows.map (failStopped now)).rows.filter
        fun p ↦ canTake builders now p.1 p.2 ∧ p.1 ∉ [] := by
      rw [List.mem_filter, decide_eq_true_eq]
      exact ⟨Table.mem_rows.2 hstays, h, List.not_mem_nil⟩
    rw [oldest, List.argmin_eq_none] at hnone
    rw [hnone] at hmem
    exact absurd hmem List.not_mem_nil

theorem taken_of_canTake (hrow : rows.get k = some row) (h : canTake builders now k row = true)
    {n : ℕ} (hn : takeable builders now rows ≤ n) :
    ∃ m ≤ n, ((takeNext builders now)^[m] rows).get k = some (take now row) := by
  induction n generalizing rows with
  | zero =>
    have hpos : 0 < takeable builders now rows :=
      List.countP_pos_iff.2 ⟨(k, row), Table.mem_rows.2 hrow, h⟩
    omega
  | succ n ih =>
    rcases get_takeNext hrow h with htaken | ⟨hstays, hlt⟩
    · exact ⟨1, by omega, htaken⟩
    · obtain ⟨m, hm, htaken⟩ := ih hstays (by omega)
      exact ⟨m + 1, by omega, htaken⟩

/-- Once a row's time has passed, calls of `take_next`, no more than there are rows, take it or
fail it. -/
theorem taken_or_failed {n : ℕ} (hinv : RowInv (some row, n)) (hrow : rows.get k = some row)
    (hstate : row.state = .pending ∨ row.state = .building)
    (hbuilder : k.builder = builders.forRole k.role) (hpassed : row.leasedUntil.all (· < now)) :
    ∃ m ≤ rows.rows.length, ∃ row', ((takeNext builders now)^[m] rows).get k = some row' ∧
      (row' = take now row ∨ row'.state = .failed) := by
  have hlength : takeable builders now rows ≤ rows.rows.length := List.countP_le_length
  obtain ⟨-, -, hpending, hbuilding⟩ := hinv
  by_cases hlast : row.attempts < maxAttempts
  · have htake : canTake builders now k row = true := by
      rw [canTake, decide_eq_true_eq]
      refine ⟨?_, hlast, hbuilder⟩
      rcases hstate with hstate | hstate
      · exact .inl ⟨hstate, hpassed⟩
      · obtain ⟨leased, hleased⟩ := Option.isSome_iff_exists.1 (hbuilding hstate)
        rw [hleased] at hpassed ⊢
        exact .inr ⟨hstate, hpassed⟩
    obtain ⟨m, hm, htaken⟩ := taken_of_canTake hrow htake le_rfl
    exact ⟨m, hm.trans hlength, _, htaken, .inl rfl⟩
  · have hstate : row.state = .building := hstate.resolve_left fun h ↦ hlast (hpending h)
    obtain ⟨leased, hleased⟩ := Option.isSome_iff_exists.1 (hbuilding hstate)
    have hfails : (failStopped now row).state = .failed := by
      rw [failStopped, if_pos]
      rw [hleased] at hpassed ⊢
      exact ⟨hstate, hpassed, Nat.not_lt.1 hlast⟩
    have hstays : (rows.map (failStopped now)).get k = some (failStopped now row) := by
      rw [Table.get_map, hrow, Option.map_some]
    refine ⟨1, List.length_pos_of_mem (Table.mem_rows.2 hrow), failStopped now row, ?_, .inr hfails⟩
    change (takeNext builders now rows).get k = _
    simp only [takeNext]
    split
    · next p holdest =>
      obtain ⟨hrow', htake⟩ := oldest_eq_some holdest
      rw [Table.get_put_of_ne, hstays]
      rintro rfl
      rw [hstays, Option.some.injEq] at hrow'
      rw [← hrow', canTake_failStopped, canTake, decide_eq_true_eq] at htake
      exact hlast htake.2.1
    · exact hstays

end TakeNext

section Queue

variable {s : State}

def wordmap : DerivedNeed := ⟨.wmp, "CSW24", 0, none, 1⟩

end Queue

end Birdtest.Derived
