import Birdtest.Base.Crowd
import Birdtest.Base.Runs

namespace Birdtest.Extract

open Birdtest.Base.Crowd Birdtest.Base.Runs

def largeBodyBytes : ℕ := 1024 * 1024

def maxResultBytes : ℕ := 64 * 1024 * 1024

def largeBodyShareKib : ℕ := maxResultBytes / 1024

def u32Add (a b : ℕ) : ℕ := (a + b) % 2 ^ 32

def u32Sub (a b : ℕ) : ℕ := (a + (2 ^ 32 - b)) % 2 ^ 32

/-- `LargeBodies`: the semaphore's permits and the owners' map with its lock. -/
structure LargeBodies (O : Type) where
  available : ℕ
  owners : O → Option ℕ
  locked : Bool

def LargeBodies.new {O : Type} (capacity : ℕ) : LargeBodies O := ⟨capacity, fun _ ↦ none, false⟩

/-- Where a request with a large body is in `read_body`, or what became of its charge. `held` is
what it read of its owner's entry. -/
inductive Place
  | waiting
  | checking
  | permitting (held : ℕ)
  | inserting (held : ℕ)
  | reading
  /-- The body is whole and the charge its handler's. -/
  | delivered
  /-- The charge is being dropped and its permits are given back. -/
  | givenBack
  | takingOff
  deriving DecidableEq

structure Request (O : Type) where
  owner : O
  kib : ℕ
  place : Place
  deriving DecidableEq

inductive Tier (O : Type)
  | small
  | tooLarge
  | large (owner : O) (kib : ℕ)

/-- What a declared length reserves; nothing past the largest result is. -/
def reservedKib (declared : ℕ) : ℕ := (min declared maxResultBytes + 1023) / 1024 % 2 ^ 32

def tier {O : Type} (budgeted : Bool) (owner : Option O) (declared : Option ℕ) : Tier O :=
  match declared with
  | some bytes =>
    if largeBodyBytes < bytes then
      match budgeted, owner with
      | true, some owner => .large owner (reservedKib bytes)
      | _, _ => .tooLarge
    else .small
  | none => .small

section Step

variable {O : Type} [DecidableEq O]

def giveBack (budget : LargeBodies O) (r : Request O) : LargeBodies O × Option Place :=
  ({ budget with available := budget.available + r.kib }, some .givenBack)

/-- The next step of a request, unless it waits for the lock. A request that leaves from `checking`
or `permitting` is refused. -/
def advance (budget : LargeBodies O) (r : Request O) : Option (LargeBodies O × Option Place) :=
  match r.place with
  | .waiting =>
    if budget.locked then none
    else some ({ budget with locked := true }, some .checking)
  | .checking =>
    let held := (budget.owners r.owner).getD 0
    if largeBodyShareKib < u32Add held r.kib then some ({ budget with locked := false }, none)
    else some (budget, some (.permitting held))
  | .permitting held =>
    if budget.available < r.kib then some ({ budget with locked := false }, none)
    else some ({ budget with available := budget.available - r.kib }, some (.inserting held))
  | .inserting held => some (⟨budget.available,
      Function.update budget.owners r.owner (some (u32Add held r.kib)), false⟩, some .reading)
  | .reading => some (budget, some .delivered)
  | .delivered => some (giveBack budget r)
  | .givenBack =>
    if budget.locked then none else some ({ budget with locked := true }, some .takingOff)
  | .takingOff => some (⟨budget.available, match budget.owners r.owner with
      | some held => Function.update budget.owners r.owner
          (if u32Sub held r.kib = 0 then none else some (u32Sub held r.kib))
      | none => budget.owners, false⟩, none)

structure State (O : Type) where
  budget : LargeBodies O
  requests : Multiset (Request O)

inductive Act (O : Type)
  | arrive (budgeted : Bool) (owner : Option O) (declared : Option ℕ)
  | advance (r : Request O)
  /-- A body that is late, stalls, fails or runs past its length, or whose connection is gone. -/
  | abandon (r : Request O)

def State.follow (s : State O) (r : Request O) (outcome : LargeBodies O × Option Place) : State O :=
  ⟨outcome.1, move s.requests r (outcome.2.map fun place ↦ { r with place })⟩

def next (s : State O) : Act O → Option (State O)
  | .arrive budgeted owner declared => match tier budgeted owner declared with
    | .large owner kib => some { s with requests := ⟨owner, kib, .waiting⟩ ::ₘ s.requests }
    | _ => some s
  | .advance r => if r ∈ s.requests then (advance s.budget r).map (s.follow r) else none
  | .abandon r =>
    if r ∈ s.requests ∧ r.place = .reading then some (s.follow r (giveBack s.budget r)) else none

def machine (capacity : ℕ) : Machine (State O) (Act O) := ⟨(· = ⟨.new capacity, 0⟩), next⟩

end Step

section Places

variable {O : Type} [DecidableEq O] {r : Request O} {o : O}

def Place.hasLock : Place → Bool
  | .checking | .permitting _ | .inserting _ | .takingOff => true
  | _ => false

def Place.hasPermits : Place → Bool
  | .inserting _ | .reading | .delivered => true
  | _ => false

def Place.isListed : Place → Bool
  | .reading | .delivered | .givenBack | .takingOff => true
  | _ => false

def Request.lock (r : Request O) : ℕ := r.place.hasLock.toNat

def Request.permits (r : Request O) : ℕ := if r.place.hasPermits then r.kib else 0

def Request.listed (o : O) (r : Request O) : ℕ :=
  if r.place.isListed ∧ r.owner = o then r.kib else 0

/-- What the request read of its owner's entry, which it may add to, is still there. -/
def Place.Read (entry kib : ℕ) : Place → Prop
  | .permitting held | .inserting held => held = entry ∧ entry + kib ≤ largeBodyShareKib
  | _ => True

structure Inv (capacity : ℕ) (s : State O) : Prop where
  lock : (s.requests.map Request.lock).sum = s.budget.locked.toNat
  kib : ∀ r ∈ s.requests, 0 < r.kib ∧ r.kib ≤ largeBodyShareKib
  permits : s.budget.available + (s.requests.map Request.permits).sum = capacity
  listed : ∀ o, (s.budget.owners o).getD 0 = (s.requests.map (Request.listed o)).sum
  share : ∀ o, (s.budget.owners o).getD 0 ≤ largeBodyShareKib
  nonzero : ∀ o, s.budget.owners o ≠ some 0
  read : ∀ r ∈ s.requests, r.place.Read ((s.budget.owners r.owner).getD 0) r.kib

theorem u32Add_eq {a b : ℕ} (ha : a ≤ largeBodyShareKib) (hb : b ≤ largeBodyShareKib) :
    u32Add a b = a + b := by
  simp only [largeBodyShareKib, maxResultBytes] at ha hb
  exact Nat.mod_eq_of_lt (by omega)

theorem u32Sub_eq {a b : ℕ} (ha : a ≤ largeBodyShareKib) (hb : b ≤ a) : u32Sub a b = a - b := by
  simp only [largeBodyShareKib, maxResultBytes] at ha
  have : a + (2 ^ 32 - b) = a - b + 2 ^ 32 := by omega
  rw [u32Sub, this, Nat.add_mod_right]
  exact Nat.mod_eq_of_lt (by omega)

theorem reservedKib_pos {declared : ℕ} (h : largeBodyBytes < declared) :
    0 < reservedKib declared := by
  simp only [largeBodyBytes, reservedKib, maxResultBytes] at h ⊢
  omega

theorem reservedKib_le (declared : ℕ) : reservedKib declared ≤ largeBodyShareKib := by
  simp only [reservedKib, largeBodyShareKib, maxResultBytes]
  omega

omit [DecidableEq O] in
theorem tier_large {budgeted : Bool} {owner : Option O} {declared : Option ℕ} {kib : ℕ}
    (h : tier budgeted owner declared = .large o kib) : 0 < kib ∧ kib ≤ largeBodyShareKib := by
  unfold tier at h
  split at h
  next bytes =>
    split at h
    next hlarge =>
      split at h
      next =>
        cases h
        exact ⟨reservedKib_pos hlarge, reservedKib_le bytes⟩
      next => cases h
    next => cases h
  next => cases h

end Places

section Invariant

variable {O : Type} [DecidableEq O] {capacity : ℕ} {s t : State O} {r : Request O} {o : O}
variable {budget : LargeBodies O} {place : Option Place} {a : Act O}

theorem Inv.kib_le_entry (h : Inv capacity s) (hr : r ∈ s.requests)
    (hlisted : r.place.isListed = true) :
    r.kib ≤ (s.budget.owners r.owner).getD 0 := by
  have hle := le_sum (f := Request.listed r.owner) hr
  rwa [← h.listed, Request.listed, if_pos ⟨hlisted, rfl⟩] at hle

theorem Inv.lock_alone (h : Inv capacity s) (hr : r ∈ s.requests) (hlock : r.place.hasLock = true) :
    s.budget.locked = true ∧ ∀ x ∈ s.requests.erase r, x.place.hasLock = false := by
  have hone : r.lock = 1 := by rw [Request.lock, hlock, Bool.toNat_true]
  have hle := le_sum (f := Request.lock) hr
  have hsum := h.lock
  have hmax := Bool.toNat_le s.budget.locked
  refine ⟨?_, fun x hx ↦ ?_⟩
  · cases hlocked : s.budget.locked with
    | true => rfl
    | false =>
      rw [hlocked, Bool.toNat_false] at hsum
      omega
  · have hzero := eq_zero_of_sum_le_one (f := Request.lock) hr (by omega) (by omega) x hx
    rw [Request.lock] at hzero
    exact Bool.toNat_eq_zero.1 hzero

theorem Place.read_of_hasLock_eq_false {p : Place} {entry kib : ℕ} (h : p.hasLock = false) :
    p.Read entry kib := by
  cases p <;> trivial

theorem Inv.follow (h : Inv capacity s) (hr : r ∈ s.requests)
    (hlock : budget.locked.toNat + r.lock =
      s.budget.locked.toNat + (place.map fun p ↦ { r with place := p }).elim 0 Request.lock)
    (hpermits : budget.available + (place.map fun p ↦ { r with place := p }).elim 0
      Request.permits = s.budget.available + r.permits)
    (hlisted : ∀ o, (budget.owners o).getD 0 + r.listed o = (s.budget.owners o).getD 0 +
      (place.map fun p ↦ { r with place := p }).elim 0 (Request.listed o))
    (hshare : ∀ o, (budget.owners o).getD 0 ≤ largeBodyShareKib)
    (hnonzero : ∀ o, budget.owners o ≠ some 0)
    (howners : budget.owners = s.budget.owners ∨ r.place.hasLock = true)
    (hread : ∀ p ∈ place, p.Read ((budget.owners r.owner).getD 0) r.kib) :
    Inv capacity (s.follow r (budget, place)) where
  lock := by
    have := sum_move (f := Request.lock) hr (place.map fun p ↦ { r with place := p })
    have := h.lock
    simp only [State.follow]
    omega
  kib := forall_move h.kib fun x hx ↦ by
    obtain ⟨p, -, rfl⟩ := Option.map_eq_some_iff.1 hx
    exact h.kib r hr
  permits := by
    have := sum_move (f := Request.permits) hr (place.map fun p ↦ { r with place := p })
    have := h.permits
    simp only [State.follow]
    omega
  listed o := by
    have := sum_move (f := Request.listed o) hr (place.map fun p ↦ { r with place := p })
    have := h.listed o
    have := hlisted o
    simp only [State.follow]
    omega
  share := hshare
  nonzero := hnonzero
  read x hx := by
    rcases mem_move hx with hx | hx
    · obtain ⟨p, hp, rfl⟩ := Option.map_eq_some_iff.1 hx
      exact hread p hp
    · rcases howners with howners | hheld
      · simp only [State.follow, howners]
        exact h.read x (Multiset.mem_of_mem_erase hx)
      · exact Place.read_of_hasLock_eq_false ((h.lock_alone hr hheld).2 x hx)

theorem Inv.goOn (h : Inv capacity s) (hr : r ∈ s.requests) {p : Place} {locked : Bool}
    (hlock : locked.toNat + r.lock = s.budget.locked.toNat + p.hasLock.toNat)
    (hpermits : p.hasPermits = r.place.hasPermits) (hlisted : p.isListed = r.place.isListed)
    (hread : p.Read ((s.budget.owners r.owner).getD 0) r.kib) :
    Inv capacity (s.follow r ({ s.budget with locked }, some p)) := by
  refine h.follow hr hlock ?_ (fun o ↦ ?_) h.share h.nonzero (.inl rfl) fun q hq ↦ ?_
  · simp [Request.permits, hpermits]
  · simp [Request.listed, hlisted]
  · cases hq
    exact hread

theorem Inv.giveBack (h : Inv capacity s) (hr : r ∈ s.requests)
    (hplace : r.place = .reading ∨ r.place = .delivered) :
    Inv capacity (s.follow r (giveBack s.budget r)) := by
  refine h.follow hr ?_ ?_ (fun o ↦ ?_) h.share h.nonzero (.inl rfl) fun p hp ↦ ?_
  · rcases hplace with hplace | hplace <;> simp [Request.lock, hplace, Place.hasLock]
  · rcases hplace with hplace | hplace <;> simp [Request.permits, hplace, Place.hasPermits]
  · rcases hplace with hplace | hplace <;> simp [Request.listed, hplace, Place.isListed]
  · cases hp
    trivial

theorem Inv.refuse (h : Inv capacity s) (hr : r ∈ s.requests)
    (hplace : r.place = .checking ∨ ∃ held, r.place = .permitting held) :
    Inv capacity (s.follow r ({ s.budget with locked := false }, none)) := by
  have hlock : r.place.hasLock = true := by
    rcases hplace with hplace | ⟨held, hplace⟩ <;> rw [hplace] <;> rfl
  refine h.follow hr ?_ ?_ (fun o ↦ ?_) h.share h.nonzero (.inl rfl) nofun
  · simp [Request.lock, hlock, (h.lock_alone hr hlock).1]
  · rcases hplace with hplace | ⟨held, hplace⟩ <;> simp [Request.permits, hplace, Place.hasPermits]
  · rcases hplace with hplace | ⟨held, hplace⟩ <;> simp [Request.listed, hplace, Place.isListed]

theorem Inv.insert {held : ℕ} (h : Inv capacity s) (hr : r ∈ s.requests)
    (hplace : r.place = .inserting held) :
    Inv capacity (s.follow r (⟨s.budget.available,
      Function.update s.budget.owners r.owner (some (u32Add held r.kib)), false⟩,
    some .reading)) := by
  obtain ⟨hpos, hkib⟩ := h.kib r hr
  have hread := h.read r hr
  rw [hplace] at hread
  obtain ⟨rfl, hle⟩ := hread
  rw [u32Add_eq (h.share r.owner) hkib]
  have hlock : r.place.hasLock = true := by rw [hplace]; rfl
  have hentry : ∀ o, (Function.update s.budget.owners r.owner
      (some ((s.budget.owners r.owner).getD 0 + r.kib)) o).getD 0 =
      (s.budget.owners o).getD 0 + if r.owner = o then r.kib else 0 := by
    intro o
    by_cases ho : r.owner = o
    · rw [← ho, Function.update_self, Option.getD_some, if_pos rfl]
    · rw [Function.update_of_ne (Ne.symm ho), if_neg ho, Nat.add_zero]
  have hnonzero : ∀ o, Function.update s.budget.owners r.owner
      (some ((s.budget.owners r.owner).getD 0 + r.kib)) o ≠ some 0 := by
    intro o
    by_cases ho : o = r.owner
    · rw [ho, Function.update_self]
      simp [hpos.ne']
    · rw [Function.update_of_ne ho]
      exact h.nonzero o
  refine h.follow hr ?_ ?_ (fun o ↦ ?_) (fun o ↦ ?_) hnonzero (.inr hlock) fun p hp ↦ ?_
  · simp [Request.lock, hplace, Place.hasLock, (h.lock_alone hr hlock).1]
  · simp [Request.permits, hplace, Place.hasPermits]
  · rw [hentry]
    simp [Request.listed, hplace, Place.isListed]
  · rw [hentry]
    split_ifs with ho
    · rwa [← ho]
    · exact h.share o
  · cases hp
    trivial

theorem Inv.takeOff (h : Inv capacity s) (hr : r ∈ s.requests) (hplace : r.place = .takingOff) :
    ∃ held, s.budget.owners r.owner = some held ∧ r.kib ≤ held ∧
      Inv capacity (s.follow r (⟨s.budget.available, Function.update s.budget.owners r.owner
        (if u32Sub held r.kib = 0 then none else some (u32Sub held r.kib)), false⟩, none)) := by
  obtain ⟨hpos, hkib⟩ := h.kib r hr
  have hlock : r.place.hasLock = true := by rw [hplace]; rfl
  have hheld := h.kib_le_entry hr (by rw [hplace]; rfl)
  cases hentry : s.budget.owners r.owner with
  | none =>
    rw [hentry, Option.getD_none] at hheld
    omega
  | some held =>
    have hshare := h.share r.owner
    rw [hentry, Option.getD_some] at hheld hshare
    refine ⟨held, rfl, hheld, ?_⟩
    rw [u32Sub_eq hshare hheld]
    have hleft : ∀ o, (Function.update s.budget.owners r.owner
        (if held - r.kib = 0 then none else some (held - r.kib)) o).getD 0 +
          (if r.owner = o then r.kib else 0) = (s.budget.owners o).getD 0 := by
      intro o
      by_cases ho : r.owner = o
      · rw [← ho, Function.update_self, if_pos rfl, hentry, Option.getD_some]
        split_ifs with hzero
        · rw [Option.getD_none]
          omega
        · rw [Option.getD_some]
          omega
      · rw [Function.update_of_ne (Ne.symm ho), if_neg ho, Nat.add_zero]
    have hnonzero : ∀ o, Function.update s.budget.owners r.owner
        (if held - r.kib = 0 then none else some (held - r.kib)) o ≠ some 0 := by
      intro o
      by_cases ho : o = r.owner
      · rw [ho, Function.update_self]
        split_ifs with hzero <;> simp [hzero]
      · rw [Function.update_of_ne ho]
        exact h.nonzero o
    refine h.follow hr ?_ ?_ (fun o ↦ ?_) (fun o ↦ ?_) hnonzero (.inr hlock) nofun
    · simp [Request.lock, hplace, Place.hasLock, (h.lock_alone hr hlock).1]
    · simp [Request.permits, hplace, Place.hasPermits]
    · rw [← hleft o]
      simp [Request.listed, hplace, Place.isListed]
    · exact (Nat.le_add_right ..).trans ((hleft o).le.trans (h.share o))

theorem Inv.permit {held : ℕ} (h : Inv capacity s) (hr : r ∈ s.requests)
    (hplace : r.place = .permitting held) (hroom : r.kib ≤ s.budget.available) :
    Inv capacity (s.follow r ({ s.budget with available := s.budget.available - r.kib },
      some (.inserting held))) := by
  have hread := h.read r hr
  refine h.follow hr ?_ ?_ (fun o ↦ ?_) h.share h.nonzero (.inl rfl) fun p hp ↦ ?_
  · simp [Request.lock, hplace, Place.hasLock]
  · simp [Request.permits, hplace, Place.hasPermits, hroom]
  · simp [Request.listed, hplace, Place.isListed]
  · cases hp
    rwa [hplace] at hread

theorem Inv.advance (h : Inv capacity s) (hr : r ∈ s.requests)
    (hstep : advance s.budget r = some (budget, place)) :
    Inv capacity (s.follow r (budget, place)) := by
  obtain ⟨hpos, hkib⟩ := h.kib r hr
  rw [Extract.advance] at hstep
  split at hstep
  next hplace =>
    obtain ⟨hfree, heq⟩ := Option.ite_none_left_eq_some.1 hstep
    cases heq
    refine h.goOn hr ?_ (by rw [hplace]; rfl) (by rw [hplace]; rfl) trivial
    simp [Request.lock, hplace, Place.hasLock, hfree]
  next hplace =>
    simp only [u32Add_eq (h.share r.owner) hkib] at hstep
    split at hstep
    next => cases hstep; exact h.refuse hr (.inl hplace)
    next hroom =>
      cases hstep
      refine h.goOn hr ?_ (by rw [hplace]; rfl) (by rw [hplace]; rfl) ⟨rfl, not_lt.1 hroom⟩
      simp [Request.lock, hplace, Place.hasLock]
  next held hplace =>
    split at hstep
    next => cases hstep; exact h.refuse hr (.inr ⟨held, hplace⟩)
    next hroom => cases hstep; exact h.permit hr hplace (not_lt.1 hroom)
  next held hplace =>
    cases hstep
    exact h.insert hr hplace
  next hplace =>
    cases hstep
    refine h.goOn hr ?_ (by rw [hplace]; rfl) (by rw [hplace]; rfl) trivial
    simp [Request.lock, hplace, Place.hasLock]
  next hplace =>
    cases hstep
    exact h.giveBack hr (.inr hplace)
  next hplace =>
    obtain ⟨hfree, heq⟩ := Option.ite_none_left_eq_some.1 hstep
    cases heq
    refine h.goOn hr ?_ (by rw [hplace]; rfl) (by rw [hplace]; rfl) trivial
    simp [Request.lock, hplace, Place.hasLock, hfree]
  next hplace =>
    obtain ⟨held, hentry, -, hinv⟩ := h.takeOff hr hplace
    rw [hentry] at hstep
    cases hstep
    exact hinv

theorem Inv.start : Inv capacity (⟨.new capacity, 0⟩ : State O) where
  lock := rfl
  kib _ h := absurd h (Multiset.notMem_zero _)
  permits := rfl
  listed _ := rfl
  share _ := Nat.zero_le _
  nonzero _ := nofun
  read _ h := absurd h (Multiset.notMem_zero _)

theorem Inv.arrive {kib : ℕ} (h : Inv capacity s) (hkib : 0 < kib ∧ kib ≤ largeBodyShareKib) :
    Inv capacity { s with requests := ⟨o, kib, .waiting⟩ ::ₘ s.requests } where
  lock := by
    rw [Multiset.map_cons, Multiset.sum_cons, h.lock]
    exact Nat.zero_add _
  kib := Multiset.forall_mem_cons.2 ⟨hkib, h.kib⟩
  permits := by
    rw [Multiset.map_cons, Multiset.sum_cons]
    exact (congrArg _ (Nat.zero_add _)).trans h.permits
  listed o' := by
    rw [Multiset.map_cons, Multiset.sum_cons]
    exact (h.listed o').trans (Nat.zero_add _).symm
  share := h.share
  nonzero := h.nonzero
  read := Multiset.forall_mem_cons.2 ⟨trivial, h.read⟩

theorem Inv.next (h : Inv capacity s) (hstep : next s a = some t) : Inv capacity t := by
  cases a with
  | arrive budgeted owner declared =>
    rw [Extract.next] at hstep
    split at hstep
    next owner kib htier => cases hstep; exact h.arrive (tier_large htier)
    next => cases hstep; exact h
  | advance r =>
    obtain ⟨hr, hstep⟩ := Option.ite_none_right_eq_some.1 hstep
    obtain ⟨⟨budget, place⟩, hadvance, rfl⟩ := Option.map_eq_some_iff.1 hstep
    exact h.advance hr hadvance
  | abandon r =>
    obtain ⟨⟨hr, hplace⟩, heq⟩ := Option.ite_none_right_eq_some.1 hstep
    cases heq
    exact h.giveBack hr (.inl hplace)

theorem inv_of_reachable (h : (machine capacity).Reachable s) : Inv capacity s :=
  h.invariant (fun _ hs ↦ hs ▸ Inv.start) fun _ _ _ hinv _ hstep ↦ hinv.next hstep

def Request.Fits (capacity : ℕ) (budget : LargeBodies O) (r : Request O) : Prop :=
  match r.place with
  | .checking => (budget.owners r.owner).getD 0 + r.kib < 2 ^ 32
  | .inserting held => held + r.kib < 2 ^ 32
  | .reading | .delivered => budget.available + r.kib ≤ capacity
  | .takingOff => ∃ held, budget.owners r.owner = some held ∧ r.kib ≤ held ∧ held < 2 ^ 32
  | .waiting | .permitting _ | .givenBack => True

theorem Inv.add_kib_le (h : Inv capacity s) (hr : r ∈ s.requests)
    (hpermits : r.place.hasPermits = true) :
    s.budget.available + r.kib ≤ capacity := by
  have hle := le_sum (f := Request.permits) hr
  rw [Request.permits, if_pos hpermits] at hle
  have := h.permits
  omega

theorem share_lt : largeBodyShareKib + largeBodyShareKib < 2 ^ 32 := by decide

theorem Inv.fits (h : Inv capacity s) (hr : r ∈ s.requests) : r.Fits capacity s.budget := by
  obtain ⟨-, hkib⟩ := h.kib r hr
  have hentry := h.share r.owner
  have hbound := share_lt
  have hread := h.read r hr
  rw [Request.Fits]
  split
  next => omega
  next held hplace =>
    rw [hplace] at hread
    obtain ⟨rfl, -⟩ := hread
    omega
  next hplace => exact h.add_kib_le hr (by rw [hplace]; rfl)
  next hplace => exact h.add_kib_le hr (by rw [hplace]; rfl)
  next hplace =>
    obtain ⟨held, hsome, hle, -⟩ := h.takeOff hr hplace
    rw [hsome, Option.getD_some] at hentry
    exact ⟨held, hsome, hle, by omega⟩
  all_goals trivial

/-- Until a request is granted its permits it has changed neither the budget nor the map. -/
theorem unchanged_of_not_granted (hplace : r.place.hasPermits = false)
    (hcharge : r.place.isListed = false) (hstep : advance s.budget r = some (budget, place))
    (hgrant : ∀ held, place ≠ some (.inserting held)) :
    budget.available = s.budget.available ∧ budget.owners = s.budget.owners := by
  rw [Extract.advance] at hstep
  split at hstep
  next =>
    obtain ⟨-, heq⟩ := Option.ite_none_left_eq_some.1 hstep
    cases heq
    exact ⟨rfl, rfl⟩
  next =>
    simp only [] at hstep
    split at hstep <;> cases hstep <;> exact ⟨rfl, rfl⟩
  next held _ =>
    split at hstep
    next => cases hstep; exact ⟨rfl, rfl⟩
    next => cases hstep; exact (hgrant held rfl).elim
  next h => rw [h] at hplace; cases hplace
  next h => rw [h] at hplace; cases hplace
  next h => rw [h] at hplace; cases hplace
  next h => rw [h] at hcharge; cases hcharge
  next h => rw [h] at hcharge; cases hcharge

theorem Inv.initial (h : Inv capacity s)
    (hnone : ∀ r ∈ s.requests, r.place.hasPermits = false ∧ r.place.isListed = false) :
    s.budget.available = capacity ∧ s.budget.owners = fun _ ↦ none := by
  constructor
  · have hzero : (s.requests.map Request.permits).sum = 0 :=
      sum_eq_zero fun r hr ↦ by rw [Request.permits, (hnone r hr).1]; rfl
    rw [← h.permits, hzero, Nat.add_zero]
  · funext o
    have hzero : (s.requests.map (Request.listed o)).sum = 0 :=
      sum_eq_zero fun r hr ↦ by simp [Request.listed, (hnone r hr).2]
    have hentry := h.listed o
    rw [hzero] at hentry
    cases howner : s.budget.owners o with
    | none => rfl
    | some held =>
      rw [howner, Option.getD_some] at hentry
      exact absurd (howner.trans (congrArg some hentry)) (h.nonzero o)

end Invariant

section Exact

variable {O : Type} [DecidableEq O] {capacity : ℕ} {s : State O}

/-- The budget and its owners' shares stand exactly for the charges, in every interleaving. -/
theorem largeBodies_exact (h : (machine capacity).Reachable s) :
    s.budget.available + (s.requests.map Request.permits).sum = capacity ∧
    (∀ o, (s.budget.owners o).getD 0 = (s.requests.map (Request.listed o)).sum ∧
      (s.budget.owners o).getD 0 ≤ largeBodyShareKib ∧ s.budget.owners o ≠ some 0) ∧
    (∀ r ∈ s.requests, r.Fits capacity s.budget) ∧
    (∀ budgeted owner declared t, next s (.arrive budgeted owner declared) = some t →
      t.budget = s.budget) ∧
    (∀ r ∈ s.requests, r.place.hasPermits = false → r.place.isListed = false → ∀ budget place,
      advance s.budget r = some (budget, place) → (∀ held, place ≠ some (.inserting held)) →
        budget.available = s.budget.available ∧ budget.owners = s.budget.owners) ∧
    ((∀ r ∈ s.requests, r.place.hasPermits = false ∧ r.place.isListed = false) →
      s.budget.available = capacity ∧ s.budget.owners = fun _ ↦ none) := by
  have hinv := inv_of_reachable h
  refine ⟨hinv.permits, fun o ↦ ⟨hinv.listed o, hinv.share o, hinv.nonzero o⟩, fun r hr ↦
    hinv.fits hr, fun budgeted owner declared t hstep ↦ ?_,
    fun r _ hplace hcharge budget place hstep hgrant ↦
      unchanged_of_not_granted hplace hcharge hstep hgrant,
    hinv.initial⟩
  rw [next] at hstep
  split at hstep <;> cases hstep <;> rfl

/-- One owner's upload is being read when another's, past the budget, is refused. -/
theorem exists_largeBodies_exact : ∃ s : State ℕ, (machine 4096).Reachable s ∧
    s.budget.available = 1024 ∧
    s.budget.available + (s.requests.map Request.permits).sum = 4096 := by
  have hrun : ∃ s, (machine (O := ℕ) 4096).follow (fun _ _ ↦ True) ⟨.new 4096, 0⟩
      [.arrive true (some 1) (some 3145728), .advance ⟨1, 3072, .waiting⟩,
        .advance ⟨1, 3072, .checking⟩, .advance ⟨1, 3072, .permitting 0⟩,
        .advance ⟨1, 3072, .inserting 0⟩, .arrive true (some 2) (some 2097152),
        .advance ⟨2, 2048, .waiting⟩, .advance ⟨2, 2048, .checking⟩,
        .advance ⟨2, 2048, .permitting 0⟩] = some s ∧ s.budget.available = 1024 :=
    ⟨_, rfl, rfl⟩
  obtain ⟨s, hs, havailable⟩ := hrun
  have hreach : (machine 4096).Reachable s := Machine.ReachableBy.follow (.start rfl) hs
  exact ⟨s, hreach, havailable, (largeBodies_exact hreach).1⟩

end Exact

end Birdtest.Extract
