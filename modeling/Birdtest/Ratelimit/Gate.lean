import Birdtest.Base.Runs
import Birdtest.Ratelimit.Limiters

namespace Birdtest.Ratelimit.Gate

open Birdtest.Base.Buckets Birdtest.Base.Runs Birdtest.Base.Tables

inductive WorkerBucket
  | claims | workInHand
  deriving DecidableEq

/-- What names a worker: `k:` and its key's digest in hexadecimal, or `a:` and its UUID. -/
structure Credential where
  presented : String
  plain : '#' ∉ presented.toList
  short : (presented ++ "#work").utf8ByteSize ≤ maxKeyBytes
  deriving DecidableEq

structure Request (A : Type) where
  credential : Credential
  bucket : WorkerBucket
  address : A
  deriving DecidableEq

/-- Why a request was let past its address's bucket, and when. -/
inductive Pass
  | known (arrived : ℕ)
  | charged (now : ℕ)
  deriving DecidableEq

inductive Event (A : Type)
  | charged (key : String) (now : ℕ)
  | lookup (request : Request A) (pass : Pass) (now : ℕ)
  | resolved (presented : String) (now : ℕ)

/-- The gate and the requests within it: those that have yet to pay their address's bucket, those
that have yet to pay their own, and those whose lookup is under way. -/
structure State (bucket : (l : Limiter) → Bucket (quota l)) (A : Type) where
  now : ℕ
  limits : Limits bucket
  known : Table String ℕ
  asking : List (Request A)
  admitted : List (Request A × Pass)
  looking : List (Request A)
  log : List (Event A)

inductive Action (A : Type)
  | elapse (duration : ℕ)
  | arrive (request : Request A)
  | payAddress (request : Request A)
  | payOwn (request : Request A) (pass : Pass)
  | answer (request : Request A) (found : Bool)
  | sweep (l : Limiter)
  | sweepKnown

section Gate

variable {bucket : (l : Limiter) → Bucket (quota l)} {A : Type} [DecidableEq A]
variable (digest : String → String) (display : A → String)

def knownFor : ℕ := 600 * second

def maxKnown : ℕ := 50000

def isKnown (s : State bucket A) (presented : String) : Bool :=
  (s.known.get presented).any fun seen ↦ s.now - seen < knownFor

def addressKey (address : A) : String := "ip:" ++ display address

def ownKey (c : Credential) : WorkerBucket → String
  | .claims => c.presented
  | .workInHand => c.presented ++ "#work"

def remember (s : State bucket A) (presented : String) : State bucket A :=
  let s := { s with log := .resolved presented s.now :: s.log }
  if s.known.rows.length < maxKnown ∨ (s.known.get presented).isSome then
    { s with known := s.known.put presented s.now }
  else s

def next (s : State bucket A) : Action A → Option (State bucket A)
  | .elapse duration => some { s with now := s.now + duration }
  -- `admit`, up to its first check
  | .arrive r =>
    if isKnown s r.credential.presented then
      some { s with admitted := (r, .known s.now) :: s.admitted }
    else some { s with asking := r :: s.asking }
  | .payAddress r =>
    if r ∈ s.asking then
      let s := { s with asking := s.asking.erase r }
      match check digest s.limits .unknownPerAddress (addressKey display r.address) s.now s.now with
      | .ok limits => some { s with
          limits := limits
          admitted := (r, .charged s.now) :: s.admitted
          log := .charged (bucketKey digest (addressKey display r.address)) s.now :: s.log }
      | .error _ => some s
    else none
  | .payOwn r pass =>
    if (r, pass) ∈ s.admitted then
      let s := { s with admitted := s.admitted.erase (r, pass) }
      match check digest s.limits .worker (ownKey r.credential r.bucket) s.now s.now with
      | .ok limits => some { s with
          limits := limits
          looking := r :: s.looking
          log := .lookup r pass s.now :: s.log }
      | .error _ => some s
    else none
  -- found, and not banned
  | .answer r found =>
    if r ∈ s.looking then
      let s := { s with looking := s.looking.erase r }
      some (if found then remember s r.credential.presented else s)
    else none
  | .sweep l => some { s with limits := sweep s.limits l s.now }
  | .sweepKnown => some { s with known := s.known.retain fun seen ↦ s.now - seen < knownFor }

def machine : Machine (State bucket A) (Action A) where
  start s := ∃ now, s = ⟨now, fun _ ↦ Table.empty, Table.empty, [], [], [], []⟩
  next := next digest display

end Gate

section Counts

variable {A : Type} (digest : String → String) (display : A → String)

def charges (key : String) (log : List (Event A)) : List ℕ :=
  log.filterMap fun
    | .charged key' now => if key' = key then some now else none
    | _ => none

def lookups (key : String) (log : List (Event A)) : List ℕ :=
  log.filterMap fun
    | .lookup r _ now =>
      if bucketKey digest (ownKey r.credential r.bucket) = key then some now
      else none
    | _ => none

def chargeOf (key : String) : Request A × Pass → Option ℕ
  | (r, .charged now) =>
    if bucketKey digest (addressKey display r.address) = key then some now
    else none
  | (_, .known _) => none

/-- The lookups that an address had to be charged for, by when it was and when they were made. -/
def strangers (key : String) (log : List (Event A)) : List (ℕ × ℕ) :=
  log.filterMap fun
    | .lookup r pass now => (chargeOf digest display key (r, pass)).map fun charged ↦ (charged, now)
    | _ => none

def promptly (late : ℕ) (made : List (ℕ × ℕ)) (first last : ℕ) : ℕ :=
  made.countP fun (charged, now) ↦ (first ≤ now ∧ now ≤ last) ∧ now ≤ charged + late

def lookedUp (log : List (Event A)) : List String :=
  log.filterMap fun
    | .lookup r _ _ => some (bucketKey digest (ownKey r.credential r.bucket))
    | _ => none

/-- The credential resolved in the ten minutes before the request arrived. -/
def Vouched (log : List (Event A)) (r : Request A) (arrived : ℕ) : Prop :=
  ∃ seen, .resolved r.credential.presented seen ∈ log ∧ seen ≤ arrived ∧ arrived - seen < knownFor

end Counts

section Invariant

variable {bucket : (l : Limiter) → Bucket (quota l)} {A : Type} {digest : String → String}
  {display : A → String}
variable {s t : State bucket A} {r : Request A} {pass : Pass} {e : Event A}

structure Inv (digest : String → String) (display : A → String) (s : State bucket A) : Prop where
  address : ∀ key, Paced (quota .unknownPerAddress)
    (owedBy (s.limits .unknownPerAddress) key s.now) s.now
    (charges key s.log)
  own : ∀ key, Paced (quota .worker) (owedBy (s.limits .worker) key s.now) s.now
    (lookups digest key s.log)
  paid : ∀ key, (s.admitted.filterMap (chargeOf digest display key) ++
    (strangers digest display key s.log).map Prod.fst).Subperm (charges key s.log)
  dated : ∀ r charged, (r, .charged charged) ∈ s.admitted → charged ≤ s.now
  charged : ∀ key, ∀ made ∈ strangers digest display key s.log, made.1 ≤ made.2
  known : ∀ presented seen, s.known.get presented = some seen → seen ≤ s.now ∧
    .resolved presented seen ∈ s.log
  bounded : s.known.rows.length ≤ maxKnown
  admitted : ∀ r arrived, (r, .known arrived) ∈ s.admitted → Vouched s.log r arrived
  vouched : ∀ r arrived now, .lookup r (.known arrived) now ∈ s.log → Vouched s.log r arrived
  buckets : ∀ key, ((s.limits .worker).get key).isSome = true → key ∈ lookedUp digest s.log

theorem Vouched.cons {log : List (Event A)} {arrived : ℕ} (h : Vouched log r arrived)
    (e : Event A) :
    Vouched (e :: log) r arrived := by
  obtain ⟨seen, hseen, hle, hlt⟩ := h
  exact ⟨seen, List.mem_cons_of_mem _ hseen, hle, hlt⟩

theorem Inv.elapse (h : Inv digest display s) (duration : ℕ) :
    Inv digest display { s with now := s.now + duration } where
  address key := by
    have hlater := (h.address key).elapse (Nat.le_add_right s.now duration)
    rwa [← owedBy_later (Nat.le_add_right s.now duration)] at hlater
  own key := by
    have hlater := (h.own key).elapse (Nat.le_add_right s.now duration)
    rwa [← owedBy_later (Nat.le_add_right s.now duration)] at hlater
  paid := h.paid
  dated r charged hmem := Nat.le_add_right_of_le (h.dated r charged hmem)
  charged := h.charged
  known presented seen hseen := (h.known presented seen hseen).imp_left (Nat.le_add_right_of_le ·)
  bounded := h.bounded
  admitted := h.admitted
  vouched := h.vouched
  buckets := h.buckets

theorem Inv.arrive (h : Inv digest display s) (r : Request A)
    (hknown : isKnown s r.credential.presented = true) :
    Inv digest display { s with admitted := (r, .known s.now) :: s.admitted } where
  address := h.address
  own := h.own
  paid := h.paid
  dated r' charged hmem := h.dated r' charged ((List.mem_cons.1 hmem).resolve_left (by simp))
  charged := h.charged
  known := h.known
  bounded := h.bounded
  admitted r' arrived hmem := by
    rcases List.mem_cons.1 hmem with heq | hmem
    · cases heq
      obtain ⟨seen, hseen, hlt⟩ := (Option.any_eq_true ..).1 hknown
      obtain ⟨hle, hresolved⟩ := h.known _ _ hseen
      exact ⟨seen, hresolved, hle, of_decide_eq_true hlt⟩
    · exact h.admitted r' arrived hmem
  vouched := h.vouched
  buckets := h.buckets

theorem Inv.refuse [DecidableEq A] (h : Inv digest display s) (p : Request A × Pass) :
    Inv digest display { s with admitted := s.admitted.erase p } where
  address := h.address
  own := h.own
  paid key := by
    refine List.Subperm.trans (List.Sublist.subperm ?_) (h.paid key)
    exact ((List.erase_sublist ..).filterMap _).append_right _
  dated r charged hmem := h.dated r charged (List.mem_of_mem_erase hmem)
  charged := h.charged
  known := h.known
  bounded := h.bounded
  admitted r arrived hmem := h.admitted r arrived (List.mem_of_mem_erase hmem)
  vouched := h.vouched
  buckets := h.buckets

theorem paced_charge {q : Quota} {b : Bucket q} {t u : Table String b.State}
    {key key' : String} {now : ℕ} {passes : List ℕ} (h : Paced q (owedBy t key' now) now passes)
    (hcharge : charge t key now = .ok u) :
    Paced q (owedBy u key' now) now (if key = key' then now :: passes else passes) := by
  obtain ⟨hle, hself, hother⟩ := of_charge_ok hcharge
  split
  · next heq =>
    subst heq
    rw [hself]
    exact h.take hle
  · next hne =>
    rw [hother key' (fun heq ↦ hne heq.symm)]
    exact h

theorem charges_cons_charged (key key' : String) (now : ℕ) (log : List (Event A)) :
    charges key' (.charged key now :: log) = if key = key' then now :: charges key' log
    else charges key' log := by
  unfold charges
  rw [List.filterMap_cons]
  by_cases h : key = key' <;> simp [h]

theorem lookups_cons_lookup (key : String) (r : Request A) (pass : Pass) (now : ℕ)
    (log : List (Event A)) :
    lookups digest key (.lookup r pass now :: log) =
      if bucketKey digest (ownKey r.credential r.bucket) = key then now :: lookups digest key log
      else lookups digest key log := by
  unfold lookups
  rw [List.filterMap_cons]
  by_cases h : bucketKey digest (ownKey r.credential r.bucket) = key <;> simp [h]

theorem strangers_cons_lookup (key : String) (r : Request A) (pass : Pass) (now : ℕ)
    (log : List (Event A)) :
    strangers digest display key (.lookup r pass now :: log) =
      ((chargeOf digest display key (r, pass)).map fun charged ↦ (charged, now)).toList ++
        strangers digest display key log := by
  unfold strangers
  rw [List.filterMap_cons]
  dsimp only
  cases chargeOf digest display key (r, pass) <;> rfl

theorem eq_charged_of_chargeOf {key : String} {now : ℕ}
    (h : chargeOf digest display key (r, pass) = some now) : pass = .charged now := by
  cases pass with
  | known arrived => cases h
  | charged charged =>
    simp only [chargeOf, Option.ite_none_right_eq_some, Option.some.injEq] at h
    rw [h.2]

theorem Inv.payAddress (h : Inv digest display s) {limits : Limits bucket}
    (hcheck : check digest s.limits .unknownPerAddress (addressKey display r.address) s.now s.now =
      .ok limits) :
    Inv digest display { s with
      limits := limits
      admitted := (r, .charged s.now) :: s.admitted
      log := .charged (bucketKey digest (addressKey display r.address)) s.now :: s.log } := by
  obtain ⟨u, hcharge, rfl⟩ := of_check_ok hcheck
  have hworker : Function.update s.limits .unknownPerAddress u .worker = s.limits .worker :=
    Function.update_of_ne (by simp) ..
  refine ⟨fun key ↦ ?_, fun key ↦ ?_, fun key ↦ ?_, fun r' charged hmem ↦ ?_, h.charged,
    fun presented seen hseen ↦ ?_, h.bounded, fun r' arrived hmem ↦ ?_,
    fun r' arrived now hmem ↦ ?_,
    fun key hkey ↦ ?_⟩
  · dsimp only
    rw [Function.update_self, charges_cons_charged]
    exact paced_charge (h.address key) hcharge
  · dsimp only
    rw [hworker]
    exact h.own key
  · rw [charges_cons_charged]
    change ((_ :: _).filterMap _ ++ (strangers digest display key s.log).map _).Subperm _
    by_cases hkey : bucketKey digest (addressKey display r.address) = key
    · have hpaid : chargeOf digest display key (r, .charged s.now) = some s.now := if_pos hkey
      rw [List.filterMap_cons_some hpaid, if_pos hkey, List.cons_append]
      exact (List.subperm_cons _).2 (h.paid key)
    · have hpaid : chargeOf digest display key (r, .charged s.now) = none := if_neg hkey
      rw [List.filterMap_cons_none hpaid, if_neg hkey]
      exact h.paid key
  · rcases List.mem_cons.1 hmem with heq | hmem
    · cases heq
      exact Nat.le_refl _
    · exact h.dated r' charged hmem
  · exact (h.known presented seen hseen).imp_right (List.mem_cons_of_mem _)
  · exact (h.admitted r' arrived ((List.mem_cons.1 hmem).resolve_left (by simp))).cons _
  · exact (h.vouched r' arrived now ((List.mem_cons.1 hmem).resolve_left (by simp))).cons _
  · dsimp only at hkey
    rw [hworker] at hkey
    exact h.buckets key hkey

theorem isSome_put {κ ρ : Type} [DecidableEq κ] {t : Table κ ρ} {k k' : κ} {row : ρ}
    (h : ((t.put k row).get k').isSome = true) : k' = k ∨ (t.get k').isSome = true := by
  by_cases hk : k' = k
  · exact .inl hk
  · rw [Table.get_put_of_ne hk] at h
    exact .inr h

theorem Inv.payOwn [DecidableEq A] (h : Inv digest display s) (hmem : (r, pass) ∈ s.admitted)
    {limits : Limits bucket}
    (hcheck : check digest s.limits .worker (ownKey r.credential r.bucket) s.now s.now =
      .ok limits) :
    Inv digest display { s with
      admitted := s.admitted.erase (r, pass)
      limits := limits
      looking := r :: s.looking
      log := .lookup r pass s.now :: s.log } := by
  obtain ⟨u, hcharge, rfl⟩ := of_check_ok hcheck
  have haddress : Function.update s.limits .worker u .unknownPerAddress =
      s.limits .unknownPerAddress :=
    Function.update_of_ne (by simp) ..
  refine ⟨fun key ↦ ?_, fun key ↦ ?_, fun key ↦ ?_, fun r' charged hmem' ↦ ?_,
    fun key made hmade ↦ ?_, fun presented seen hseen ↦ ?_, h.bounded, fun r' arrived hmem' ↦ ?_,
    fun r' arrived now hmem' ↦ ?_, fun key hkey ↦ ?_⟩
  · dsimp only
    rw [haddress]
    exact h.address key
  · dsimp only
    rw [Function.update_self, lookups_cons_lookup]
    exact paced_charge (h.own key) hcharge
  · -- the request's own charge, if it made one, moves from the admitted to the looked up
    have hperm := (List.perm_cons_erase hmem).filterMap (chargeOf digest display key)
    refine List.Subperm.trans (List.Perm.subperm ?_) (h.paid key)
    refine List.Perm.trans ?_ (hperm.append_right _).symm
    dsimp only
    rw [strangers_cons_lookup]
    cases hpaid : chargeOf digest display key (r, pass) with
    | none =>
      rw [List.filterMap_cons_none hpaid]
      exact .refl _
    | some now =>
      rw [List.filterMap_cons_some hpaid]
      exact List.perm_middle
  · exact h.dated r' charged (List.mem_of_mem_erase hmem')
  · dsimp only at hmade
    rw [strangers_cons_lookup, List.mem_append] at hmade
    rcases hmade with hmade | hmade
    · obtain ⟨charged, hpaid, rfl⟩ := Option.map_eq_some_iff.1 (Option.mem_toList.1 hmade)
      exact h.dated r charged (eq_charged_of_chargeOf hpaid ▸ hmem)
    · exact h.charged key made hmade
  · exact (h.known presented seen hseen).imp_right (List.mem_cons_of_mem _)
  · exact (h.admitted r' arrived (List.mem_of_mem_erase hmem')).cons _
  · rcases List.mem_cons.1 hmem' with heq | hmem'
    · cases heq
      exact (h.admitted r arrived hmem).cons _
    · exact (h.vouched r' arrived now hmem').cons _
  · dsimp only at hkey
    rw [Function.update_self] at hkey
    obtain ⟨row, rfl⟩ := eq_put_of_charge_ok hcharge
    rcases isSome_put hkey with rfl | hkey
    · exact List.mem_cons_self
    · exact List.mem_cons_of_mem _ (h.buckets key hkey)

theorem Inv.remember (h : Inv digest display s) (presented : String) :
    Inv digest display (remember s presented) := by
  have hlog : Inv digest display { s with log := .resolved presented s.now :: s.log } := by
    refine ⟨h.address, h.own, h.paid, h.dated, h.charged, fun presented' seen hseen ↦ ?_, h.bounded,
      fun r arrived hmem ↦ (h.admitted r arrived hmem).cons _, fun r arrived now hmem ↦ ?_,
      h.buckets⟩
    · exact (h.known presented' seen hseen).imp_right (List.mem_cons_of_mem _)
    · exact (h.vouched r arrived now ((List.mem_cons.1 hmem).resolve_left (by simp))).cons _
  unfold Gate.remember
  dsimp only
  split
  · next hroom =>
    refine ⟨hlog.address, hlog.own, hlog.paid, hlog.dated, hlog.charged,
      fun presented' seen hseen ↦ ?_, ?_, hlog.admitted, hlog.vouched, hlog.buckets⟩
    · dsimp only at hseen
      by_cases hp : presented' = presented
      · rw [hp, Table.get_put_self, Option.some.injEq] at hseen
        subst hseen
        rw [hp]
        exact ⟨Nat.le_refl _, List.mem_cons_self⟩
      · rw [Table.get_put_of_ne hp] at hseen
        exact hlog.known presented' seen hseen
    · -- one row more where there is room for it, or one in the place of another
      have hput : (s.known.put presented s.now).rows.length =
          (s.known.rows.filter (·.1 ≠ presented)).length + 1 := rfl
      have hrest := Table.countP_filter_ne (t := s.known) (k := presented) fun _ ↦ true
      simp only [List.countP_true] at hrest
      have hbounded := h.bounded
      rcases hroom with hroom | hold
      · dsimp only
        omega
      · rw [Option.isSome_iff_exists] at hold
        obtain ⟨seen, hseen⟩ := hold
        rw [hseen] at hrest
        simp only [Option.any_some, Bool.toNat_true] at hrest
        dsimp only
        omega
  · exact hlog

theorem Inv.sweep (h : Inv digest display s) (l : Limiter) :
    Inv digest display { s with limits := sweep s.limits l s.now } where
  address key := by
    rw [owedBy_sweep (Nat.le_refl _)]
    exact h.address key
  own key := by
    rw [owedBy_sweep (Nat.le_refl _)]
    exact h.own key
  paid := h.paid
  dated := h.dated
  charged := h.charged
  known := h.known
  bounded := h.bounded
  admitted := h.admitted
  vouched := h.vouched
  buckets key hkey := by
    refine h.buckets key ?_
    dsimp only [Ratelimit.sweep] at hkey
    by_cases hl : Limiter.worker = l
    · subst hl
      rw [Function.update_self, forget, Table.get_retain] at hkey
      exact Option.isSome_of_isSome_filter _ _ hkey
    · rwa [Function.update_of_ne hl] at hkey

theorem Inv.sweepKnown (h : Inv digest display s) (p : ℕ → Bool) :
    Inv digest display { s with known := s.known.retain p } where
  address := h.address
  own := h.own
  paid := h.paid
  dated := h.dated
  charged := h.charged
  known presented seen hseen := by
    rw [Table.get_retain, Option.filter_eq_some_iff] at hseen
    exact h.known presented seen hseen.1
  bounded := Nat.le_trans (List.length_filter_le ..) h.bounded
  admitted := h.admitted
  vouched := h.vouched
  buckets := h.buckets

theorem Inv.asking (h : Inv digest display s) (asking looking : List (Request A)) :
    Inv digest display { s with asking := asking, looking := looking } :=
  ⟨h.address, h.own, h.paid, h.dated, h.charged, h.known, h.bounded, h.admitted,
    h.vouched, h.buckets⟩

theorem Inv.next [DecidableEq A] (h : Inv digest display s) {a : Action A}
    (hs : Gate.next digest display s a = some t) : Inv digest display t := by
  cases a with
  | elapse duration =>
    cases hs
    exact h.elapse duration
  | arrive r =>
    simp only [Gate.next] at hs
    split at hs
    · next hknown =>
      cases hs
      exact h.arrive r hknown
    · cases hs
      exact h.asking _ _
  | payAddress r =>
    simp only [Gate.next, Option.ite_none_right_eq_some] at hs
    obtain ⟨-, hs⟩ := hs
    split at hs
    · next limits hcheck =>
      cases hs
      exact (h.asking (s.asking.erase r) s.looking).payAddress hcheck
    · cases hs
      exact h.asking _ _
  | payOwn r pass =>
    simp only [Gate.next, Option.ite_none_right_eq_some] at hs
    obtain ⟨hmem, hs⟩ := hs
    split at hs
    · next limits hcheck =>
      cases hs
      exact h.payOwn hmem hcheck
    · cases hs
      exact h.refuse _
  | answer r found =>
    simp only [Gate.next, Option.ite_none_right_eq_some, Option.some.injEq] at hs
    obtain ⟨-, rfl⟩ := hs
    split
    · exact (h.asking _ _).remember _
    · exact h.asking _ _
  | sweep l =>
    cases hs
    exact h.sweep l
  | sweepKnown =>
    cases hs
    exact h.sweepKnown _

theorem inv_of_reachable [DecidableEq A] (h : (machine digest display).Reachable s) :
    Inv digest display s := by
  refine h.invariant (fun s hs ↦ ?_) fun s a t hinv _ hs ↦ hinv.next hs
  obtain ⟨now, rfl⟩ := hs
  refine ⟨fun key ↦ ?_, fun key ↦ ?_, fun key ↦ List.nil_subperm, fun r charged hmem ↦ ?_,
    fun key made hmade ↦ ?_, fun presented seen hseen ↦ ?_, Nat.zero_le _, fun r arrived hmem ↦ ?_,
    fun r arrived now hmem ↦ ?_, fun key hkey ↦ ?_⟩
  · dsimp only
    rw [owedBy_empty]
    exact Paced.new _ _
  · dsimp only
    rw [owedBy_empty]
    exact Paced.new _ _
  · cases hmem
  · cases hmade
  · cases hseen
  · cases hmem
  · cases hmem
  · cases hkey

end Invariant

section Spared

variable {bucket : (l : Limiter) → Bucket (quota l)} {A : Type} {digest : String → String}
variable {display : A → String} {s t : State bucket A} {c c' : Credential}
  {b b' : WorkerBucket} {since : ℕ}

theorem bucketKey_ownKey (digest : String → String) (c : Credential) (b : WorkerBucket) :
    bucketKey digest (ownKey c b) = ownKey c b := by
  refine if_neg (Nat.not_lt.2 ?_)
  cases b with
  | claims =>
    exact Nat.le_trans (by rw [String.utf8ByteSize_append]; exact Nat.le_add_right ..) c.short
  | workInHand => exact c.short

theorem ownKey_inj (h : ownKey c b = ownKey c' b') : c = c' ∧ b = b' := by
  have hmark (c : Credential) : '#' ∈ (c.presented ++ "#work").toList := by
    rw [String.toList_append]
    exact List.mem_append_right _ (by decide)
  cases b with
  | claims =>
    cases b' with
    | claims => exact ⟨by cases c; cases c'; cases h; rfl, rfl⟩
    | workInHand =>
      have h : c.presented = c'.presented ++ "#work" := h
      exact absurd (by rw [h]; exact hmark c') c.plain
  | workInHand =>
    cases b' with
    | claims =>
      have h : c.presented ++ "#work" = c'.presented := h
      exact absurd (by rw [← h]; exact hmark c) c'.plain
    | workInHand =>
      have hsame : c.presented = c'.presented := by
        rw [← String.toList_inj]
        have hlists := congrArg String.toList h
        rw [ownKey, ownKey, String.toList_append, String.toList_append] at hlists
        exact List.append_cancel_right hlists
      exact ⟨by cases c; cases c'; cases hsame; rfl, rfl⟩

def Action.spares (c : Credential) (b : WorkerBucket) : Action A → Bool
  | .payOwn r _ => (r.credential, r.bucket) ≠ (c, b)
  | _ => true

def Ready (c : Credential) (b : WorkerBucket) (since : ℕ) (s : State bucket A) : Prop :=
  (∃ seen, since ≤ seen ∧ s.known.get c.presented = some seen) ∧
    owedBy (s.limits .worker) (ownKey c b) s.now + (quota .worker).interval ≤ (quota .worker).full

theorem Ready.limits (h : Ready c b since s) {limits : Limits bucket}
    {asking looking : List (Request A)} {admitted : List (Request A × Pass)} {log : List (Event A)}
    (howed : owedBy (limits .worker) (ownKey c b) s.now = owedBy (s.limits .worker)
      (ownKey c b) s.now) :
    Ready c b since ⟨s.now, limits, s.known, asking, admitted, looking, log⟩ :=
  ⟨h.1, by dsimp only; rw [howed]; exact h.2⟩

theorem Ready.remember (h : Ready c b since s) (hle : since ≤ s.now) (presented : String) :
    Ready c b since (remember s presented) := by
  obtain ⟨⟨seen, hseen, hget⟩, hcell⟩ := h
  unfold Gate.remember
  dsimp only
  split
  · refine ⟨?_, hcell⟩
    by_cases hp : c.presented = presented
    · exact ⟨s.now, hle, by rw [hp]; exact Table.get_put_self⟩
    · exact ⟨seen, hseen, by rw [← hget]; exact Table.get_put_of_ne hp⟩
  · exact ⟨⟨seen, hseen, hget⟩, hcell⟩

theorem Ready.next [DecidableEq A] {a : Action A} (h : Ready c b since s) (hle : since ≤ s.now)
    (hrecent : s.now - since < knownFor) (hspares : a.spares c b = true)
    (hs : Gate.next digest display s a = some t) : Ready c b since t := by
  cases a with
  | elapse duration =>
    cases hs
    refine ⟨h.1, ?_⟩
    have hcell := h.2
    dsimp only
    rw [owedBy_later (Nat.le_add_right s.now duration)]
    omega
  | arrive r =>
    simp only [Gate.next] at hs
    split at hs <;> cases hs <;> exact h
  | payAddress r =>
    simp only [Gate.next, Option.ite_none_right_eq_some] at hs
    obtain ⟨-, hs⟩ := hs
    split at hs
    · next limits hcheck =>
      cases hs
      exact h.limits (owedBy_check hcheck (by simp) _)
    · cases hs
      exact h
  | payOwn r pass =>
    simp only [Gate.next, Option.ite_none_right_eq_some] at hs
    obtain ⟨-, hs⟩ := hs
    split at hs
    · next limits hcheck =>
      cases hs
      refine h.limits (owedBy_check hcheck (fun heq ↦ of_decide_eq_true hspares ?_) _)
      rw [bucketKey_ownKey] at heq
      obtain ⟨rfl, rfl⟩ := ownKey_inj (Prod.mk.inj heq).2
      rfl
    · cases hs
      exact h
  | answer r found =>
    simp only [Gate.next, Option.ite_none_right_eq_some, Option.some.injEq] at hs
    obtain ⟨-, rfl⟩ := hs
    split
    · exact Ready.remember (s := { s with looking := s.looking.erase r }) h hle _
    · exact h
  | sweep l =>
    cases hs
    exact h.limits (owedBy_sweep (Nat.le_refl _) _ _)
  | sweepKnown =>
    cases hs
    obtain ⟨⟨seen, hseen, hget⟩, hcell⟩ := h
    refine ⟨⟨seen, hseen, ?_⟩, hcell⟩
    dsimp only
    rw [Table.get_retain, hget, Option.filter_some,
      if_pos (by simp only [decide_eq_true_eq]; omega)]

end Spared

section Results

variable {bucket : (l : Limiter) → Bucket (quota l)} {A : Type} [DecidableEq A]
  {digest : String → String}
variable {display : A → String} {s t : State bucket A} {c : Credential}
  {b : WorkerBucket} {since : ℕ}

theorem now_le_next {a : Action A} (hs : Gate.next digest display s a = some t) :
    s.now ≤ t.now := by
  cases a with
  | elapse duration =>
    cases hs
    exact Nat.le_add_right ..
  | arrive r =>
    simp only [Gate.next] at hs
    split at hs <;> cases hs <;> exact Nat.le_refl _
  | payAddress r =>
    simp only [Gate.next, Option.ite_none_right_eq_some] at hs
    obtain ⟨-, hs⟩ := hs
    split at hs <;> cases hs <;> exact Nat.le_refl _
  | payOwn r pass =>
    simp only [Gate.next, Option.ite_none_right_eq_some] at hs
    obtain ⟨-, hs⟩ := hs
    split at hs <;> cases hs <;> exact Nat.le_refl _
  | answer r found =>
    simp only [Gate.next, Option.ite_none_right_eq_some, Option.some.injEq] at hs
    obtain ⟨-, rfl⟩ := hs
    unfold remember
    dsimp only
    split <;> try split
    all_goals exact Nat.le_refl _
  | sweep l =>
    cases hs
    exact Nat.le_refl _
  | sweepKnown =>
    cases hs
    exact Nat.le_refl _

/-- What was looked up soon after its charge was charged soon before it was looked up. -/
theorem promptly_le {made : List (ℕ × ℕ)} (h : ∀ p ∈ made, p.1 ≤ p.2) (late first last : ℕ) :
    promptly late made first last ≤ within (made.map Prod.fst) (first - late) last := by
  unfold promptly within
  rw [List.countP_map]
  refine List.countP_mono_left fun p hp hprompt ↦ ?_
  have hle := h p hp
  simp only [decide_eq_true_eq, Function.comp_apply] at hprompt ⊢
  omega

theorem lookups_paced (h : (machine digest display).Reachable s) {first last : ℕ}
    (hwindow : first ≤ last) (address : A) (c : Credential) (b : WorkerBucket) :
    let key := bucketKey digest (addressKey display address)
    (∀ made ∈ strangers digest display key s.log, made.1 ≤ made.2) ∧
    ((strangers digest display key s.log).map Prod.fst).Subperm (charges key s.log) ∧
    within (charges key s.log) first last ≤ 100 + (last - first) / (second / 5) ∧
    (∀ late, promptly late (strangers digest display key s.log) first last ≤
      100 + (last - first + late) / (second / 5)) ∧
    within (lookups digest (bucketKey digest (ownKey c b)) s.log) first last ≤
      5 + (last - first) / second := by
  intro key
  have hinv := inv_of_reachable h
  have hpaid : ((strangers digest display key s.log).map Prod.fst).Subperm (charges key s.log) :=
    List.Subperm.trans (List.sublist_append_right ..).subperm (hinv.paid key)
  refine ⟨hinv.charged key, hpaid, (hinv.address key).within_le hwindow, fun late ↦ ?_,
    (hinv.own _).within_le hwindow⟩
  calc promptly late (strangers digest display key s.log) first last
      ≤ within ((strangers digest display key s.log).map Prod.fst) (first - late) last :=
        promptly_le (hinv.charged key) late first last
    _ ≤ within (charges key s.log) (first - late) last := hpaid.countP_le _
    _ ≤ 100 + (last - (first - late)) / (second / 5) :=
        (hinv.address key).within_le (Nat.le_trans (Nat.sub_le ..) hwindow)
    _ ≤ 100 + (last - first + late) / (second / 5) :=
        Nat.add_le_add_left (Nat.div_le_div_right (by omega)) 100

theorem gate_remembers_resolved (h : (machine digest display).Reachable s) :
    (∀ r arrived now, .lookup r (.known arrived) now ∈ s.log → Vouched s.log r arrived) ∧
    s.known.rows.length ≤ maxKnown ∧
    (∀ presented seen, s.known.get presented = some seen → .resolved presented seen ∈ s.log) ∧
    ∀ key row, (s.limits .worker).get key = some row → ∃ r pass now, .lookup r pass now ∈ s.log ∧
      bucketKey digest (ownKey r.credential r.bucket) = key := by
  have hinv := inv_of_reachable h
  refine ⟨hinv.vouched, hinv.bounded,
    fun presented seen hseen ↦ (hinv.known presented seen hseen).2, fun key row hrow ↦ ?_⟩
  have hlooked := hinv.buckets key (by rw [hrow]; rfl)
  rw [lookedUp, List.mem_filterMap] at hlooked
  obtain ⟨e, he, hkey⟩ := hlooked
  cases e with
  | charged key' now => cases hkey
  | resolved presented now => cases hkey
  | lookup r pass now =>
    rw [Option.some.injEq] at hkey
    exact ⟨r, pass, now, he, hkey⟩

theorem exists_payOwn (digest : String → String) (display : A → String) {r : Request A}
    {pass : Pass} (hmem : (r, pass) ∈ s.admitted)
    (hcell : owedBy (s.limits .worker) (ownKey r.credential r.bucket) s.now +
      (quota .worker).interval ≤ (quota .worker).full) :
    ∃ u, next digest display s (.payOwn r pass) = some u ∧ .lookup r pass s.now ∈ u.log := by
  rw [← bucketKey_ownKey digest] at hcell
  obtain ⟨u, hu⟩ := exists_charge hcell
  have hcheck : check digest s.limits .worker (ownKey r.credential r.bucket) s.now s.now = _ :=
    check_of_charge hu
  simp only [next, if_pos hmem, hcheck, Option.some.injEq]
  exact ⟨_, rfl, List.mem_cons_self⟩

def alice : Credential := ⟨"a:7", by decide, by decide⟩

def bob : Credential := ⟨"k:abc", by decide, by decide⟩

def claimOf (c : Credential) : Request String := ⟨c, .claims, "192.0.2.50"⟩

def firstClaim : List (Action String) :=
  [.arrive (claimOf alice), .payAddress (claimOf alice), .elapse 7,
    .payOwn (claimOf alice) (.charged 0), .answer (claimOf alice) true]

theorem exists_lookups_paced : ∃ s : State gcraOf String, (machine id id).Reachable s ∧
    strangers id id "ip:192.0.2.50" s.log = [(0, 7)] ∧
    within (charges "ip:192.0.2.50" s.log) 0 second ≤ 100 + (second - 0) / (second / 5) := by
  obtain ⟨s, hs, hp⟩ := (Machine.ReachableBy.start ⟨0, rfl⟩ :
    (machine id id).Reachable _).follow_any firstClaim
      (fun s : State gcraOf String ↦ strangers id id "ip:192.0.2.50" s.log = [(0, 7)])
      (by decide +kernel)
  obtain ⟨-, -, hcharges, -⟩ := lookups_paced hs (Nat.zero_le second) "192.0.2.50" alice .claims
  exact ⟨s, hs, of_decide_eq_true hp, hcharges⟩

theorem exists_gate_remembers_resolved : ∃ s : State gcraOf String, (machine id id).Reachable s ∧
    s.looking = [claimOf alice] ∧ Vouched s.log (claimOf alice) 7 := by
  obtain ⟨s, hs, hp⟩ :=
    (Machine.ReachableBy.start ⟨0, rfl⟩ : (machine id id).Reachable _).follow_any
    (firstClaim ++ [.arrive (claimOf alice), .payOwn (claimOf alice) (.known 7)])
    (fun s : State gcraOf String ↦ s.looking = [claimOf alice] ∧ s.log.any fun
      | .lookup r pass _ => r = claimOf alice ∧ pass = .known 7
      | _ => false) (by decide +kernel)
  obtain ⟨hlooking, hlog⟩ := of_decide_eq_true hp
  obtain ⟨e, he, hlookup⟩ := List.any_eq_true.1 hlog
  cases e with
  | charged key now => cases hlookup
  | resolved presented now => cases hlookup
  | lookup r pass now =>
    obtain ⟨rfl, rfl⟩ := of_decide_eq_true hlookup
    exact ⟨s, hs, hlooking, (gate_remembers_resolved hs).1 _ 7 now he⟩

end Results

end Birdtest.Ratelimit.Gate
