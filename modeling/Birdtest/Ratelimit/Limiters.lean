import Birdtest.Base.Buckets

namespace Birdtest.Ratelimit

open Birdtest.Base.Tables Birdtest.Base.Buckets

/-- The keyed limiters of `RateLimiters`, and the credential gate's own. -/
inductive Limiter
  | register | worker | unregisteredWorker | reset | login | loginAccount | keyCreation | keyChanges
  | redeem | unknownPerAddress
  deriving DecidableEq

section Quotas

-- in nanoseconds

def second : ℕ := 1000000000

def minute : ℕ := 60 * second

def hour : ℕ := 3600 * second

/-- `Quota::per_hour` and its like: the cells of a period, all of them at once. -/
def per (period cells : ℕ) (h : 0 < cells ∧ cells ≤ period) : Quota :=
  ⟨cells, period / cells, h.1, Nat.div_pos h.2 h.1⟩

def allowBurst (q : Quota) (burst : ℕ) (h : 0 < burst) : Quota :=
  { q with burst := burst, burst_pos := h }

def quota : Limiter → Quota
  | .register => per hour 10 (by decide)
  | .worker => allowBurst (per second 1 (by decide)) 5 (by decide)
  | .unregisteredWorker => allowBurst (per second 5 (by decide)) 30 (by decide)
  | .reset => per hour 5 (by decide)
  | .login => per minute 10 (by decide)
  | .loginAccount => per minute 100 (by decide)
  | .keyCreation => allowBurst (per hour 10 (by decide)) 100 (by decide)
  | .keyChanges => allowBurst (per hour 60 (by decide)) 100 (by decide)
  | .redeem => per minute 20 (by decide)
  | .unknownPerAddress => allowBurst (per second 5 (by decide)) 100 (by decide)

end Quotas

section Limiters

abbrev Limits (bucket : (l : Limiter) → Bucket (quota l)) : Type :=
  (l : Limiter) → Table String (bucket l).State

variable {bucket : (l : Limiter) → Bucket (quota l)}
-- `hex::encode(Sha256::digest(key))`
variable (digest : String → String)

def maxKeyBytes : ℕ := 128

def bucketKey (key : String) : String :=
  if key.utf8ByteSize > maxKeyBytes then "sha256:" ++ digest key else key

/-- The whole seconds of `Retry-After`, of a wait that began `late` ago. -/
def retryAfter (wait late : ℕ) : ℕ :=
  let wait := wait - late
  max (wait / second + if wait % second > 0 then 1 else 0) 1

/-- The clock is read twice, for the decision and for the wait that a refusal tells. -/
def check (limits : Limits bucket) (l : Limiter) (key : String) (now told : ℕ) :
    Except ℕ (Limits bucket) :=
  match charge (limits l) (bucketKey digest key) now with
  | .ok t => .ok (Function.update limits l t)
  | .error wait => .error (retryAfter wait (told - now))

def sweep (limits : Limits bucket) (l : Limiter) (now : ℕ) : Limits bucket :=
  Function.update limits l (forget (limits l) now)

def limiters : List Limiter :=
  [.register, .worker, .unregisteredWorker, .reset, .login, .loginAccount, .keyCreation,
    .keyChanges, .redeem, .unknownPerAddress]

/-- Every limiter reads the clock for itself. -/
def retainRecent (limits : Limits bucket) (clock : Limiter → ℕ) : Limits bucket :=
  limiters.foldl (fun limits l ↦ sweep limits l (clock l)) limits

inductive Call
  | check (l : Limiter) (key : String) (now told : ℕ)
  | sweep (l : Limiter) (now : ℕ)

def Call.now : Call → ℕ
  | .check _ _ now _ | .sweep _ now => now

def Call.isCheck : Call → Bool
  | .check .. => true
  | .sweep .. => false

def Call.charged : Call → Option (Limiter × String)
  | .check l key _ _ => some (l, bucketKey digest key)
  | .sweep .. => none

def after (limits : Limits bucket) : Call → Limits bucket
  | .check l key now told => match check digest limits l key now told with
    | .ok limits' => limits'
    | .error _ => limits
  | .sweep l now => sweep limits l now

def run (limits : Limits bucket) (calls : List Call) : Limits bucket :=
  calls.foldl (after digest) limits

def answers (limits : Limits bucket) : List Call → List (Except ℕ Unit)
  | [] => []
  | .check l key now told :: calls =>
    (check digest limits l key now told).map (fun _ ↦ ()) ::
      answers (after digest limits (.check l key now told)) calls
  | .sweep l now :: calls => answers (sweep limits l now) calls

end Limiters

section Owed

variable {bucket : (l : Limiter) → Bucket (quota l)} {digest : String → String}
  {limits limits' next : Limits bucket}
variable {l l' : Limiter} {key key' : String} {now told later secs : ℕ} {call : Call}
  {calls : List Call}

theorem of_check_ok (h : check digest limits l key now told = .ok next) :
    ∃ t, charge (limits l) (bucketKey digest key) now = .ok t ∧
    next = Function.update limits l t := by
  unfold check at h
  split at h
  · next t ht =>
    cases h
    exact ⟨t, ht, rfl⟩
  · cases h

theorem of_check_error (h : check digest limits l key now told = .error secs) :
    ∃ wait, charge (limits l) (bucketKey digest key) now = .error wait ∧
    secs = retryAfter wait (told - now) := by
  unfold check at h
  split at h
  · cases h
  · next wait hwait =>
    cases h
    exact ⟨wait, hwait, rfl⟩

theorem check_of_charge {t : Table String (bucket l).State}
    (h : charge (limits l) (bucketKey digest key) now = .ok t) :
    check digest limits l key now told = .ok (Function.update limits l t) := by
  rw [check, h]

theorem owedBy_sweep (h : now ≤ later) (l' : Limiter) (key : String) :
    owedBy (sweep limits l now l') key later = owedBy (limits l') key later := by
  by_cases hl : l' = l
  · subst hl
    rw [sweep, Function.update_self, owedBy_forget h]
  · rw [sweep, Function.update_of_ne hl]

theorem owedBy_check (h : check digest limits l key now told = .ok next)
    (hne : (l', key') ≠ (l, bucketKey digest key)) (later : ℕ) :
    owedBy (next l') key' later = owedBy (limits l') key' later := by
  obtain ⟨t, ht, rfl⟩ := of_check_ok h
  by_cases hl : l' = l
  · subst hl
    rw [Function.update_self]
    exact (of_charge_ok ht).2.2 key' (fun hkey ↦ hne (by rw [hkey])) later
  · rw [Function.update_of_ne hl]

theorem owedBy_after (hnow : call.now ≤ later) (hne : call.charged digest ≠ some (l, key)) :
    owedBy (after digest limits call l) key later = owedBy (limits l) key later := by
  cases call with
  | check l' key' now told =>
    cases hcheck : check digest limits l' key' now told with
    | error secs => rw [after, hcheck]
    | ok next =>
      rw [after, hcheck]
      exact owedBy_check hcheck (fun heq ↦ hne (congrArg some heq.symm)) later
  | sweep l' now => exact owedBy_sweep hnow l key

theorem owedBy_run (hnow : ∀ call ∈ calls, call.now ≤ later)
    (hne : ∀ call ∈ calls, call.charged digest ≠ some (l, key)) :
    owedBy (run digest limits calls l) key later = owedBy (limits l) key later := by
  induction calls generalizing limits with
  | nil => rfl
  | cons call calls ih =>
    rw [run, List.foldl_cons, ← run, ih (fun c hc ↦ hnow c (List.mem_cons_of_mem _ hc))
      fun c hc ↦ hne c (List.mem_cons_of_mem _ hc)]
    exact owedBy_after (hnow call List.mem_cons_self) (hne call List.mem_cons_self)

end Owed

section Sweeps

variable {bucket : (l : Limiter) → Bucket (quota l)} {digest : String → String}
  {limits limits' next : Limits bucket}
variable {l : Limiter} {key : String} {now told later : ℕ} {call : Call} {calls : List Call}

def Agree (now : ℕ) (limits limits' : Limits bucket) : Prop :=
  ∀ l key later, now ≤ later → owedBy (limits l) key later = owedBy (limits' l) key later

theorem Agree.refl (now : ℕ) (limits : Limits bucket) : Agree now limits limits := fun _ _ _ _ ↦ rfl

theorem Agree.mono (h : Agree now limits limits') (hle : now ≤ later) :
    Agree later limits limits' :=
  fun l key t ht ↦ h l key t (Nat.le_trans hle ht)

theorem Agree.sweep (h : Agree now limits limits') (l : Limiter) :
    Agree now (sweep limits l now) limits' :=
  fun l' key later hlater ↦ (owedBy_sweep hlater l' key).trans (h l' key later hlater)

theorem Agree.check (h : Agree now limits limits') :
    (check digest limits l key now told).map (fun _ ↦ ()) =
    (check digest limits' l key now told).map (fun _ ↦ ()) ∧
    Agree now (after digest limits (.check l key now told))
    (after digest limits' (.check l key now told)) := by
  unfold after
  cases hcharge : charge (limits l) (bucketKey digest key) now with
  | error wait =>
    have hcharge' := charge_congr_error (h l _ now (Nat.le_refl _)) hcharge
    simp only [Ratelimit.check, hcharge, hcharge']
    exact ⟨trivial, h⟩
  | ok t =>
    obtain ⟨t', hcharge', howed⟩ := charge_congr (h l) hcharge
    simp only [Ratelimit.check, hcharge, hcharge']
    refine ⟨rfl, fun l' key' later hlater ↦ ?_⟩
    by_cases hl : l' = l
    · subst hl
      rw [Function.update_self, Function.update_self]
      exact howed key' later hlater
    · rw [Function.update_of_ne hl, Function.update_of_ne hl]
      exact h l' key' later hlater

theorem Agree.answers (h : Agree now limits limits') (hnow : ∀ call ∈ calls, now ≤ call.now)
    (horder : calls.Pairwise fun c c' ↦ c.now ≤ c'.now) :
    answers digest limits calls = answers digest limits' (calls.filter Call.isCheck) := by
  induction calls generalizing now limits limits' with
  | nil => rfl
  | cons call calls ih =>
    obtain ⟨hfirst, hrest⟩ := List.pairwise_cons.1 horder
    have hagree := h.mono (hnow call List.mem_cons_self)
    cases call with
    | check l key at' told =>
      have hagree : Agree at' limits limits' := hagree
      obtain ⟨hsame, hnext⟩ := hagree.check 
      rw [List.filter_cons_of_pos rfl, Ratelimit.answers, Ratelimit.answers, hsame,
        ih hnext hfirst hrest]
    | sweep l at' =>
      have hagree : Agree at' limits limits' := hagree
      rw [List.filter_cons_of_neg Bool.false_ne_true, Ratelimit.answers]
      exact ih (hagree.sweep l) hfirst hrest

end Sweeps

section Results

variable {bucket : (l : Limiter) → Bucket (quota l)} {digest : String → String}
  {limits : Limits bucket}
variable {l : Limiter} {key : String} {now told secs n later : ℕ} {calls : List Call}

theorem foldl_sweep {ls : List Limiter} (hnodup : ls.Nodup) (clock : Limiter → ℕ) (l : Limiter) :
    ls.foldl (fun limits l ↦ sweep limits l (clock l)) limits l =
      if l ∈ ls then forget (limits l) (clock l) else limits l := by
  induction ls generalizing limits with
  | nil => rfl
  | cons l' ls ih =>
    obtain ⟨hnot, hnodup⟩ := List.nodup_cons.1 hnodup
    rw [List.foldl_cons, ih hnodup]
    by_cases hl : l = l'
    · subst hl
      rw [if_neg hnot, if_pos List.mem_cons_self, sweep, Function.update_self]
    · simp only [List.mem_cons, hl, false_or, sweep, Function.update_of_ne hl]

theorem retainRecent_apply (limits : Limits bucket) (clock : Limiter → ℕ) (l : Limiter) :
    retainRecent limits clock l = forget (limits l) (clock l) := by
  rw [retainRecent, foldl_sweep (by decide), if_pos]
  cases l <;> decide

theorem sweeps_unseen (limits : Limits bucket) (calls : List Call)
    (horder : calls.Pairwise fun c c' ↦ c.now ≤ c'.now) :
    answers digest limits calls = answers digest limits (calls.filter Call.isCheck) ∧
    ∀ clock l key state, (retainRecent limits clock l).get key = some state →
      (bucket l).owed state (clock l) ≠ 0 := by
  refine ⟨(Agree.refl 0 limits).answers (fun _ _ ↦ Nat.zero_le _) horder,
    fun clock l key state hget ↦ ?_⟩
  rw [retainRecent_apply, forget, Table.get_retain, Option.filter_eq_some_iff] at hget
  exact of_decide_eq_true hget.2

/-- The seconds told are the fewest that hold a wait, and one at least. -/
theorem retryAfter_le {wait late : ℕ} (hn : 0 < n) :
    retryAfter wait late ≤ n ↔ wait ≤ late + n * second := by
  unfold retryAfter second
  dsimp only
  split <;> omega

theorem retry_after_exact (hcheck : check digest limits l key now told = .error secs)
    (hlate : now ≤ told) (hn : 0 < n) (hlater : later = told + n * second)
    (hcalls : ∀ call ∈ calls, call.now ≤ later)
    (hothers : ∀ call ∈ calls, call.charged digest ≠ some (l, bucketKey digest key)) (told' : ℕ) :
    (∃ next, check digest (run digest limits calls) l key later told' = .ok next) ↔ secs ≤ n := by
  obtain ⟨wait, hwait, rfl⟩ := of_check_error hcheck
  obtain ⟨-, howed⟩ := of_charge_error hwait
  have hrun : owedBy (run digest limits calls l) (bucketKey digest key) later =
      owedBy (limits l) (bucketKey digest key) now - (later - now) := by
    rw [owedBy_run hcalls hothers]
    exact owedBy_later (by omega)
  have hfull : (quota l).interval ≤ (quota l).full := Nat.le_mul_of_pos_right _ (quota l).burst_pos
  rw [retryAfter_le hn]
  constructor
  · intro hok
    obtain ⟨next, hnext⟩ := hok
    obtain ⟨t, ht, -⟩ := of_check_ok hnext
    have hle := (of_charge_ok ht).1
    omega
  · intro hle
    have hcell : owedBy (run digest limits calls l) (bucketKey digest key) later +
        (quota l).interval ≤
        (quota l).full := by omega
    obtain ⟨t, ht⟩ := exists_charge hcell
    exact ⟨_, check_of_charge ht⟩

def gcraOf (l : Limiter) : Bucket (quota l) := gcra (quota l)

def noLimits : Limits gcraOf := fun _ ↦ Table.empty

/-- Two logins from one address, six seconds apart, and a sweep between them. -/
theorem exists_sweeps_unseen :
    answers id noLimits [.check .login "ip:192.0.2.50" 0 0, .sweep .login (5 * second),
      .check .login "ip:192.0.2.50" (6 * second) (6 * second)] =
    answers id noLimits [.check .login "ip:192.0.2.50" 0 0,
      .check .login "ip:192.0.2.50" (6 * second) (6 * second)] :=
  (sweeps_unseen noLimits _ (by decide)).1

def spent : Limits gcraOf := Function.update noLimits .worker (Table.empty.put "k:abc" (5 * second))

/-- Told a second, a worker that waits it is let through, whatever the neighbours do meanwhile. -/
theorem exists_retry_after_exact : ∃ next, check id (run id spent [.sweep .worker 1000,
    .check .worker "k:def" 2000 2000]) .worker "k:abc" second second = .ok next := by
  have hcheck : check id spent .worker "k:abc" 0 0 = .error 1 := rfl
  exact (retry_after_exact (n := 1) hcheck (Nat.le_refl 0) (by decide) (by decide)
    (by decide) (by decide) second).2 (by decide)

end Results

end Birdtest.Ratelimit
