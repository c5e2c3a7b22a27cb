import Birdtest.Auth.Locks

namespace Birdtest.Auth

open Birdtest.Base.Crowd Birdtest.Base.Runs Birdtest.Base.Tables
open Birdtest.Jobs.Racks (Text)

def Event.changedBy (token : ℕ) : Event → Bool
  | .changed t _ _ _ => t = token
  | _ => false

/-- What had happened before a password was changed: its token was made, and had not expired when
the change's transaction began; no reset had used or found it, and the account was not deleted. -/
structure Allowed (token user began : ℕ) (past : List Event) : Prop where
  made : ∃ expires, .made token user expires ∈ past ∧ began < expires
  unused : ∀ e ∈ past, e.changedBy token = false
  standing : .deleted user ∉ past
  unfound : ∀ other b time, .changed other user b time ∈ past → ¬Found other token past

def Session.IsFrom (session : Session) (read log : List Event) : Prop :=
  read <:+ log ∧ session.generation = revocations session.user read

structure History (s : State) : Prop where
  allowed : ∀ token user began time past, .changed token user began time :: past <:+ s.log →
    Allowed token user began past
  generation : ∀ u row, s.db.users.get u = some row → row.sessionGeneration = revocations u s.log
  standing : ∀ u row, s.db.users.get u = some row → (row.deletedAt = none ↔ .deleted u ∉ s.log)
  spent : ∀ e ∈ s.log, ∀ token, e.changedBy token = true → ∀ row, s.db.resets.get token = some row →
    row.usedAt ≠ none
  found : ∀ token user began time, .changed token user began time ∈ s.log →
    ∀ k row, s.db.resets.get k = some row → row.user = user → row.usedAt = none →
    ¬Found token k s.log
  verifying : ∀ session isConfirmed read, .verifying session isConfirmed read ∈ s.crowd →
    session.IsFrom read s.log
  issued : ∀ i ∈ s.sessions, i.session.IsFrom i.read s.log

section Step

variable {s t : State} {event : Option Event} {u token : ℕ} {row : User}

theorem Event.mem_ids {e : Event} (h : e.revokes u = true) : u ∈ e.ids := by
  cases e with
  | changed | signedOut | deleted =>
    simp only [Event.revokes, decide_eq_true_eq] at h
    simp [Event.ids, h]
  | _ => cases h

theorem revocations_append (since read : List Event) :
    revocations u (since ++ read) = revocations u since + revocations u read := List.countP_append

theorem Inv.revocations_eq_zero (h : Inv s) (hu : s.drawn ≤ u) : revocations u s.log = 0 := by
  refine List.countP_eq_zero.2 fun e he hrevokes ↦ ?_
  have hlt := h.log_lt e he u (Event.mem_ids hrevokes)
  omega

theorem Inv.deleted_notMem (h : Inv s) (hu : s.drawn ≤ u) : .deleted u ∉ s.log := by
  intro hmem
  have hlt := h.log_lt _ hmem u (by simp [Event.ids])
  omega

theorem generation_changes (h : Inv s) (hhist : History s) (hch : Changes s t.db t.drawn event)
    (hlog : t.log = event.toList ++ s.log) (hrow : t.db.users.get u = some row) :
    row.sessionGeneration = revocations u t.log := by
  rw [hlog, revocations_append]
  rcases hch.users u row hrow with ⟨old, hold, hchanges⟩ | ⟨rfl, hu, -, hzero, -⟩
  · rw [hchanges.generation, hhist.generation u old hold]
    exact Nat.add_comm _ _
  · rw [hzero, h.revocations_eq_zero hu.ge]
    rfl

theorem standing_changes (h : Inv s) (hhist : History s) (hch : Changes s t.db t.drawn event)
    (hlog : t.log = event.toList ++ s.log) (hrow : t.db.users.get u = some row) :
    row.deletedAt = none ↔ .deleted u ∉ t.log := by
  rw [mem_log hlog, not_or]
  rcases hch.users u row hrow with ⟨old, hold, hchanges⟩ | ⟨rfl, hu, -, -, hnone, -⟩
  · rw [hchanges.deletedAt, hhist.standing u old hold, and_comm]
  · exact iff_of_true hnone ⟨nofun, h.deleted_notMem hu.ge⟩

theorem Database.Redeems.unchanged {began : ℕ} {e : Event} (h : s.db.Redeems token began u)
    (hhist : History s) (he : e ∈ s.log) : e.changedBy token = false := by
  obtain ⟨row, hrow, -, hnone, -⟩ := h.unspent
  by_contra hchanged
  exact hhist.spent e he token (Bool.not_eq_false _ ▸ hchanged) row hrow hnone

theorem allowed_of_redeems {began : ℕ} (h : Inv s) (hhist : History s)
    (hredeems : s.db.Redeems token began u) : Allowed token u began s.log := by
  obtain ⟨row, hrow, rfl, hnone, hlt⟩ := hredeems.unspent
  obtain ⟨account, haccount⟩ := Option.isSome_iff_exists.1 hredeems.present
  rw [present_eq_some] at haccount
  exact ⟨⟨row.expiresAt, h.made token row hrow, hlt⟩, fun e he ↦ hredeems.unchanged hhist he,
    (hhist.standing _ account haccount.1).1 haccount.2,
    fun other b time hmem ↦ hhist.found other row.user b time hmem token row hrow rfl hnone⟩

theorem allowed_changes (h : Inv s) (hhist : History s) (hch : Changes s t.db t.drawn event)
    (hlog : t.log = event.toList ++ s.log) {began time : ℕ} {past : List Event}
    (hsuffix : .changed token u began time :: past <:+ t.log) : Allowed token u began past := by
  rw [hlog] at hsuffix
  cases event with
  | none => exact hhist.allowed token u began time past hsuffix
  | some e =>
    rcases List.suffix_cons_iff.1 hsuffix with heq | hsuffix
    · obtain ⟨rfl, rfl⟩ := List.cons.inj heq
      exact allowed_of_redeems h hhist (hch.fits _ rfl).1
    · exact hhist.allowed token u began time past hsuffix

theorem spent_changes (h : Inv s) (hhist : History s) (hch : Changes s t.db t.drawn event)
    (hlog : t.log = event.toList ++ s.log) {e : Event} (he : e ∈ t.log)
    (hchanged : e.changedBy token = true) {row : Code} (hrow : t.db.resets.get token = some row) :
    row.usedAt ≠ none := by
  cases e with
  | changed k user began time =>
    simp only [Event.changedBy, decide_eq_true_eq] at hchanged
    subst hchanged
    rcases (mem_log hlog).1 he with rfl | he
    · exact (hch.fits _ rfl).2.2.1 row hrow
    · rcases hch.resets k row hrow with ⟨old, hold, hages⟩ | ⟨rfl, -⟩
      · exact hages.usedAt (hhist.spent _ he k (by simp [Event.changedBy]) old hold)
      · have hlt := h.log_lt _ he k (by simp [Event.ids])
        have hk : k = s.drawn := (hch.fits _ rfl).1
        omega
  | _ => cases hchanged

theorem found_changes (h : Inv s) (hhist : History s) (hch : Changes s t.db t.drawn event)
    (hlog : t.log = event.toList ++ s.log) {began time k : ℕ} {row : Code}
    (hmem : .changed token u began time ∈ t.log) (hrow : t.db.resets.get k = some row)
    (huser : row.user = u) (hnone : row.usedAt = none) : ¬Found token k t.log := by
  have hold : .changed token u began time ∈ s.log → ¬Found token k s.log := by
    intro hmem hfound
    rcases hch.resets k row hrow with ⟨old, hold, hages⟩ | ⟨rfl, -⟩
    · refine hhist.found token u began time hmem k old hold (hages.user.symm.trans huser) ?_ hfound
      by_contra hused
      exact hages.usedAt hused hnone
    · obtain ⟨user, expires, hmade⟩ := hfound.made
      have hlt := h.log_lt _ hmade k (by simp [Event.ids])
      have hk : k = s.drawn := (hch.fits _ rfl).1
      omega
  rw [hlog] at hmem ⊢
  cases event with
  | none => exact hold hmem
  | some e =>
    rw [Option.toList_some, List.singleton_append, found_cons]
    rcases List.mem_cons.1 hmem with rfl | hpast
    · rintro (hfound | ⟨user, expires, heq, -⟩)
      · exact (hch.fits _ rfl).2.2.2 k row hrow huser hnone hfound
      · cases heq
    · rintro (hfound | ⟨user, expires, rfl, -⟩)
      · exact hold hpast hfound
      · obtain ⟨b, hredeems⟩ := hch.fits _ rfl
        have hunchanged := hredeems.unchanged hhist hpast
        simp [Event.changedBy] at hunchanged

theorem Session.IsFrom.mono {session : Session} {read log log' : List Event}
    (h : session.IsFrom read log) (hlog : log <:+ log') : session.IsFrom read log' :=
  ⟨h.1.trans hlog, h.2⟩

theorem History.changes (h : Inv s) (hhist : History s) (hch : Changes s t.db t.drawn event)
    (hlog : t.log = event.toList ++ s.log)
    (hverifying : ∀ session isConfirmed read, .verifying session isConfirmed read ∈ t.crowd →
      session.IsFrom read s.log)
    (hissued : ∀ i ∈ t.sessions, i.session.IsFrom i.read s.log) : History t where
  allowed _ _ _ _ _ hsuffix := allowed_changes h hhist hch hlog hsuffix
  generation _ _ hrow := generation_changes h hhist hch hlog hrow
  standing _ _ hrow := standing_changes h hhist hch hlog hrow
  spent _ he _ hchanged _ hrow := spent_changes h hhist hch hlog he hchanged hrow
  found _ _ _ _ hmem _ _ hrow huser hnone := found_changes h hhist hch hlog hmem hrow huser hnone
  verifying session isConfirmed read hmem :=
    (hverifying session isConfirmed read hmem).mono (hlog ▸ List.suffix_append ..)
  issued i hi := (hissued i hi).mono (hlog ▸ List.suffix_append ..)

end Step

section Next

variable {texts : Texts} {s t : State} {others : Multiset Stage} {p : Stage} {o : Outcome}
  {a : Action}

theorem verifying_of_advance {session : Session} {isConfirmed : Bool} {read : List Event}
    (hhist : History s) (hadv : advance texts s others p = some o)
    (hq : o.stage = some (.verifying session isConfirmed read)) : session.IsFrom read s.log := by
  cases goes_of_advance hadv hq with
  | loggingIn hfound =>
    cases hq
    exact ⟨List.suffix_refl _, hhist.generation _ _ (accountOf_eq_some hfound).1⟩
  | _ => cases hq

theorem issued_of_advance {i : Issued} (hadv : advance texts s others p = some o)
    (hi : o.issued = some i) : ∃ isConfirmed, p = .verifying i.session isConfirmed i.read := by
  cases p with
  | verifying session isConfirmed read =>
    simp only [advance] at hadv
    split at hadv
    · cases hadv
      cases hi
      exact ⟨isConfirmed, rfl⟩
    · cases hadv
      cases hi
  | _ =>
    simp only [advance] at hadv
    repeat' split at hadv
    all_goals
      cases hadv
      try cases hi

theorem History.go (h : Inv s) (hhist : History s) (hp : p ∈ s.crowd)
    (hadv : advance texts s (s.crowd.erase p) p = some o) : History (s.after p o) := by
  have hch := changes_of_effect h hp (effect_of_advance hadv)
  refine hhist.changes (t := s.after p o) h hch rfl (fun session isConfirmed read hmem ↦ ?_)
    fun i hi ↦ ?_
  · rcases mem_move hmem with hq | hmem
    · exact verifying_of_advance hhist hadv hq
    · exact hhist.verifying session isConfirmed read (Multiset.mem_of_mem_erase hmem)
  · rcases List.mem_append.1 hi with hi | hi
    · obtain ⟨isConfirmed, rfl⟩ := issued_of_advance hadv (Option.mem_toList.1 hi)
      exact hhist.verifying i.session isConfirmed i.read hp
    · exact hhist.issued i hi

theorem History.next (h : Inv s) (hhist : History s) (hs : next texts s a = some t) :
    History t := by
  cases moves_of_next hs with
  | @arrive request p hp =>
    refine hhist.changes (t := { s with crowd := p ::ₘ s.crowd }) h (changes_refl s) rfl
      (fun session isConfirmed read hmem ↦ ?_) hhist.issued
    rcases Multiset.mem_cons.1 hmem with rfl | hmem
    · cases isFirst_of_begins hp
    · exact hhist.verifying session isConfirmed read hmem
  | go hp hadv => exact hhist.go h hp hadv
  | stop hp =>
    exact hhist.changes (t := { s with crowd := s.crowd.erase _ }) h (changes_refl s) rfl
      (fun session isConfirmed read hmem ↦
        hhist.verifying session isConfirmed read (Multiset.mem_of_mem_erase hmem)) hhist.issued
  | @pass seconds =>
    exact hhist.changes (t := { s with now := s.now + seconds }) h
      (changes_refl s) rfl hhist.verifying
      hhist.issued
  | @grant user hfree =>
    exact hhist.changes (t := { s with db := s.db.grant user }) h
      (changes_grant user) rfl hhist.verifying
      hhist.issued

theorem history_of_reachable (h : (machine texts).Reachable s) : History s := by
  refine h.invariant_of (fun _ ↦ inv_of_reachable) (fun s hs ↦ ?_)
    fun s a t hinv hhist _ hs ↦ hhist.next hinv hs
  obtain ⟨now, drawn, db, crowd, sessions, log⟩ := s
  obtain ⟨rfl, rfl, rfl, rfl, rfl⟩ := hs
  refine ⟨fun _ _ _ _ _ h ↦ ?_, nofun, nofun, nofun, nofun, nofun, nofun⟩
  cases List.suffix_nil.1 h

end Next

section Run

variable {texts : Texts} {s : State} {token u : ℕ}

theorem countP_le_one {p : Event → Bool} {log : List Event}
    (h : ∀ e past, e :: past <:+ log → p e = true → ∀ e' ∈ past, p e' = false) :
    log.countP p ≤ 1 := by
  induction log with
  | nil => exact Nat.zero_le _
  | cons e past ih =>
    have hpast := ih fun e past hsuffix ↦ h e past (hsuffix.trans (List.suffix_cons ..))
    rw [List.countP_cons]
    split
    · next hp =>
      have hzero : past.countP p = 0 :=
        List.countP_eq_zero.2 fun e' he' ↦ by simp [h e past (List.suffix_refl _) hp e' he']
      omega
    · exact hpast

theorem History.countP_changedBy (hhist : History s) :
    s.log.countP (Event.changedBy token) ≤ 1 := by
  refine countP_le_one fun e past hsuffix hchanged ↦ ?_
  cases e with
  | changed k user began time =>
    simp only [Event.changedBy, decide_eq_true_eq] at hchanged
    subst hchanged
    exact (hhist.allowed k user began time past hsuffix).unused
  | _ => cases hchanged

theorem History.currentUser_eq_none {i : Issued} {since : List Event} (hhist : History s)
    (hi : i ∈ s.sessions) (hlog : s.log = since ++ i.read)
    (hrevoked : ∃ e ∈ since, e.revokes i.session.user = true) :
    s.db.currentUser i.session = none := by
  by_contra hsome
  obtain ⟨row, hrow⟩ := Option.ne_none_iff_exists'.1 hsome
  rw [Database.currentUser, Option.filter_eq_some_iff, present_eq_some, decide_eq_true_eq] at hrow
  obtain ⟨⟨hrow, -⟩, hgeneration⟩ := hrow
  have hpos : 0 < revocations i.session.user since := List.countP_pos_iff.2 hrevoked
  have hnow := hhist.generation _ row hrow
  rw [hlog, revocations_append, hgeneration, (hhist.issued i hi).2] at hnow
  omega

theorem Inv.nothing_of_deleted {row : User} (h : Inv s) (hrow : s.db.users.get u = some row)
    (hdeleted : row.deletedAt ≠ none) :
    s.db.keysOf u = [] ∧ s.db.codesOf u = [] ∧ s.db.resetsOf u = [] := by
  have hclears := h.gone u row hrow hdeleted
  refine ⟨List.eq_nil_iff_forall_not_mem.2 fun k hk ↦ ?_,
    List.eq_nil_iff_forall_not_mem.2 fun k hk ↦ ?_, List.eq_nil_iff_forall_not_mem.2 fun k hk ↦ ?_⟩
  · obtain ⟨key, hkey, huser⟩ := mem_keysOf.1 hk
    exact absurd (hclears.mem_keys k key hkey huser) List.not_mem_nil
  · obtain ⟨code, hcode, huser⟩ := mem_codesOf.1 hk
    exact absurd (hclears.mem_codes k code hcode huser) List.not_mem_nil
  · obtain ⟨code, hcode, huser⟩ := mem_resetsOf.1 hk
    exact absurd (hclears.mem_resets k code hcode huser) List.not_mem_nil

/-- A credential of an account ends with what it rests on, in every run. -/
theorem credentials_end (h : (machine texts).Reachable s) :
    (∀ token user began time past, .changed token user began time :: past <:+ s.log →
      Allowed token user began past) ∧
    (∀ token, s.log.countP (Event.changedBy token) ≤ 1) ∧
    (∀ i ∈ s.sessions, i.read <:+ s.log ∧ ∀ since, s.log = since ++ i.read →
      (∃ e ∈ since, e.revokes i.session.user = true) → s.db.currentUser i.session = none) ∧
    (∀ user row, s.db.users.get user = some row →
      (row.deletedAt ≠ none ↔ .deleted user ∈ s.log) ∧
      (row.deletedAt ≠ none → s.db.keysOf user = [] ∧ s.db.codesOf user = [] ∧
        s.db.resetsOf user = [])) ∧
    ∀ user, s.db.keys.count (·.user = user) ≤ maxApiKeys := by
  have hinv := inv_of_reachable h
  have hhist := history_of_reachable h
  refine ⟨hhist.allowed, fun token ↦ hhist.countP_changedBy, fun i hi ↦ ?_, fun user row hrow ↦ ?_,
    hinv.keys⟩
  · exact ⟨(hhist.issued i hi).1, fun since hlog ↦ hhist.currentUser_eq_none hi hlog⟩
  · refine ⟨?_, hinv.nothing_of_deleted hrow⟩
    rw [← not_iff_not, not_not]
    exact hhist.standing user row hrow

end Run

section Runs

variable (r : Registration) (user code token : ℕ) (passwordHash : Text) (began : ℕ)
  (others : List ℕ)

def confirmRun : List Action :=
  [.arrive (.confirmEmail code), .go (.confirming code began),
    .go (.redeeming code began (some user)),
    .go (.redeemed code began (some user) user), .go (.confirmed code began user)]

def requestRun : List Action :=
  [.arrive (.requestReset r.email), .go (.requesting r.email), .go (.drawing user),
    .go (.mailing user (began + resetTtl))]

def readRun : List Action :=
  [.arrive (.confirmReset token passwordHash), .go (.resetting token passwordHash),
    .go (.rehashing token passwordHash)]

def redeemRun : List Action :=
  [.go (.lockingReset token passwordHash began), .go (.lockedReset token passwordHash began user),
    .go (.redeemedReset token passwordHash began user user),
    .go (.changedReset token passwordHash began user)]

def commitRun : List Action := [.go (.spentReset token passwordHash began user others)]

end Runs

def joshRun : List Action := registerRun josh 0 ++ confirmRun 0 1 0

/-- A reset's transaction begins while its token is good, and commits half an hour later. -/
theorem exists_late : ∃ s, (machine .ascii).Reachable s ∧
    s.log = [.changed 2 0 0 resetTtl, .spending 2 0, .made 2 0 resetTtl, .confirmed 0 1,
      .registered 0 1] := by
  have hstart : (machine .ascii).Reachable _ := start_ascii
  obtain ⟨s, hs, hlog⟩ := hstart.follow_any
    (joshRun ++ requestRun josh 0 0 ++ readRun 2 ['b'] ++ [.pass resetTtl] ++
      redeemRun 0 2 ['b'] 0 ++ commitRun 0 2 ['b'] 0 [])
    (fun s ↦ s.log = [.changed 2 0 0 resetTtl, .spending 2 0, .made 2 0 resetTtl, .confirmed 0 1,
      .registered 0 1])
    (by decide +kernel)
  exact ⟨s, hs, of_decide_eq_true hlog⟩

/-- The token `3` is made after the reset with `2` has looked for it, and before that commits. -/
theorem exists_missed : ∃ s, (machine .ascii).Reachable s ∧
    s.log = [.changed 3 0 0 0, .spending 3 0, .changed 2 0 0 0, .made 3 0 resetTtl, .spending 2 0,
      .made 2 0 resetTtl, .confirmed 0 1, .registered 0 1] := by
  have hstart : (machine .ascii).Reachable _ := start_ascii
  obtain ⟨s, hs, hlog⟩ := hstart.follow_any
    (joshRun ++ requestRun josh 0 0 ++ readRun 2 ['b'] ++ redeemRun 0 2 ['b'] 0 ++
      requestRun josh 0 0 ++ commitRun 0 2 ['b'] 0 [] ++ readRun 3 ['c'] ++ redeemRun 0 3 ['c'] 0 ++
      commitRun 0 3 ['c'] 0 [])
    (fun s ↦ s.log = [.changed 3 0 0 0, .spending 3 0, .changed 2 0 0 0, .made 3 0 resetTtl,
      .spending 2 0, .made 2 0 resetTtl, .confirmed 0 1, .registered 0 1])
    (by decide +kernel)
  exact ⟨s, hs, of_decide_eq_true hlog⟩

def madeLog : List Event := [.made 2 0 resetTtl, .confirmed 0 1, .registered 0 1]

/-- A login that has read the account is still verifying the old password while a reset commits. -/
theorem credentials_end_login : ∃ s, (machine .ascii).Reachable s ∧
    ⟨⟨0, 0⟩, madeLog⟩ ∈ s.sessions ∧ s.log = [.changed 2 0 0 0, .spending 2 0] ++ madeLog ∧
    s.db.currentUser ⟨0, 0⟩ = none ∧ Allowed 2 0 0 (.spending 2 0 :: madeLog) := by
  have hstart : (machine .ascii).Reachable _ := start_ascii
  obtain ⟨s, hs, hp⟩ := hstart.follow_any
    (joshRun ++ requestRun josh 0 0 ++
      [.arrive (.login josh.username), .go (.loggingIn josh.username)] ++
      readRun 2 ['b'] ++ redeemRun 0 2 ['b'] 0 ++ commitRun 0 2 ['b'] 0 [] ++
      [.go (.verifying ⟨0, 0⟩ true madeLog)])
    (fun s ↦ ⟨⟨0, 0⟩, madeLog⟩ ∈ s.sessions ∧ s.log = [.changed 2 0 0 0, .spending 2 0] ++ madeLog)
    (by decide +kernel)
  obtain ⟨hissued, hlog⟩ := of_decide_eq_true hp
  obtain ⟨hallowed, -, hrefused, -⟩ := credentials_end hs
  refine ⟨s, hs, hissued, hlog, (hrefused _ hissued).2 _ hlog ⟨_, List.mem_cons_self, rfl⟩, ?_⟩
  exact hallowed 2 0 0 0 _ (hlog ▸ List.suffix_refl _)

/-- A token may change the password after it has expired, and after another reset that committed
later than it was made. -/
theorem reset_late_and_missed :
    (¬∀ (texts : Texts) (s : State), (machine texts).Reachable s →
      ∀ token user began time past expires,
      .changed token user began time :: past <:+ s.log → .made token user expires ∈ past →
      time < expires) ∧
    ¬∀ (texts : Texts) (s : State), (machine texts).Reachable s →
      ∀ token user began time past other b t before expires,
      .changed token user began time :: past <:+ s.log →
      .changed other user b t :: before <:+ past →
      .made token user expires ∉ before := by
  constructor
  · intro hclaim
    obtain ⟨s, hs, hlog⟩ := exists_late
    have hs := hclaim .ascii s hs
    rw [hlog] at hs
    exact Nat.lt_irrefl _ (hs 2 0 0 resetTtl _ resetTtl (List.suffix_refl _) (by decide))
  · intro hclaim
    obtain ⟨s, hs, hlog⟩ := exists_missed
    have hs := hclaim .ascii s hs
    rw [hlog] at hs
    exact hs 3 0 0 0 _ 2 0 0 _ resetTtl (List.suffix_refl _) (List.suffix_cons ..) (by decide)

end Birdtest.Auth
