import Birdtest.Base.Histories
import Birdtest.Base.Runs
import Mathlib.Data.List.Nodup
import Mathlib.Data.Nat.Notation
import Mathlib.Logic.Function.Basic

namespace Birdtest.Pages.ImportWatch

open Birdtest.Base.Histories Birdtest.Base.Runs

variable {I : Type}

inductive ImportState
  | running | staged | nothingNew | confirmed | failed | cancelled
  deriving DecidableEq

structure ImportDetail (I : Type) where
  id : I
  state : ImportState
  deriving DecidableEq

-- `status` is an `ApiError`'s, and 0 for any other failure

def isGone (status : ℕ) : Bool := status = 404 ∨ status = 400

def stopsPolling (status : ℕ) : Bool := status ≥ 400 ∧ status < 500 ∧ status ≠ 408 ∧ status ≠ 429

def ImportState.isOver (state : ImportState) : Bool := state ≠ .running ∧ state ≠ .staged

structure Watch (I : Type) where
  id : I
  asked : ℕ
  applied : ℕ

/-- `watched`, `asked`, `shown` and `failed` carry the watch's generation, and a read's number in
it. -/
inductive Event (I : Type)
  | started (id : I)
  | confirmed (id : I)
  | watched (me : ℕ) (id : I)
  | asked (me mine : ℕ)
  | shown (me mine : ℕ) (detail : ImportDetail I)
  | failed (me mine : ℕ) (id : I) (status : ℕ)
  | forgot
  | signedOut
  | stopped

/-- The watcher's closure with the page around it: `stored` is what the browser remembers under
`IMPORT_KEY`, and `current` the import on the page. An interval is named by its watch. -/
structure State (I : Type) where
  generation : ℕ
  watches : ℕ → Option (Watch I)
  poll : Option ℕ
  intervals : List ℕ
  stopped : Bool
  reading : List (ℕ × ℕ)
  stored : Option I
  current : Option (ImportDetail I)
  confirming : List I
  rereading : List I
  log : List (Event I)

inductive Action (I : Type)
  | resume
  | started (id : I)
  | fire (me : ℕ)
  | answer (me mine : ℕ) (answer : Except ℕ ImportState)
  | confirm
  | confirmed (id : I)
  | reread (id : I) (state : ImportState)
  | stop

section Watcher

variable (s : State I)

def clear : State I := { s with
  poll := none
  intervals := s.poll.elim s.intervals s.intervals.erase }

def setWatch (me : ℕ) (w : Watch I) : State I :=
  { s with watches := Function.update s.watches me (some w) }

def tick (me : ℕ) (w : Watch I) : State I := { setWatch s me { w with asked := w.asked + 1 } with
  reading := (me, w.asked + 1) :: s.reading
  log := .asked me (w.asked + 1) :: s.log }

def watch (id : I) : State I :=
  if s.stopped then s
  else
    let s := clear s
    let me := s.generation + 1
    tick { s with
      generation := me
      poll := some me
      intervals := me :: s.intervals
      log := .watched me id :: s.log } me ⟨id, 0, 0⟩

def forget : State I := { s with stored := none, log := .forgot :: s.log }

def onState (me mine : ℕ) (detail : ImportDetail I) : State I :=
  let s := { s with current := some detail, log := .shown me mine detail :: s.log }
  if detail.state = .running then s
  else if detail.state = .staged then clear s else forget (clear s)

def onError (me mine : ℕ) (id : I) (status : ℕ) : State I :=
  let s := { s with log := .failed me mine id status :: s.log }
  let s := if status = 401 then { s with log := .signedOut :: s.log } else s
  if stopsPolling status then if isGone status then forget (clear s) else clear s else s

def answer (me mine : ℕ) (w : Watch I) : Except ℕ ImportState → State I
  | .ok state =>
    if me ≠ s.generation ∨ mine < w.applied then s
    else onState (setWatch s me { w with applied := mine }) me mine ⟨w.id, state⟩
  | .error status =>
    if me ≠ s.generation ∨ mine < w.applied then s else onError s me mine w.id status

def stop : State I :=
  clear { s with stopped := true, generation := s.generation + 1, log := .stopped :: s.log }

end Watcher

section Page

variable [DecidableEq I]

def forgetIfStored (stored : Option I) (id : I) : Option I :=
  if stored = some id then none else stored

def next (s : State I) : Action I → Option (State I)
  -- `onMount`, before anything else
  | .resume => if s.log.isEmpty then s.stored.map (watch s) else none
  -- `start`, once the server has answered
  | .started id =>
    some (watch { s with stored := some id, current := none, log := .started id :: s.log } id)
  | .fire me => if me ∈ s.intervals then (s.watches me).map (tick s me) else none
  | .answer me mine answered =>
    if (me, mine) ∈ s.reading then
      (s.watches me).map fun w ↦ answer { s with reading := s.reading.erase (me, mine) } me
        mine w answered
    else none
  | .confirm => s.current.map fun detail ↦ { s with confirming := detail.id :: s.confirming }
  | .confirmed id =>
    if id ∈ s.confirming then
      let s := { s with
        confirming := s.confirming.erase id
        stored := forgetIfStored s.stored id
        log := .confirmed id :: s.log }
      if s.current.any (·.id = id) then
        some { s with
          current := s.current.map ({ · with state := .confirmed })
          rereading := id :: s.rereading }
      else some s
    else none
  | .reread id state =>
    if id ∈ s.rereading then
      some { s with
        rereading := s.rereading.erase id
        current := if s.current.any (·.id = id) then some ⟨id, state⟩ else s.current }
    else none
  | .stop => some (stop s)

def machine (I : Type) [DecidableEq I] : Machine (State I) (Action I) where
  start s := ∃ stored, s = ⟨0, fun _ ↦ none, none, [], false, [], stored, none, [], [], []⟩
  next := next

end Page

section Law

def Newest (me : ℕ) (past : List (Event I)) : Prop :=
  ∀ other id, .watched other id ∈ past → other ≤ me

/-- An answer that may still count: of the newest watch, and newer than any shown in it. -/
def Counts (me mine : ℕ) (id : I) (past : List (Event I)) : Prop :=
  .stopped ∉ past ∧ .watched me id ∈ past ∧ .asked me mine ∈ past ∧ Newest me past ∧
    ∀ earlier detail, .shown me earlier detail ∈ past → earlier < mine

/-- The watch whose import nothing has said is at rest. -/
def watching : List (Event I) → Option ℕ
  | [] | .stopped :: _ => none
  | .watched me _ :: _ => some me
  | .shown _ _ detail :: past => if detail.state = .running then watching past else none
  | .failed _ _ _ status :: past => if stopsPolling status then none else watching past
  | .started _ :: past | .confirmed _ :: past | .asked _ _ :: past | .forgot :: past
  | .signedOut :: past => watching past

def lastWatched : List (Event I) → Option I
  | [] => none
  | .watched _ id :: _ => some id
  | _ :: past => lastWatched past

variable [DecidableEq I] in
/-- The import started or resumed last, until the page learns that it is over, gone or confirmed. -/
def unfinished : List (Event I) → Option I
  | [] => none
  | .started id :: _ | .watched _ id :: _ => some id
  | .shown _ _ detail :: past =>
    (unfinished past).filter fun id ↦ ¬ (detail.id = id ∧ detail.state.isOver)
  | .failed _ _ id' status :: past =>
    (unfinished past).filter fun id ↦ ¬ (id' = id ∧ isGone status)
  | .confirmed id' :: past => (unfinished past).filter (· ≠ id')
  | .asked _ _ :: past | .forgot :: past | .signedOut :: past | .stopped :: past => unfinished past

/-- What the page may do after what it has done: it asks only about an import not yet at rest. -/
def Law (past : List (Event I)) : Event I → Prop
  | .watched me _ => .stopped ∉ past ∧ ∀ other id, .watched other id ∈ past → other < me
  | .asked me mine => watching past = some me ∧ .stopped ∉ past ∧ Newest me past ∧
      ∀ earlier, .asked me earlier ∈ past → earlier < mine
  | .shown me mine detail => Counts me mine detail.id past
  | .failed me mine id _ => Counts me mine id past
  | .forgot => ∃ me mine older,
      (∃ detail, past = .shown me mine detail :: older ∧ detail.state.isOver) ∨
      ∃ id status, past = .failed me mine id status :: older ∧ isGone status
  | .signedOut => ∃ me mine id older, past = .failed me mine id 401 :: older
  | .started _ | .confirmed _ | .stopped => True

end Law

section Facts

variable {g me mine : ℕ} {ws : ℕ → Option (Watch I)} {reading : List (ℕ × ℕ)} {log : List (Event I)}
variable {w : Watch I} {e : Event I}

def Event.isQuiet : Event I → Bool
  | .watched .. | .asked .. | .shown .. => false
  | _ => true

structure Facts (g : ℕ) (ws : ℕ → Option (Watch I)) (reading : List (ℕ × ℕ))
    (log : List (Event I)) :
    Prop where
  watches : ∀ me w, ws me = some w → me ≤ g ∧ .watched me w.id ∈ log
  watched : ∀ me id, .watched me id ∈ log → ∃ w, ws me = some w
  asked : ∀ me mine, .asked me mine ∈ log → ∃ w, ws me = some w ∧ mine ≤ w.asked
  shown : ∀ me mine detail, .shown me mine detail ∈ log → .asked me mine ∈ log ∧
    ∃ w, ws me = some w ∧ mine ≤ w.applied
  nodup : reading.Nodup
  unread : ∀ read ∈ reading, .asked read.1 read.2 ∈ log ∧ ∀ detail,
    .shown read.1 read.2 detail ∉ log

theorem Facts.quiet (h : Facts g ws reading log) (he : e.isQuiet = true) :
    Facts g ws reading (e :: log) where
  watches me w hw := (h.watches me w hw).imp_right (List.mem_cons_of_mem e)
  watched me id hmem :=
    h.watched me id ((List.mem_cons.1 hmem).resolve_left (by rintro rfl; cases he))
  asked me mine hmem :=
    h.asked me mine ((List.mem_cons.1 hmem).resolve_left (by rintro rfl; cases he))
  shown me mine detail hmem :=
    (h.shown me mine detail
      ((List.mem_cons.1 hmem).resolve_left (by rintro rfl; cases he))).imp_left
      (List.mem_cons_of_mem e)
  nodup := h.nodup
  unread read hread := by
    obtain ⟨hasked, hfresh⟩ := h.unread read hread
    refine ⟨List.mem_cons_of_mem e hasked, fun detail hmem ↦ hfresh detail ?_⟩
    exact (List.mem_cons.1 hmem).resolve_left (by rintro rfl; cases he)

theorem Facts.newest (h : Facts g ws reading log) : Newest g log := by
  intro other id hmem
  obtain ⟨w, hw⟩ := h.watched other id hmem
  exact (h.watches other w hw).1

theorem Facts.watch (h : Facts g ws reading log) (id : I) :
    Facts (g + 1) (Function.update ws (g + 1) (some ⟨id, 0, 0⟩)) reading
    (.watched (g + 1) id :: log) := by
  have hold : ∀ me w, ws me = some w → Function.update ws (g + 1) (some ⟨id, 0, 0⟩) me =
      some w := by
    intro me w hw
    rw [Function.update_of_ne (Nat.ne_of_lt (Nat.lt_succ_of_le (h.watches me w hw).1)), hw]
  refine ⟨fun me w hw ↦ ?_, fun me id' hmem ↦ ?_, fun me mine hmem ↦ ?_,
    fun me mine detail hmem ↦ ?_, h.nodup, fun read hread ↦ ?_⟩
  · rcases eq_or_ne me (g + 1) with rfl | hne
    · rw [Function.update_self, Option.some.injEq] at hw
      subst hw
      exact ⟨Nat.le_refl _, List.mem_cons_self⟩
    · rw [Function.update_of_ne hne] at hw
      exact (h.watches me w hw).imp Nat.le_succ_of_le (List.mem_cons_of_mem _)
  · rcases List.mem_cons.1 hmem with heq | hmem
    · cases heq
      exact ⟨_, Function.update_self ..⟩
    · obtain ⟨w, hw⟩ := h.watched me id' hmem
      exact ⟨w, hold me w hw⟩
  · obtain ⟨w, hw, hle⟩ := h.asked me mine ((List.mem_cons.1 hmem).resolve_left (by simp))
    exact ⟨w, hold me w hw, hle⟩
  · obtain ⟨hasked, w, hw, hle⟩ :=
      h.shown me mine detail ((List.mem_cons.1 hmem).resolve_left (by simp))
    exact ⟨List.mem_cons_of_mem _ hasked, w, hold me w hw, hle⟩
  · obtain ⟨hasked, hfresh⟩ := h.unread read hread
    refine ⟨List.mem_cons_of_mem _ hasked, fun detail hmem ↦ hfresh detail ?_⟩
    exact (List.mem_cons.1 hmem).resolve_left (by simp)

theorem exists_update {w' : Watch I} (hw : ws me = some w) {other : ℕ} {v : Watch I}
    (hv : ws other = some v) (hasked : w.asked ≤ w'.asked) (happlied : w.applied ≤ w'.applied) :
    ∃ v', Function.update ws me (some w') other = some v' ∧ v.asked ≤ v'.asked ∧
    v.applied ≤ v'.applied := by
  rcases eq_or_ne other me with rfl | hne
  · rw [hw, Option.some.injEq] at hv
    subst hv
    exact ⟨w', Function.update_self .., hasked, happlied⟩
  · exact ⟨v, by rw [Function.update_of_ne hne, hv], Nat.le_refl _, Nat.le_refl _⟩

theorem Facts.update (h : Facts g ws reading log) (hw : ws me = some w) (w' : Watch I)
    (hid : w'.id = w.id) (hasked : w.asked ≤ w'.asked) (happlied : w.applied ≤ w'.applied) :
    Facts g (Function.update ws me (some w')) reading log where
  watches other v hv := by
    rcases eq_or_ne other me with rfl | hne
    · rw [Function.update_self, Option.some.injEq] at hv
      subst hv
      exact hid ▸ h.watches other w hw
    · rw [Function.update_of_ne hne] at hv
      exact h.watches other v hv
  watched other id hmem := by
    obtain ⟨v, hv⟩ := h.watched other id hmem
    obtain ⟨v', hv', -⟩ := exists_update hw hv hasked happlied
    exact ⟨v', hv'⟩
  asked other read hmem := by
    obtain ⟨v, hv, hle⟩ := h.asked other read hmem
    obtain ⟨v', hv', hle', -⟩ := exists_update hw hv hasked happlied
    exact ⟨v', hv', Nat.le_trans hle hle'⟩
  shown other read detail hmem := by
    obtain ⟨hread, v, hv, hle⟩ := h.shown other read detail hmem
    obtain ⟨v', hv', -, hle'⟩ := exists_update hw hv hasked happlied
    exact ⟨hread, v', hv', Nat.le_trans hle hle'⟩
  nodup := h.nodup
  unread := h.unread

theorem Facts.tick (h : Facts g ws reading log) (hw : ws me = some w) :
    Facts g (Function.update ws me (some { w with asked := w.asked + 1 }))
    ((me, w.asked + 1) :: reading)
      (.asked me (w.asked + 1) :: log) := by
  have hup := h.update hw { w with asked := w.asked + 1 } rfl (Nat.le_succ _) (Nat.le_refl _)
  have hnew : .asked me (w.asked + 1) ∉ log := by
    intro hmem
    obtain ⟨w', hw', hle⟩ := h.asked me _ hmem
    rw [hw, Option.some.injEq] at hw'
    exact Nat.not_succ_le_self _ (hw' ▸ hle)
  refine ⟨fun other v hv ↦ (hup.watches other v hv).imp_right (List.mem_cons_of_mem _),
    fun other id hmem ↦ hup.watched other id ((List.mem_cons.1 hmem).resolve_left (by simp)),
    fun other read hmem ↦ ?_,
    fun other read detail hmem ↦ (hup.shown other read detail ((List.mem_cons.1 hmem).resolve_left
      (by simp))).imp_left (List.mem_cons_of_mem _),
    List.nodup_cons.2 ⟨fun hmem ↦ hnew (h.unread _ hmem).1, h.nodup⟩, fun read hread ↦ ?_⟩
  · rcases List.mem_cons.1 hmem with heq | hmem
    · cases heq
      exact ⟨_, Function.update_self .., Nat.le_refl _⟩
    · exact hup.asked other read hmem
  · rcases List.mem_cons.1 hread with rfl | hread
    · refine ⟨List.mem_cons_self, fun detail hmem ↦ hnew ?_⟩
      exact (h.shown _ _ detail ((List.mem_cons.1 hmem).resolve_left (by simp))).1
    · obtain ⟨hasked, hfresh⟩ := h.unread read hread
      refine ⟨List.mem_cons_of_mem _ hasked, fun detail hmem ↦ hfresh detail ?_⟩
      exact (List.mem_cons.1 hmem).resolve_left (by simp)

theorem Facts.take (h : Facts g ws reading log) (read : ℕ × ℕ) :
    Facts g ws (reading.erase read) log :=
  ⟨h.watches, h.watched, h.asked, h.shown, h.nodup.erase read,
    fun other hmem ↦ h.unread other (List.mem_of_mem_erase hmem)⟩

theorem Facts.show (h : Facts g ws reading log) (hw : ws me = some w) (hle : w.applied ≤ mine)
    (hasked : .asked me mine ∈ log) (hlate : (me, mine) ∉ reading) (detail : ImportDetail I) :
    Facts g (Function.update ws me (some { w with applied := mine })) reading
      (.shown me mine detail :: log) := by
  have hup := h.update hw { w with applied := mine } rfl (Nat.le_refl _) hle
  refine ⟨fun other v hv ↦ (hup.watches other v hv).imp_right (List.mem_cons_of_mem _),
    fun other id hmem ↦ hup.watched other id ((List.mem_cons.1 hmem).resolve_left (by simp)),
    fun other read hmem ↦ hup.asked other read ((List.mem_cons.1 hmem).resolve_left (by simp)),
    fun other read detail' hmem ↦ ?_, h.nodup, fun read hread ↦ ?_⟩
  · rcases List.mem_cons.1 hmem with heq | hmem
    · cases heq
      exact ⟨List.mem_cons_of_mem _ hasked, _, Function.update_self .., Nat.le_refl _⟩
    · exact (hup.shown other read detail' hmem).imp_left (List.mem_cons_of_mem _)
  · obtain ⟨hread', hfresh⟩ := h.unread read hread
    refine ⟨List.mem_cons_of_mem _ hread', fun detail' hmem ↦ ?_⟩
    rcases List.mem_cons.1 hmem with heq | hmem
    · cases heq
      exact hlate hread
    · exact hfresh detail' hmem

/-- What an answer of the newest watch finds, where none newer was shown in it. -/
theorem Facts.counts (h : Facts g ws reading log) (hw : ws g = some w) (hle : w.applied ≤ mine)
    (hread : (g, mine) ∈ reading) (hon : .stopped ∉ log) : Counts g mine w.id log := by
  obtain ⟨hasked, hfresh⟩ := h.unread _ hread
  refine ⟨hon, (h.watches g w hw).2, hasked, h.newest, fun earlier detail hmem ↦ ?_⟩
  obtain ⟨-, w', hw', hle'⟩ := h.shown g earlier detail hmem
  rw [hw, Option.some.injEq] at hw'
  subst hw'
  exact Nat.lt_of_le_of_ne (Nat.le_trans hle' hle) fun heq ↦ hfresh detail (heq ▸ hmem)

end Facts

section Invariant

variable [DecidableEq I] {s t : State I} {me mine : ℕ} {w : Watch I} {id : I}

structure Core (s : State I) : Prop where
  facts : Facts s.generation s.watches s.reading s.log
  newest : ∀ w, s.watches s.generation = some w → s.stopped = false ∧ lastWatched s.log = some w.id
  said : .stopped ∈ s.log → s.stopped = true
  current : ∀ detail ∈ s.current, lastWatched s.log = some detail.id
  kept : ∀ id, unfinished s.log = some id → s.stored = some id ∧
    (s.stopped = false → lastWatched s.log = some id)
  lawful : Lawful Law s.log

/-- The interval of the watch that is still to hear of its import's rest, and no other. -/
structure Inv (s : State I) : Prop extends Core s where
  poll : s.poll = watching s.log
  intervals : s.intervals = s.poll.toList
  polls : ∀ me, s.poll = some me → me = s.generation ∧ ∃ w, s.watches me = some w

theorem Core.clear (h : Core s) : Core (clear s) :=
  ⟨h.facts, h.newest, h.said, h.current, h.kept, h.lawful⟩

theorem Inv.clear_intervals (h : Inv s) : (ImportWatch.clear s).intervals = [] := by
  unfold ImportWatch.clear
  rw [h.intervals]
  cases s.poll with
  | none => rfl
  | some me => exact List.erase_cons_head ..

theorem Core.rest (h : Core s) (hpoll : s.poll = none) (hintervals : s.intervals = [])
    (hwatching : watching s.log = none) : Inv s where
  toCore := h
  poll := by rw [hpoll, hwatching]
  intervals := by rw [hintervals, hpoll, Option.toList_none]
  polls me hme := by rw [hpoll] at hme; cases hme

theorem Core.live (h : Core s) (hw : s.watches s.generation = some w) : .stopped ∉ s.log := by
  intro hsaid
  exact Bool.noConfusion ((h.said hsaid).symm.trans (h.newest w hw).1)

theorem Core.unfinished_eq (h : Core s) (hw : s.watches s.generation = some w)
    (hid : unfinished s.log = some id) : id = w.id := by
  obtain ⟨hon, hlast⟩ := h.newest w hw
  have hlast' := (h.kept id hid).2 hon
  rw [hlast, Option.some.injEq] at hlast'
  exact hlast'.symm

theorem Core.shown (h : Core s) (hw : s.watches s.generation = some w) (hle : w.applied ≤ mine)
    (hcounts : Counts s.generation mine w.id s.log) (hlate : (s.generation, mine) ∉ s.reading)
    (state : ImportState) :
    Core { setWatch s s.generation { w with applied := mine } with
      current := some ⟨w.id, state⟩
      log := .shown s.generation mine ⟨w.id, state⟩ :: s.log } where
  facts := h.facts.show hw hle hcounts.2.2.1 hlate ⟨w.id, state⟩
  newest v hv := by
    obtain ⟨hon, hlast⟩ := h.newest w hw
    have hv : Function.update s.watches s.generation (some { w with applied := mine })
        s.generation = some v := hv
    rw [Function.update_self, Option.some.injEq] at hv
    subst hv
    exact ⟨hon, hlast⟩
  said hsaid := h.said ((List.mem_cons.1 hsaid).resolve_left (by simp))
  current detail hdetail := by
    rw [Option.mem_some_iff] at hdetail
    subst hdetail
    exact (h.newest w hw).2
  kept id hid := h.kept id (Option.filter_eq_some_iff.1 hid).1
  lawful := ⟨hcounts, h.lawful⟩

theorem Core.failed (h : Core s)
    (hcounts : Counts s.generation mine w.id s.log) (status : ℕ) :
    Core { s with log := .failed s.generation mine w.id status :: s.log } where
  facts := h.facts.quiet rfl
  newest := h.newest
  said hsaid := h.said ((List.mem_cons.1 hsaid).resolve_left (by simp))
  current := h.current
  kept id hid := h.kept id (Option.filter_eq_some_iff.1 hid).1
  lawful := ⟨hcounts, h.lawful⟩

theorem Core.signedOut (h : Core s) (hlaw : Law s.log .signedOut) :
    Core { s with log := .signedOut :: s.log } where
  facts := h.facts.quiet rfl
  newest := h.newest
  said hsaid := h.said ((List.mem_cons.1 hsaid).resolve_left (by simp))
  current := h.current
  kept := h.kept
  lawful := ⟨hlaw, h.lawful⟩

theorem Core.forget (h : Core s) (hlaw : Law s.log .forgot) (hover : unfinished s.log = none) :
    Core (forget s) where
  facts := h.facts.quiet rfl
  newest := h.newest
  said hsaid := h.said ((List.mem_cons.1 hsaid).resolve_left (by simp))
  current := h.current
  kept id hid := by
    have hid : unfinished s.log = some id := hid
    rw [hover] at hid
    cases hid
  lawful := ⟨hlaw, h.lawful⟩

omit [DecidableEq I] in
theorem filter_unfinished_eq_none {o : Option I} {p : I → Bool} (ho : ∀ id, o = some id → id = w.id)
    (hp : p w.id = false) : o.filter p = none := by
  cases o with
  | none => rfl
  | some id => rw [ho id rfl, Option.filter_some, hp, if_neg Bool.false_ne_true]

theorem Inv.onState (h : Inv s) (hw : s.watches s.generation = some w) (hle : w.applied ≤ mine)
    (hcounts : Counts s.generation mine w.id s.log) (hlate : (s.generation, mine) ∉ s.reading)
    (state : ImportState) :
    Inv (onState (setWatch s s.generation { w with applied := mine }) s.generation mine
      ⟨w.id, state⟩) := by
  have hcore := h.shown hw hle hcounts hlate state
  unfold ImportWatch.onState
  dsimp only
  split
  · next hrunning =>
    refine ⟨hcore, h.poll.trans ?_, h.intervals, fun me hme ↦ ?_⟩
    · exact (if_pos hrunning).symm
    · obtain ⟨rfl, -⟩ := h.polls me hme
      exact ⟨rfl, _, Function.update_self ..⟩
  · next hrest =>
    split
    · exact hcore.clear.rest rfl h.clear_intervals (if_neg hrest)
    · next hstaged =>
      have hover : ImportState.isOver state = true := decide_eq_true ⟨hrest, hstaged⟩
      refine (hcore.clear.forget ⟨_, _, _, .inl ⟨_, rfl, hover⟩⟩ ?_).rest rfl h.clear_intervals
        (if_neg hrest)
      exact filter_unfinished_eq_none (fun id hid ↦ h.unfinished_eq hw hid) (by simp [hover])

theorem Inv.onError (h : Inv s) (hw : s.watches s.generation = some w)
    (hcounts : Counts s.generation mine w.id s.log) (status : ℕ) :
    Inv (onError s s.generation mine w.id status) := by
  have hcore := h.failed hcounts status
  unfold ImportWatch.onError
  dsimp only
  rcases eq_or_ne status 401 with rfl | hstatus
  · -- the session lapsed: the import is kept
    exact (hcore.signedOut ⟨_, _, _, _, rfl⟩).clear.rest rfl h.clear_intervals rfl
  · rw [if_neg hstatus]
    split
    · next hstops =>
      split
      · next hgone =>
        refine (hcore.clear.forget ⟨_, _, _, .inr ⟨_, _, rfl, hgone⟩⟩ ?_).rest rfl h.clear_intervals
          (if_pos hstops)
        exact filter_unfinished_eq_none (fun id hid ↦ h.unfinished_eq hw hid) (by simp [hgone])
      · exact hcore.clear.rest rfl h.clear_intervals (if_pos hstops)
    · next hstays => exact ⟨hcore, h.poll.trans (if_neg hstays).symm, h.intervals, h.polls⟩

theorem Inv.answer (h : Inv s) (hread : (me, mine) ∈ s.reading) (hw : s.watches me = some w)
    (answered : Except ℕ ImportState) :
    Inv (ImportWatch.answer { s with reading := s.reading.erase (me, mine) } me mine w
      answered) := by
  have hinv : Inv { s with reading := s.reading.erase (me, mine) } :=
    ⟨⟨h.facts.take _, h.newest, h.said, h.current, h.kept, h.lawful⟩, h.poll, h.intervals, h.polls⟩
  have hlate : (me, mine) ∉ s.reading.erase (me, mine) := h.facts.nodup.not_mem_erase
  have hcounts (hme : me = s.generation) (hle : w.applied ≤ mine) :
      Counts s.generation mine w.id s.log := by
    subst hme
    exact h.facts.counts hw hle hread (h.live hw)
  cases answered with
  | ok state =>
    simp only [ImportWatch.answer]
    split
    · exact hinv
    · next hfresh =>
      simp only [ne_eq, not_or, not_not, Nat.not_lt] at hfresh
      obtain ⟨rfl, hle⟩ := hfresh
      exact hinv.onState hw hle (hcounts rfl hle) hlate state
  | error status =>
    simp only [ImportWatch.answer]
    split
    · exact hinv
    · next hfresh =>
      simp only [ne_eq, not_or, not_not, Nat.not_lt] at hfresh
      obtain ⟨rfl, hle⟩ := hfresh
      exact hinv.onError hw (hcounts rfl hle) status

theorem Inv.fire (h : Inv s) (hfire : me ∈ s.intervals) (hw : s.watches me = some w) :
    Inv (tick s me w) := by
  rw [h.intervals, Option.mem_toList] at hfire
  have hwatching : watching s.log = some me := h.poll.symm.trans hfire
  obtain ⟨rfl, -⟩ := h.polls me hfire
  refine ⟨⟨h.facts.tick hw, fun v hv ↦ ?_, fun hsaid ↦ ?_, h.current, h.kept,
    ⟨hwatching, h.live hw, h.facts.newest, fun earlier hmem ↦ ?_⟩, h.lawful⟩, h.poll, h.intervals,
    fun me hme ↦ ?_⟩
  · have hv : Function.update s.watches s.generation (some { w with asked := w.asked + 1 })
        s.generation = some v := hv
    rw [Function.update_self, Option.some.injEq] at hv
    subst hv
    exact h.newest w hw
  · exact h.said ((List.mem_cons.1 hsaid).resolve_left (by simp))
  · obtain ⟨w', hw', hle⟩ := h.facts.asked _ _ hmem
    rw [hw, Option.some.injEq] at hw'
    exact Nat.lt_succ_of_le (hw' ▸ hle)
  · obtain ⟨rfl, -⟩ := h.polls me hme
    exact ⟨rfl, _, Function.update_self ..⟩

theorem inv_watch (hfacts : Facts s.generation s.watches s.reading s.log) (hon : s.stopped = false)
    (hsaid : .stopped ∈ s.log → s.stopped = true) (hlawful : Lawful Law s.log)
    (hintervals : (clear s).intervals = []) (hcurrent : ∀ detail ∈ s.current, detail.id = id)
    (hstored : s.stored = some id) : Inv (watch s id) := by
  have hlive : .stopped ∉ s.log := fun hmem ↦ Bool.noConfusion ((hsaid hmem).symm.trans hon)
  have hnew := hfacts.watch id
  have hnone : ∀ earlier, .asked (s.generation + 1) earlier ∉ s.log := by
    intro earlier hmem
    obtain ⟨w, hw, -⟩ := hfacts.asked _ _ hmem
    exact Nat.not_succ_le_self _ (hfacts.watches _ w hw).1
  have hasked := hnew.tick (Function.update_self ..)
  rw [Function.update_idem] at hasked
  rw [watch, if_neg (by rw [hon]; exact Bool.false_ne_true)]
  dsimp only
  refine ⟨⟨hasked, fun v hv ↦ ⟨hon, ?_⟩, fun hmem ↦ ?_, fun detail hmem ↦ ?_,
    fun other hother ↦ ?_, ⟨rfl, ?_, hnew.newest, fun earlier hmem ↦ ?_⟩,
    ⟨hlive, fun other id' hmem ↦ ?_⟩, hlawful⟩, rfl, ?_, fun me hme ↦ ?_⟩
  · have hv : Function.update s.watches (s.generation + 1) (some ⟨id, 1, 0⟩) (s.generation + 1) =
        some v := hv
    rw [Function.update_self, Option.some.injEq] at hv
    subst hv
    rfl
  · exact hsaid ((List.mem_cons.1 ((List.mem_cons.1 hmem).resolve_left (by simp))).resolve_left
      (by simp))
  · exact congrArg some (hcurrent detail hmem).symm
  · have hother : some id = some other := hother
    exact ⟨hstored.trans hother, fun _ ↦ hother⟩
  · exact fun hmem ↦ hlive ((List.mem_cons.1 hmem).resolve_left (by simp))
  · exact absurd ((List.mem_cons.1 hmem).resolve_left (by simp)) (hnone earlier)
  · obtain ⟨w, hw⟩ := hfacts.watched other id' hmem
    exact Nat.lt_succ_of_le (hfacts.watches other w hw).1
  · exact congrArg ((s.generation + 1) :: ·) hintervals
  · have hme : some (s.generation + 1) = some me := hme
    rw [Option.some.injEq] at hme
    subst hme
    exact ⟨rfl, _, Function.update_self ..⟩

theorem Inv.stop (h : Inv s) : Inv (stop s) := by
  refine Core.rest ⟨⟨fun me w hw ↦ ?_, fun me id hmem ↦ ?_, fun me mine hmem ↦ ?_,
    fun me mine detail hmem ↦ ?_, h.facts.nodup, fun read hread ↦ ?_⟩, fun w hw ↦ ?_,
    fun _ ↦ rfl, h.current,
    fun id hid ↦ ⟨(h.kept id hid).1, fun hon ↦ (by cases hon)⟩, trivial,
    h.lawful⟩ rfl h.clear_intervals rfl
  · exact (h.facts.watches me w hw).imp Nat.le_succ_of_le (List.mem_cons_of_mem _)
  · exact h.facts.watched me id ((List.mem_cons.1 hmem).resolve_left (by simp))
  · exact h.facts.asked me mine ((List.mem_cons.1 hmem).resolve_left (by simp))
  · exact (h.facts.shown me mine detail ((List.mem_cons.1 hmem).resolve_left (by simp))).imp_left
      (List.mem_cons_of_mem _)
  · obtain ⟨hasked, hfresh⟩ := h.facts.unread read hread
    refine ⟨List.mem_cons_of_mem _ hasked, fun detail hmem ↦ hfresh detail ?_⟩
    exact (List.mem_cons.1 hmem).resolve_left (by simp)
  · exact absurd (h.facts.watches _ w hw).1 (Nat.not_succ_le_self _)

theorem Inv.resume (h : Inv s) (hempty : s.log = []) (hstored : s.stored = some id) :
    Inv (watch s id) := by
  by_cases hstopped : s.stopped = true
  · rwa [watch, if_pos hstopped]
  · refine inv_watch h.facts (Bool.eq_false_iff.2 hstopped) h.said h.lawful h.clear_intervals
      (fun detail hmem ↦ ?_) hstored
    have hlast := h.current detail hmem
    rw [hempty] at hlast
    cases hlast

theorem Inv.started (h : Inv s) (id : I) :
    Inv (watch { s with stored := some id, current := none, log := .started id :: s.log } id) := by
  have hsaid : .stopped ∈ Event.started id :: s.log → s.stopped = true := fun hmem ↦
    h.said ((List.mem_cons.1 hmem).resolve_left (by simp))
  by_cases hstopped : s.stopped = true
  · -- the admin left the page while the import was being started
    rw [watch, if_pos hstopped]
    refine ⟨⟨h.facts.quiet rfl, h.newest, hsaid, fun detail hmem ↦ (by cases hmem),
      fun other hother ↦ ⟨hother, fun hon ↦ ?_⟩, trivial, h.lawful⟩, h.poll, h.intervals, h.polls⟩
    exact absurd hstopped (Bool.eq_false_iff.1 hon)
  · exact inv_watch (h.facts.quiet rfl) (Bool.eq_false_iff.2 hstopped) hsaid ⟨trivial, h.lawful⟩
      h.clear_intervals (fun detail hmem ↦ (by cases hmem)) rfl

theorem forgetIfStored_of_ne {other : I} (hne : other ≠ id) :
    forgetIfStored (some other) id = some other := by
  rw [forgetIfStored, if_neg (fun heq ↦ hne (Option.some.inj heq))]

theorem Inv.confirmed (h : Inv s) (hs : next s (.confirmed id) = some t) : Inv t := by
  simp only [next, Option.ite_none_right_eq_some] at hs
  have hinv : Inv { s with
      confirming := s.confirming.erase id
      stored := forgetIfStored s.stored id
      log := .confirmed id :: s.log } := by
    refine ⟨⟨h.facts.quiet rfl, h.newest, fun hmem ↦ ?_, h.current, fun other hother ↦ ?_,
      trivial, h.lawful⟩, h.poll, h.intervals, h.polls⟩
    · exact h.said ((List.mem_cons.1 hmem).resolve_left (by simp))
    · obtain ⟨hother, hne⟩ := Option.filter_eq_some_iff.1 hother
      obtain ⟨hstored, hlast⟩ := h.kept other hother
      refine ⟨?_, hlast⟩
      dsimp only
      rw [hstored]
      exact forgetIfStored_of_ne (of_decide_eq_true hne)
  obtain ⟨-, hs⟩ := hs
  split at hs
  · cases hs
    refine ⟨⟨hinv.facts, hinv.newest, hinv.said, fun detail hmem ↦ ?_, hinv.kept, hinv.lawful⟩,
      hinv.poll, hinv.intervals, hinv.polls⟩
    obtain ⟨old, hold, rfl⟩ := Option.mem_map.1 hmem
    exact hinv.current old hold
  · cases hs
    exact hinv

theorem Inv.reread (h : Inv s) {state : ImportState} (hs : next s (.reread id state) = some t) :
    Inv t := by
  simp only [next, Option.ite_none_right_eq_some, Option.some.injEq] at hs
  obtain ⟨-, rfl⟩ := hs
  refine ⟨⟨h.facts, h.newest, h.said, fun detail hmem ↦ ?_, h.kept, h.lawful⟩, h.poll,
    h.intervals, h.polls⟩
  dsimp only at hmem
  split at hmem
  · next hany =>
    obtain ⟨old, hold, hid⟩ := (Option.any_eq_true ..).1 hany
    rw [Option.mem_some_iff] at hmem
    subst hmem
    rw [h.current old hold, of_decide_eq_true hid]
  · exact h.current detail hmem

theorem Inv.next (h : Inv s) {a : Action I} (hs : next s a = some t) : Inv t := by
  cases a with
  | resume =>
    simp only [ImportWatch.next, Option.ite_none_right_eq_some, Option.map_eq_some_iff,
      List.isEmpty_iff] at hs
    obtain ⟨hempty, id, hstored, rfl⟩ := hs
    exact h.resume hempty hstored
  | started id =>
    cases hs
    exact h.started id
  | fire me =>
    simp only [ImportWatch.next, Option.ite_none_right_eq_some, Option.map_eq_some_iff] at hs
    obtain ⟨hfire, w, hw, rfl⟩ := hs
    exact h.fire hfire hw
  | answer me mine answered =>
    simp only [ImportWatch.next, Option.ite_none_right_eq_some, Option.map_eq_some_iff] at hs
    obtain ⟨hread, w, hw, rfl⟩ := hs
    exact h.answer hread hw answered
  | confirm =>
    simp only [ImportWatch.next, Option.map_eq_some_iff] at hs
    obtain ⟨detail, -, rfl⟩ := hs
    exact ⟨⟨h.facts, h.newest, h.said, h.current, h.kept, h.lawful⟩, h.poll, h.intervals, h.polls⟩
  | confirmed id => exact h.confirmed hs
  | reread id state => exact h.reread hs
  | stop =>
    cases hs
    exact h.stop

theorem inv_of_reachable (h : (machine I).Reachable s) : Inv s := by
  refine h.invariant (fun s hs ↦ ?_) fun s a t hinv _ hs ↦ hinv.next hs
  obtain ⟨stored, rfl⟩ := hs
  refine Core.rest ⟨⟨fun me w hw ↦ ?_, fun me id hmem ↦ ?_, fun me mine hmem ↦ ?_,
    fun me mine detail hmem ↦ ?_, List.nodup_nil, fun read hread ↦ ?_⟩, fun w hw ↦ ?_,
    fun hmem ↦ ?_,
    fun detail hmem ↦ ?_, fun id hid ↦ ?_, trivial⟩ rfl rfl rfl
  · cases hw
  · cases hmem
  · cases hmem
  · cases hmem
  · cases hread
  · cases hw
  · cases hmem
  · cases hmem
  · cases hid

end Invariant

section Results

variable [DecidableEq I] {s : State I}

omit [DecidableEq I] in
theorem watched_of_watching {newer older : List (Event I)} {me : ℕ}
    (h : watching (newer ++ older) = some me) :
    watching older = some me ∨ ∃ id, .watched me id ∈ newer := by
  induction newer with
  | nil => exact .inl h
  | cons e newer ih =>
    have hrest : watching (newer ++ older) = some me ∨ ∃ id, e = .watched me id := by
      cases e with
      | watched other id => exact .inr ⟨id, by rw [Option.some.inj h]⟩
      | shown other mine detail => exact .inl (Option.ite_none_right_eq_some.1 h).2
      | failed other mine id status => exact .inl (Option.ite_none_left_eq_some.1 h).2
      | stopped => cases h
      | _ => exact .inl h
    obtain hrest | ⟨id, rfl⟩ := hrest
    · exact (ih hrest).imp_right fun ⟨id, hmem⟩ ↦ ⟨id, List.mem_cons_of_mem _ hmem⟩
    · exact .inr ⟨id, List.mem_cons_self⟩

omit [DecidableEq I] in
/-- Nothing is asked of a watch once an import of it is shown at rest. -/
theorem not_asked_of_shown {log newer older : List (Event I)} {me mine : ℕ}
    {detail : ImportDetail I} (h : Lawful Law log)
    (hlog : log = newer ++ .shown me mine detail :: older) (hrest : detail.state ≠ .running)
    (later : ℕ) : .asked me later ∉ newer := by
  intro hasked
  obtain ⟨after, before, rfl⟩ := List.append_of_mem hasked
  have hlaw : Law (before ++ .shown me mine detail :: older) (.asked me later) :=
    h.law_of_eq_append after (by simp [hlog])
  have hcounts : Law older (.shown me mine detail) :=
    h.law_of_eq_append (after ++ .asked me later :: before) (by simp [hlog])
  obtain hwatching | ⟨id, hwatched⟩ := watched_of_watching hlaw.1
  · rw [watching, if_neg hrest] at hwatching
    cases hwatching
  · -- a watch has its number once
    obtain ⟨again, first, rfl⟩ := List.append_of_mem hwatched
    have hnew : Law (first ++ .shown me mine detail :: older) (.watched me id) :=
      h.law_of_eq_append (after ++ .asked me later :: again) (by simp [hlog])
    refine Nat.lt_irrefl me (hnew.2 me detail.id ?_)
    exact List.mem_append_right _ (List.mem_cons_of_mem _ hcounts.2.1)

def twoImports : List (Action ℕ) :=
  [.resume, .started 7, .started 8, .answer 3 1 (.ok .running), .answer 2 1 (.ok .failed), .fire 3,
    .answer 3 2 (.ok .staged)]

end Results

end Birdtest.Pages.ImportWatch
