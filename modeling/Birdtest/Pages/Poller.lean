import Birdtest.Base.Histories
import Birdtest.Base.Runs
import Mathlib.Data.List.Nodup
import Mathlib.Data.Nat.Notation

namespace Birdtest.Pages.Poller

open Birdtest.Base.Histories Birdtest.Base.Runs

variable {V E : Type}

/-- What `hooks.read` answers: the value read, or the error it failed with. -/
abbrev Answer (V E : Type) : Type := Except E V

/-- `fired` is the timer's, `hidden` and `shown` the tab's while the poller listens to it, and
`ended` what it does when `hooks.delay` answers null. -/
inductive Event (V E : Type)
  | started
  | refreshed
  | fired
  | hidden
  | shown
  | asked (read : ℕ)
  | reported (read : ℕ) (answer : Answer V E)
  | scheduled (wait : ℕ)
  | ended
  | stopped

/-- `timer` is the closure's variable and `timeouts` are those the browser still has to fire, the
next one numbered `nextTimeout`. -/
structure State (V E : Type) where
  generation : ℕ
  timer : Option ℕ
  running : Bool
  stopped : Bool
  hidden : Bool
  listening : Bool
  nextTimeout : ℕ
  timeouts : List ℕ
  reading : List ℕ
  log : List (Event V E)

inductive Action (V E : Type)
  | start
  | refresh
  | stop
  | visibilityChange (hidden : Bool)
  | fire (timeout : ℕ)
  | answer (read : ℕ) (answer : Answer V E)

section Operations

-- `visibility` is whether the page passed a `Visibility`
variable (visibility : Bool) (delay : Answer V E → Option ℕ) (s : State V E)

def note (e : Event V E) : State V E := { s with log := e :: s.log }

/-- `visibility?.hidden`. -/
def unseen : Bool := visibility && s.hidden

def clear : State V E := { s with
  timer := none
  timeouts := s.timer.elim s.timeouts s.timeouts.erase }

def halt : State V E := { clear { s with running := false } with listening := false }

def tick : State V E :=
  let s := clear s
  { s with
    generation := s.generation + 1
    reading := (s.generation + 1) :: s.reading
    log := .asked (s.generation + 1) :: s.log }

/-- `timer = setTimeout(tick, wait)`. -/
def setTimer (wait : ℕ) : State V E := { s with
  timer := some s.nextTimeout
  nextTimeout := s.nextTimeout + 1
  timeouts := s.nextTimeout :: s.timeouts
  log := .scheduled wait :: s.log }

def resume (me : ℕ) (answer : Answer V E) : State V E :=
  if me ≠ s.generation ∨ ¬ s.running then s
  else
    let s := note s (.reported me answer)
    match delay answer with
    | none => halt (note s .ended)
    | some wait => if unseen visibility s then s else setTimer s wait

def onVisibility : State V E :=
  if ¬ s.running then s
  else if unseen visibility s then clear (note s .hidden)
  else tick (note s .shown)

def start : State V E :=
  if s.stopped ∨ s.running then s
  else
    let s := { note s .started with running := true, listening := visibility }
    if unseen visibility s then s else tick s

def refresh : State V E := if s.running then tick (note s .refreshed) else s

def stop : State V E :=
  halt { note s .stopped with stopped := true, generation := s.generation + 1 }

end Operations

section Machine

variable (visibility : Bool) (delay : Answer V E → Option ℕ)

def next (s : State V E) : Action V E → Option (State V E)
  | .start => some (start visibility s)
  | .refresh => some (refresh s)
  | .stop => some (stop s)
  | .visibilityChange hidden =>
    let s := { s with hidden := hidden }
    some (if s.listening then onVisibility visibility s else s)
  | .fire timeout =>
    if timeout ∈ s.timeouts then
      some (tick (note { s with timeouts := s.timeouts.erase timeout } .fired))
    else none
  | .answer read answer =>
    if read ∈ s.reading then
      some (resume visibility delay { s with reading := s.reading.erase read } read answer)
    else none

/-- A poller as `createPoller` makes it, in a tab that is shown or hidden. -/
def machine : Machine (State V E) (Action V E) where
  start s := ∃ hidden, s = ⟨0, none, false, false, hidden, false, 0, [], [], []⟩
  next := next visibility delay

end Machine

section Law

def running : List (Event V E) → Bool
  | [] => false
  | .started :: _ => true
  | .ended :: _ => false
  | .stopped :: _ => false
  | _ :: past => running past

def Event.asks : Event V E → Bool
  | .started | .refreshed | .fired | .shown => true
  | _ => false

def Follows (delay : Answer V E → Option ℕ) (past : List (Event V E)) : Event V E → Prop
  | .started => running past = false ∧ .stopped ∉ past
  | .refreshed => running past = true
  | .fired => ∃ wait older, past = .scheduled wait :: older
  | .hidden => running past = true
  | .shown => running past = true
  | .asked read => running past = true ∧
    (∃ cause older, past = cause :: older ∧ cause.asks = true) ∧
      ∀ earlier, .asked earlier ∈ past → earlier < read
  | .reported read _ => running past = true ∧ .asked read ∈ past ∧
      (∀ other, .asked other ∈ past → other ≤ read) ∧
      ∀ earlier answer, .reported earlier answer ∈ past → earlier < read
  | .scheduled wait => ∃ read answer older, past = .reported read answer :: older ∧
      delay answer = some wait
  | .ended => ∃ read answer older, past = .reported read answer :: older ∧ delay answer = none
  | .stopped => True

/-- What a poller may do after what it has done: an answer that asks for no other read ends it. -/
structure Law (delay : Answer V E → Option ℕ) (past : List (Event V E)) (e : Event V E) : Prop where
  follows : Follows delay past e
  ends : ∀ read answer older, past = .reported read answer :: older →
    delay answer = none → e = .ended

end Law

section Invariant

variable {visibility : Bool} {delay : Answer V E → Option ℕ} {s t : State V E}

structure Core (visibility : Bool) (delay : Answer V E → Option ℕ) (s : State V E) : Prop where
  listening : s.listening = (visibility && s.running)
  stopped : s.running = true → s.stopped = false
  replayed : running s.log = s.running
  said : .stopped ∈ s.log → s.stopped = true
  asked : ∀ n, .asked n ∈ s.log → n ≤ s.generation
  reading : s.reading.Nodup
  unread : ∀ n ∈ s.reading, .asked n ∈ s.log ∧ ∀ answer, .reported n answer ∉ s.log
  reported : ∀ n answer, .reported n answer ∈ s.log → n ≤ s.generation
  lawful : Lawful (Law delay) s.log

/-- While it runs in a tab that is shown, one timeout is armed or the newest read is under way. -/
structure Inv (visibility : Bool) (delay : Answer V E → Option ℕ) (s : State V E) : Prop
    extends Core visibility delay s where
  timeouts : s.timeouts = s.timer.toList
  armed : s.timer.isSome = true → s.running = true ∧ unseen visibility s = false ∧
    s.generation ∉ s.reading
  scheduled : s.timer.isSome = true → ∃ wait older, s.log = .scheduled wait :: older
  awake : s.running = true → unseen visibility s = false → s.timer.isSome = true ∨
    s.generation ∈ s.reading
  settled : ∀ read answer older, s.log = .reported read answer :: older → delay answer ≠ none

def Event.readless : Event V E → Bool
  | .asked _ | .reported _ _ => false
  | _ => true

theorem Core.note (h : Core visibility delay s) {e : Event V E} (hreadless : e.readless = true)
    (hlog : t.log = e :: s.log) (hlaw : Law delay s.log e)
    (hgeneration : s.generation ≤ t.generation) (hreading : t.reading = s.reading)
    (hlistening : t.listening = (visibility && t.running))
    (hstopped : t.running = true → t.stopped = false) (hreplayed : running t.log = t.running)
    (hkept : s.stopped = true → t.stopped = true) (hsaid : e = .stopped → t.stopped = true) :
    Core visibility delay t where
  listening := hlistening
  stopped := hstopped
  replayed := hreplayed
  said hmem := by
    rw [hlog] at hmem
    rcases List.mem_cons.1 hmem with heq | hmem
    · exact hsaid heq.symm
    · exact hkept (h.said hmem)
  asked n hmem := by
    rw [hlog] at hmem
    rcases List.mem_cons.1 hmem with rfl | hmem
    · cases hreadless
    · exact Nat.le_trans (h.asked n hmem) hgeneration
  reading := hreading ▸ h.reading
  unread n hn := by
    rw [hreading] at hn
    rw [hlog]
    obtain ⟨hasked, hfresh⟩ := h.unread n hn
    refine ⟨List.mem_cons_of_mem _ hasked, fun answer hmem ↦ ?_⟩
    rcases List.mem_cons.1 hmem with rfl | hmem
    · cases hreadless
    · exact hfresh answer hmem
  reported n answer hmem := by
    rw [hlog] at hmem
    rcases List.mem_cons.1 hmem with rfl | hmem
    · cases hreadless
    · exact Nat.le_trans (h.reported n answer hmem) hgeneration
  lawful := hlog ▸ ⟨hlaw, h.lawful⟩

theorem Inv.law (h : Inv visibility delay s) {e : Event V E} (hfollows : Follows delay s.log e) :
    Law delay s.log e :=
  ⟨hfollows, fun read answer older hlog hnone ↦ absurd hnone (h.settled read answer older hlog)⟩

theorem Inv.clear_timeouts (h : Inv visibility delay s) : (clear s).timeouts = [] := by
  unfold clear
  rw [h.timeouts]
  cases s.timer with
  | none => rfl
  | some timeout => exact List.erase_cons_head ..

theorem Core.tick (h : Core visibility delay s) (hrun : s.running = true)
    {cause : Event V E} {older : List (Event V E)} (hlog : s.log = cause :: older)
    (hcause : cause.asks = true) (hclear : (clear s).timeouts = []) :
    Inv visibility delay (tick s) where
  listening := h.listening
  stopped := h.stopped
  replayed := h.replayed
  said hsaid := h.said ((List.mem_cons.1 hsaid).resolve_left (by simp))
  asked n hn := by
    rcases List.mem_cons.1 hn with heq | hn
    · cases heq
      exact Nat.le_refl _
    · exact Nat.le_succ_of_le (h.asked n hn)
  reading := by
    refine List.nodup_cons.2 ⟨fun hmem ↦ ?_, h.reading⟩
    exact absurd (h.asked _ (h.unread _ hmem).1) (Nat.not_succ_le_self _)
  unread n hn := by
    have hfresh : ∀ answer, Event.reported n answer ∉ s.log := by
      intro answer hmem
      rcases List.mem_cons.1 hn with rfl | hn
      · exact absurd (h.reported _ _ hmem) (Nat.not_succ_le_self _)
      · exact (h.unread n hn).2 answer hmem
    refine ⟨?_, fun answer hmem ↦ hfresh answer ((List.mem_cons.1 hmem).resolve_left (by simp))⟩
    rcases List.mem_cons.1 hn with rfl | hn
    · exact List.mem_cons_self
    · exact List.mem_cons_of_mem _ (h.unread n hn).1
  reported n answer hn :=
    Nat.le_succ_of_le (h.reported n answer ((List.mem_cons.1 hn).resolve_left (by simp)))
  lawful := by
    refine ⟨⟨⟨h.replayed.trans hrun, ⟨cause, older, hlog, hcause⟩, fun n hn ↦ ?_⟩, ?_⟩, h.lawful⟩
    · exact Nat.lt_succ_of_le (h.asked n hn)
    · intro read answer older' hlog'
      obtain ⟨rfl, -⟩ := List.cons.inj (hlog.symm.trans hlog')
      cases hcause
  timeouts := hclear
  armed harmed := Bool.noConfusion harmed
  scheduled harmed := Bool.noConfusion harmed
  awake _ _ := .inr List.mem_cons_self
  settled _ _ _ hlog' := by cases hlog'

theorem Core.rest (h : Core visibility delay s) (htimer : s.timer = none)
    (htimeouts : s.timeouts = [])
    (hrest : s.running = true → unseen visibility s = false → s.generation ∈ s.reading)
    (hsettled : ∀ read answer older, s.log = .reported read answer :: older → delay answer ≠ none) :
    Inv visibility delay s where
  toCore := h
  timeouts := by rw [htimeouts, htimer, Option.toList_none]
  armed harmed := by
    rw [htimer] at harmed
    cases harmed
  scheduled harmed := by
    rw [htimer] at harmed
    cases harmed
  awake hrun hseen := .inr (hrest hrun hseen)
  settled := hsettled

theorem Inv.idle (h : Inv visibility delay s)
    (hfree : s.running = true → s.generation ∈ s.reading) :
    s.timer = none ∧ s.timeouts = [] := by
  have htimer : s.timer = none := by
    cases htimer : s.timer with
    | none => rfl
    | some timeout =>
      obtain ⟨hrun, -, hread⟩ := h.armed (by rw [htimer]; rfl)
      exact absurd (hfree hrun) hread
  exact ⟨htimer, by rw [h.timeouts, htimer, Option.toList_none]⟩

/-- The answer of the newest read is reported; the state before it may already be ended. -/
theorem Inv.report (h : Inv visibility delay s) (answer : Answer V E) (hrun : s.running = true)
    (hread : s.generation ∈ s.reading) :
    Core visibility delay (Poller.note { s with reading := s.reading.erase s.generation }
      (.reported s.generation answer)) where
  listening := h.listening
  stopped := h.stopped
  replayed := h.replayed
  said hsaid := h.said ((List.mem_cons.1 hsaid).resolve_left (by simp))
  asked n hn := h.asked n ((List.mem_cons.1 hn).resolve_left (by simp))
  reading := h.reading.erase _
  unread n hn := by
    obtain ⟨hmem, hfresh⟩ := h.unread n (List.mem_of_mem_erase hn)
    refine ⟨List.mem_cons_of_mem _ hmem, fun answer' hmem' ↦ ?_⟩
    rcases List.mem_cons.1 hmem' with heq | hmem'
    · cases heq
      exact h.reading.not_mem_erase hn
    · exact hfresh answer' hmem'
  reported n answer' hn := by
    rcases List.mem_cons.1 hn with heq | hn
    · cases heq
      exact Nat.le_refl _
    · exact h.reported n answer' hn
  lawful := by
    obtain ⟨hasked, hnew⟩ := h.unread _ hread
    refine ⟨h.law ⟨h.replayed.trans hrun, hasked, h.asked, fun n answer' hn ↦ ?_⟩, h.lawful⟩
    exact Nat.lt_of_le_of_ne (h.reported n answer' hn) fun heq ↦ hnew answer' (heq ▸ hn)

theorem Inv.answered (h : Inv visibility delay s) {read : ℕ} (hread : read ∈ s.reading)
    (answer : Answer V E) :
    Inv visibility delay
      (resume visibility delay { s with reading := s.reading.erase read } read answer) := by
  unfold resume
  split
  · next hstale =>
    -- an answer overtaken, or one that came after a stop
    have hcore : Core visibility delay { s with reading := s.reading.erase read } :=
      ⟨h.listening, h.stopped, h.replayed, h.said, h.asked, h.reading.erase read,
        fun n hn ↦ h.unread n (List.mem_of_mem_erase hn), h.reported, h.lawful⟩
    refine ⟨hcore, h.timeouts, fun harmed ↦ ?_, h.scheduled, fun hrun hseen ↦ ?_, h.settled⟩
    · obtain ⟨hrun, hseen, hfree⟩ := h.armed harmed
      exact ⟨hrun, hseen, fun hmem ↦ hfree (List.mem_of_mem_erase hmem)⟩
    · refine (h.awake hrun hseen).imp_right fun hmem ↦ ?_
      have hne : s.generation ≠ read := fun heq ↦
        hstale.elim (fun hne ↦ hne heq.symm) fun hoff ↦ hoff hrun
      exact (List.mem_erase_of_ne hne).2 hmem
  · next hfresh =>
    simp only [ne_eq, not_or, not_not] at hfresh
    obtain ⟨rfl, hrun⟩ := hfresh
    obtain ⟨hidle, htimeouts⟩ := h.idle fun _ ↦ hread
    have hreported := h.report answer hrun hread
    dsimp only
    split
    · next hnone =>
      refine Core.rest (hreported.note (e := .ended) rfl rfl ⟨⟨_, _, _, rfl, hnone⟩, ?_⟩
        (Nat.le_refl _) rfl (Bool.and_false _).symm (fun hrun ↦ (by cases hrun)) rfl id
        fun heq ↦ (by cases heq)) rfl ?_
        (fun hrun ↦ by cases hrun) fun _ _ _ hlog ↦ (by cases hlog)
      · exact fun _ _ _ _ _ ↦ rfl
      · simp only [halt, Poller.clear, Poller.note, htimeouts, hidle, Option.elim_none]
    · next wait hwait =>
      split
      · next hunseen =>
        refine hreported.rest hidle htimeouts (fun _ hseen ↦ ?_) fun _ _ _ hlog ↦ ?_
        · exact Bool.noConfusion (hunseen.symm.trans hseen)
        · cases hlog
          exact hwait ▸ Option.some_ne_none wait
      · next hseen =>
        have hcore : Core visibility delay (setTimer (Poller.note
            { s with reading := s.reading.erase s.generation }
            (.reported s.generation answer)) wait) := by
          refine hreported.note (e := .scheduled wait) rfl rfl ⟨⟨_, _, _, rfl, hwait⟩, ?_⟩
            (Nat.le_refl _) rfl hreported.listening hreported.stopped hreported.replayed id
            fun heq ↦ (by cases heq)
          intro _ answer' _ hlog hnone
          cases hlog
          exact absurd (hwait.symm.trans hnone) (Option.some_ne_none wait)
        refine ⟨hcore, ?_, fun _ ↦ ⟨hrun, Bool.eq_false_iff.2 hseen, h.reading.not_mem_erase⟩,
          fun _ ↦ ⟨_, _, rfl⟩, fun _ _ ↦ .inl rfl, fun _ _ _ hlog ↦ (by cases hlog)⟩
        exact congrArg (s.nextTimeout :: ·) htimeouts

theorem Inv.seen (h : Inv visibility delay s) (hrun : s.running = true) (hidden : Bool)
    {e : Event V E} (hreadless : e.readless = true) (hfollows : Follows delay s.log e)
    (hquiet : running (e :: s.log) = running s.log) (hsaid : e ≠ .stopped) :
    Core visibility delay (Poller.note { s with hidden := hidden } e) :=
  h.toCore.note hreadless rfl (h.law hfollows) (Nat.le_refl _) rfl h.listening
    (fun _ ↦ h.stopped hrun) (hquiet.trans h.replayed) id fun heq ↦ absurd heq hsaid

theorem Inv.visibilityChange (h : Inv visibility delay s) (hidden : Bool) :
    Inv visibility delay (if s.listening then onVisibility visibility { s with hidden := hidden }
      else { s with hidden := hidden }) := by
  have hlistening := h.listening
  split
  · next hon =>
    rw [hon] at hlistening
    obtain ⟨-, hrun⟩ := (Bool.and_eq_true_iff).1 hlistening.symm
    have hreplayed : running s.log = true := h.replayed.trans hrun
    rw [onVisibility, if_neg (not_not_intro hrun)]
    split
    · next hunseen =>
      have hcore := h.seen hrun hidden (e := .hidden) rfl hreplayed rfl (by simp)
      refine Core.rest (s := clear _) ⟨hcore.listening, hcore.stopped, hcore.replayed, hcore.said,
        hcore.asked, hcore.reading, hcore.unread, hcore.reported, hcore.lawful⟩ rfl h.clear_timeouts
        (fun _ hseen ↦ ?_) fun _ _ _ hlog ↦ (by cases hlog)
      exact Bool.noConfusion (hunseen.symm.trans hseen)
    · exact (h.seen hrun hidden (e := .shown) rfl hreplayed rfl (by simp)).tick hrun rfl rfl
        h.clear_timeouts
  · next hoff =>
    have hcore : Core visibility delay { s with hidden := hidden } :=
      ⟨h.listening, h.stopped, h.replayed, h.said, h.asked, h.reading, h.unread,
        h.reported, h.lawful⟩
    -- with no visibility passed nothing is ever unseen, and a halted poller has nothing to keep
    rcases (Bool.and_eq_false_iff).1 (hlistening.symm.trans (Bool.eq_false_iff.2 hoff)) with
      rfl | hrun
    · exact ⟨hcore, h.timeouts, h.armed, h.scheduled, h.awake, h.settled⟩
    · refine ⟨hcore, h.timeouts, fun harmed ↦ ?_, h.scheduled, fun hrun' ↦ ?_, h.settled⟩
      · exact Bool.noConfusion (hrun.symm.trans (h.armed harmed).1)
      · exact Bool.noConfusion (hrun.symm.trans hrun')

theorem Inv.start (h : Inv visibility delay s) :
    Inv visibility delay (Poller.start visibility s) := by
  unfold Poller.start
  split
  · exact h
  · next hnew =>
    simp only [not_or, Bool.not_eq_true] at hnew
    obtain ⟨hstopped, hrun⟩ := hnew
    have hunsaid : .stopped ∉ s.log := fun hsaid ↦
      Bool.noConfusion ((h.said hsaid).symm.trans hstopped)
    have hcore : Core visibility delay
        { Poller.note s .started with running := true, listening := visibility } :=
      h.toCore.note (e := .started) rfl rfl (h.law ⟨h.replayed.trans hrun, hunsaid⟩) (Nat.le_refl _)
        rfl (Bool.and_true _).symm (fun _ ↦ hstopped) rfl id fun heq ↦ (by cases heq)
    obtain ⟨hidle, htimeouts⟩ := h.idle fun hrun' ↦ Bool.noConfusion (hrun.symm.trans hrun')
    dsimp only
    split
    · next hunseen =>
      refine hcore.rest hidle htimeouts (fun _ hseen ↦ ?_) fun _ _ _ hlog ↦ (by cases hlog)
      exact Bool.noConfusion (hunseen.symm.trans hseen)
    · exact hcore.tick rfl rfl rfl h.clear_timeouts

theorem Inv.stop (h : Inv visibility delay s) (hopen : Law delay s.log .stopped) :
    Inv visibility delay (Poller.stop s) := by
  refine Core.rest (h.toCore.note (e := .stopped) rfl rfl hopen (Nat.le_succ _) rfl
    (Bool.and_false _).symm (fun hrun ↦ (by cases hrun)) rfl (fun _ ↦ rfl) fun _ ↦ rfl) rfl
    h.clear_timeouts (fun hrun ↦ by cases hrun) fun _ _ _ hlog ↦ (by cases hlog)

theorem Inv.fire (h : Inv visibility delay s) {timeout : ℕ} (hfire : timeout ∈ s.timeouts) :
    Inv visibility delay
      (Poller.tick (Poller.note { s with timeouts := s.timeouts.erase timeout } .fired)) := by
  rw [h.timeouts, Option.mem_toList] at hfire
  have harmed : s.timer.isSome = true := by rw [Option.mem_def.1 hfire]; rfl
  obtain ⟨hrun, -, -⟩ := h.armed harmed
  have hcore : Core visibility delay
      (Poller.note { s with timeouts := s.timeouts.erase timeout } .fired) :=
    h.toCore.note (e := .fired) rfl rfl (h.law (h.scheduled harmed)) (Nat.le_refl _) rfl h.listening
      h.stopped h.replayed id fun heq ↦ (by cases heq)
  refine hcore.tick hrun rfl rfl ?_
  simp only [Poller.clear, Poller.note, h.timeouts, Option.mem_def.1 hfire, Option.toList_some,
    Option.elim_some, List.erase_cons_head, List.erase_nil]

theorem Inv.refresh (h : Inv visibility delay s) : Inv visibility delay (Poller.refresh s) := by
  unfold Poller.refresh
  split
  · next hrun =>
    have hcore := h.seen hrun s.hidden (e := .refreshed) rfl (h.replayed.trans hrun) rfl (by simp)
    exact hcore.tick hrun rfl rfl h.clear_timeouts
  · exact h

theorem Inv.next (h : Inv visibility delay s) {a : Action V E}
    (hs : Poller.next visibility delay s a = some t) : Inv visibility delay t := by
  cases a with
  | start =>
    cases hs
    exact h.start
  | refresh =>
    cases hs
    exact h.refresh
  | stop =>
    cases hs
    exact h.stop (h.law trivial)
  | visibilityChange hidden =>
    cases hs
    exact h.visibilityChange hidden
  | fire timeout =>
    simp only [Poller.next, Option.ite_none_right_eq_some, Option.some.injEq] at hs
    obtain ⟨hfire, rfl⟩ := hs
    exact h.fire hfire
  | answer read answer =>
    simp only [Poller.next, Option.ite_none_right_eq_some, Option.some.injEq] at hs
    obtain ⟨hread, rfl⟩ := hs
    exact h.answered hread answer

theorem inv_of_reachable (h : (machine visibility delay).Reachable s) : Inv visibility delay s := by
  refine h.invariant (fun s hs ↦ ?_) fun s a t hinv _ hs ↦ hinv.next hs
  obtain ⟨hidden, rfl⟩ := hs
  refine Core.rest ⟨(Bool.and_false _).symm, fun _ ↦ rfl, rfl, fun hsaid ↦ ?_, fun n hn ↦ ?_,
    List.nodup_nil, fun n hn ↦ ?_, fun n answer hn ↦ ?_, trivial⟩ rfl rfl
    (fun hrun ↦ by cases hrun) fun _ _ _ hlog ↦ (by cases hlog)
  · cases hsaid
  · cases hn
  · cases hn
  · cases hn

end Invariant

section Results

variable {visibility : Bool} {delay : Answer V E → Option ℕ} {s t : State V E}

def Action.isBrowsers : Action V E → Bool
  | .fire _ | .answer _ _ => true
  | _ => false

theorem resume_newest (answer : Answer V E) (hrun : s.running = true) :
    .reported s.generation answer ∈ (resume visibility delay s s.generation answer).log := by
  unfold resume
  rw [if_neg (fun hstale ↦ hstale.elim (fun hne ↦ hne rfl) fun hoff ↦ hoff hrun)]
  dsimp only
  split
  · exact List.mem_cons_of_mem _ List.mem_cons_self
  · split
    · exact List.mem_cons_self
    · exact List.mem_cons_of_mem _ List.mem_cons_self

theorem Inv.exists_report (h : Inv visibility delay s) (hrun : s.running = true)
    (hread : s.generation ∈ s.reading) (answer : Answer V E) :
    ∃ t, Poller.next visibility delay s (.answer s.generation answer) = some t ∧
      .reported s.generation answer ∈ t.log ∧ .reported s.generation answer ∉ s.log :=
  ⟨_, if_pos hread,
    resume_newest (s := { s with reading := s.reading.erase s.generation }) answer hrun,
    (h.unread _ hread).2 answer⟩

theorem exists_wait_of_fired {log newer older : List (Event V E)} {read : ℕ}
    (h : Lawful (Law delay) log) (hlog : log = newer ++ .asked read :: .fired :: older) :
    ∃ wait earlier answer rest, older = .scheduled wait :: .reported earlier answer :: rest ∧
      delay answer = some wait := by
  obtain ⟨wait, past, rfl⟩ : Follows delay older .fired :=
    (h.law_of_eq_append (newer ++ [.asked read]) (by simp [hlog])).follows
  obtain ⟨earlier, answer, rest, rfl, hwait⟩ : Follows delay past (.scheduled wait) :=
    (h.law_of_eq_append (newer ++ [.asked read, .fired]) (by simp [hlog])).follows
  exact ⟨wait, earlier, answer, rest, rfl, hwait⟩

theorem started_of_running {newer older : List (Event V E)}
    (h : running (newer ++ .ended :: older) = true) : .started ∈ newer := by
  induction newer with
  | nil => cases h
  | cons e newer ih =>
    cases e with
    | started => exact List.mem_cons_self
    | ended => cases h
    | stopped => cases h
    | _ => exact List.mem_cons_of_mem _ (ih h)

/-- After an answer that asks for no other read there is none until the poller is started again. -/
theorem started_of_asked {log newer older : List (Event V E)} {read later : ℕ}
    {answer : Answer V E} (h : Lawful (Law delay) log)
    (hlog : log = newer ++ .reported read answer :: older) (hnone : delay answer = none)
    (hasked : .asked later ∈ newer) : .started ∈ newer := by
  obtain ⟨after, before, rfl⟩ := List.append_of_mem hasked
  have hlaw : Law delay (before ++ .reported read answer :: older) (.asked later) :=
    h.law_of_eq_append after (by simp [hlog])
  rcases List.eq_nil_or_concat' before with rfl | ⟨rest, e, rfl⟩
  · cases hlaw.ends read answer older rfl hnone
  · have hended : e = .ended :=
      (h.law_of_eq_append (after ++ .asked later :: rest) (by simp [hlog])).ends read answer
        older rfl hnone
    subst hended
    have hrunning : running (rest ++ .ended :: .reported read answer :: older) = true := by
      simpa using hlaw.follows.1
    simp [started_of_running hrunning]

theorem reads_reported_in_order (h : (machine visibility delay).Reachable s) :
    Lawful (Law delay) s.log ∧
    (∀ newer older read, s.log = newer ++ .asked read :: .fired :: older →
      ∃ wait earlier answer rest, older = .scheduled wait :: .reported earlier answer :: rest ∧
        delay answer = some wait) ∧
    ∀ newer older read answer later, s.log = newer ++ .reported read answer :: older →
      delay answer = none → .asked later ∈ newer → .started ∈ newer := by
  have hlawful := (inv_of_reachable h).lawful
  exact ⟨hlawful, fun _ _ _ ↦ exists_wait_of_fired hlawful, fun _ _ _ _ _ ↦
    started_of_asked hlawful⟩

theorem poller_never_stalls (h : (machine visibility delay).Reachable s) :
    s.timeouts.length ≤ 1 ∧
    (s.timeouts ≠ [] → s.running = true ∧ unseen visibility s = false ∧ s.generation ∉ s.reading) ∧
    (s.running = true → unseen visibility s = false → ∀ answer, ∃ as t read, as.length ≤ 2 ∧
      (∀ a ∈ as, a.isBrowsers = true) ∧
      (machine visibility delay).follow (fun _ _ ↦ True) s as = some t ∧
      .reported read answer ∈ t.log ∧ .reported read answer ∉ s.log) := by
  have hinv := inv_of_reachable h
  refine ⟨?_, fun harmed ↦ hinv.armed ?_, fun hrun hseen answer ↦ ?_⟩
  · rw [hinv.timeouts]
    cases s.timer with
    | none => exact Nat.zero_le _
    | some timeout => exact Nat.le_refl _
  · rw [hinv.timeouts] at harmed
    cases htimer : s.timer with
    | none => exact absurd (by rw [htimer, Option.toList_none]) harmed
    | some timeout => rfl
  · rcases hinv.awake hrun hseen with harmed | hread
    · -- the timeout fires, and the read it asks is answered
      obtain ⟨timeout, htimer⟩ := Option.isSome_iff_exists.1 harmed
      have hfire : timeout ∈ s.timeouts := by
        rw [hinv.timeouts, htimer]
        exact List.mem_cons_self
      obtain ⟨t, ht, hreported, hnew⟩ :=
        (hinv.fire hfire).exists_report hrun List.mem_cons_self answer
      refine ⟨[.fire timeout, .answer (s.generation + 1) answer], t, _, Nat.le_refl _,
        by simp [Action.isBrowsers], ?_, hreported, fun hmem ↦ hnew ?_⟩
      · simp only [Machine.follow, if_true, machine, next, if_pos hfire, Option.bind_some]
        exact congrArg (·.bind some) ht
      · exact List.mem_cons_of_mem _ (List.mem_cons_of_mem _ hmem)
    · obtain ⟨t, ht, hreported, hnew⟩ := hinv.exists_report hrun hread answer
      refine ⟨[.answer s.generation answer], t, _, Nat.le_succ _, by simp [Action.isBrowsers], ?_,
        hreported, hnew⟩
      simp only [Machine.follow, if_true]
      exact congrArg (·.bind some) ht

def shownAgain : List (Action ℕ ℕ) :=
  [.start, .answer 1 (.ok 5), .fire 0, .visibilityChange true, .visibilityChange false,
    .answer 3 (.ok 6)]

def idle (_ : Answer ℕ ℕ) : Option ℕ := some 10000

def untilFailed : Answer ℕ ℕ → Option ℕ
  | .ok _ => some 10000
  | .error _ => none

theorem exists_reads_reported_in_order : ∃ s, (machine true untilFailed).Reachable s ∧
    s.log.length = 15 ∧ Lawful (Law untilFailed) s.log := by
  have hstart : (machine true untilFailed).Reachable _ := Machine.ReachableBy.start ⟨false, rfl⟩
  obtain ⟨s, hs, hp⟩ := hstart.follow_any (shownAgain ++ [.fire 1, .answer 4 (.error 0)])
    (fun s ↦ s.log.length = 15) (by decide)
  exact ⟨s, hs, of_decide_eq_true hp, (reads_reported_in_order hs).1⟩

theorem exists_poller_never_stalls : ∃ s, (machine true idle).Reachable s ∧ s.timeouts = [1] ∧
    s.timeouts.length ≤ 1 ∧ ∃ (t : State ℕ ℕ) (read : ℕ), .reported read (.ok 7) ∈ t.log ∧
      .reported read (.ok 7) ∉ s.log := by
  have hstart : (machine true idle).Reachable _ := Machine.ReachableBy.start ⟨false, rfl⟩
  obtain ⟨s, hs, hp⟩ := hstart.follow_any shownAgain
    (fun s ↦ s.timeouts = [1] ∧ s.running = true ∧ unseen true s = false) (by decide)
  obtain ⟨htimeouts, hrun, hseen⟩ := of_decide_eq_true hp
  obtain ⟨hle, -, hlive⟩ := poller_never_stalls hs
  obtain ⟨-, t, read, -, -, -, hreported⟩ := hlive hrun hseen (.ok 7)
  exact ⟨s, hs, htimeouts, hle, t, read, hreported⟩

end Results

end Birdtest.Pages.Poller
