import Birdtest.Admin.Jobs
import Birdtest.Base.Pairings
import Mathlib.Data.List.DropRight

namespace Birdtest.Admin.RoundRobin

open Birdtest.Base.Pairings Birdtest.Admin.Solvers Birdtest.Admin.Players Birdtest.Admin.Jobs
open Birdtest.Jobs.Racks (Text isWhitespace trimMatches)

section Preview

structure Matchup (P : Type) where
  player1 : P
  player2 : P
  name : Text

def isSpace (c : Char) : Bool := (isWhitespace c ∧ c.toNat ≠ 0x85) ∨ c.toNat = 0xFEFF

variable {P : Type} (title : Text) (nameOf : P → Text)

def matchupName (a b : P) : Text :=
  let trimmed := trimMatches isSpace title
  let pairing := nameOf a ++ " vs ".toList ++ nameOf b
  if trimmed ≠ [] then trimmed ++ ": ".toList ++ pairing else pairing

def matchup (a b : P) : Matchup P := ⟨a, b, matchupName title nameOf a b⟩

def matchups (players : List P) : List (Matchup P) :=
  match players with
  | [only] => [matchup title nameOf only only]
  | players =>
    players.zipIdx.flatMap fun (a, i) ↦ (players.drop (i + 1)).map (matchup title nameOf a)

def maxRoundRobinConfigs : ℕ := 12

def matchupsAllowed (configs : ℕ) : Bool := 1 ≤ configs ∧ configs ≤ maxRoundRobinConfigs

def matchupCount (configs : ℕ) : ℕ := if configs = 1 then 1 else configs * (configs - 1) / 2

end Preview

section Names

variable {title t : Text} {p q : Char → Bool} {nameOf : ℕ → Text} {ids : List ℕ}

theorem dropWhile_congr (h : ∀ c ∈ t, p c = q c) : t.dropWhile p = t.dropWhile q := by
  induction t with
  | nil => rfl
  | cons c t ih =>
    obtain ⟨hc, hrest⟩ := List.forall_mem_cons.1 h
    rw [List.dropWhile_cons, List.dropWhile_cons, hc, ih hrest]

theorem trimMatches_congr (h : ∀ c ∈ t, p c = q c) : trimMatches p t = trimMatches q t := by
  rw [trimMatches, trimMatches, dropWhile_congr h, dropWhile_congr]
  intro c hc
  exact h c (Birdtest.Version.of_mem_dropWhile (List.mem_reverse.1 hc))

theorem trimMatches_eq (p : Char → Bool) (t : Text) :
    trimMatches p t = (t.dropWhile p).rdropWhile p := rfl

theorem dropWhile_trimMatches (p : Char → Bool) (t : Text) :
    (trimMatches p t).dropWhile p = trimMatches p t := by
  obtain ⟨rest, hrest⟩ := List.rdropWhile_prefix p (l := t.dropWhile p)
  rw [← trimMatches_eq] at hrest
  cases htrim : trimMatches p t with
  | nil => rfl
  | cons c text =>
    have hhead := List.head?_dropWhile_not p t
    rw [← hrest, htrim, List.cons_append, List.head?_cons] at hhead
    exact List.dropWhile_cons_of_neg (by simpa using hhead)

theorem trim_trim (t : Text) : trim (trim t) = trim t := by
  rw [trim, trimMatches_eq, trim, dropWhile_trimMatches, trimMatches_eq, List.rdropWhile_idempotent]

theorem trimMatches_isSpace (h : ∀ c ∈ title, c.toNat ≠ 0x85 ∧ c.toNat ≠ 0xFEFF) :
    trimMatches isSpace title = trim title := by
  refine trimMatches_congr fun c hc ↦ ?_
  obtain ⟨hnext, hmark⟩ := h c hc
  rw [isSpace]
  simp [hnext, hmark]

end Names

section Pairings

variable {ids seen : List ℕ} {body : CreateJobBody} {names : ℕ → Option Text}

theorem named_eq_none : named seen ids = none ↔ ids.Nodup ∧ ∀ id ∈ ids, id ∉ seen := by
  induction ids generalizing seen with
  | nil => simp [named]
  | cons id ids ih =>
    rw [named, List.nodup_cons, List.forall_mem_cons]
    split_ifs with hseen
    · exact iff_of_false (by simp) fun h ↦ h.2.1 hseen
    · rw [ih]
      constructor
      · rintro ⟨hnodup, hnot⟩
        have hne (id' : ℕ) (hid' : id' ∈ ids) := not_or.1 (mt List.mem_cons.2 (hnot id' hid'))
        exact ⟨⟨fun hid ↦ (hne id hid).1 rfl, hnodup⟩, hseen, fun id' hid' ↦ (hne id' hid').2⟩
      · rintro ⟨⟨hid, hnodup⟩, -, hnot⟩
        refine ⟨hnodup, fun id' hid' hmem ↦ ?_⟩
        obtain rfl | hmem := List.mem_cons.1 hmem
        · exact hid hid'
        · exact hnot id' hid' hmem

theorem of_roundRobinFields (h : roundRobinFields ids = []) :
    ids ≠ [] ∧ ids.length ≤ 12 ∧ ids.Nodup := by
  rw [roundRobinFields, List.append_eq_nil_iff, problemFields_eq_nil, Option.map_eq_none_iff,
    named_eq_none] at h
  obtain ⟨hcount, hnodup, -⟩ := h
  split_ifs at hcount with hne
  rw [refuse_eq_nil, not_lt] at hcount
  exact ⟨hne, hcount, hnodup⟩

theorem roundRobinFields_of_validate (hids : body.config.playerConfigIds = some ids)
    (hvalid : validateJobBody body = []) : roundRobinFields ids = [] := by
  have hfields := (validBody_of_validate hvalid).config
  cases hconfig : body.config with
  | leave config =>
    rw [hconfig] at hids
    cases hids
  | openingRack config =>
    rw [hconfig] at hids
    cases hids
  | game config =>
    rw [hconfig] at hids hfields
    cases hids
    simp only [JobTypeConfig.fields, GameConfig.fields, List.append_eq_nil_iff] at hfields
    exact hfields.1.1.1.1.1
  | gamePair config =>
    rw [hconfig] at hids hfields
    cases hids
    simp only [JobTypeConfig.fields, GamePairConfig.fields, List.append_eq_nil_iff] at hfields
    exact hfields.1.1.1.1

theorem seatings_eq (ids : List ℕ) : seatings ids = inOrder ids := by
  rw [seatings, flatMap_zipIdx ids Prod.mk]
  exact List.map_id _

def seatingsOf (ids : List ℕ) : List (ℕ × ℕ) :=
  match ids with
  | [only] => [(only, only)]
  | ids => inOrder ids

theorem seatingsOf_eq (h : ∀ only, ids ≠ [only]) : seatingsOf ids = inOrder ids := by
  unfold seatingsOf
  split
  · next only => exact absurd rfl (h only)
  · rfl

theorem pairings_eq (hids : body.config.playerConfigIds = some ids) :
    pairings body.config = seatingsOf ids := by
  rw [pairings, hids]
  split
  · next h => cases h
  · next only h =>
    cases h
    rfl
  · next ids' hne h =>
    cases h
    rw [seatings_eq, seatingsOf_eq fun only h ↦ hne only h]

theorem matchups_eq (ids : List ℕ) (title : Text) (nameOf : ℕ → Text) :
    matchups title nameOf ids = (seatingsOf ids).map fun pair ↦
      matchup title nameOf pair.1 pair.2 := by
  unfold matchups
  split
  · rfl
  · next hne =>
    rw [seatingsOf_eq fun only h ↦ hne only h]
    exact flatMap_zipIdx ids (matchup title nameOf)

theorem mem_seatingsOf {a b : ℕ} (h : (a, b) ∈ seatingsOf ids) :
    a ∈ ids ∧ b ∈ ids ∧ ([a, b].Sublist ids ∨ ids = [a] ∧ b = a) := by
  unfold seatingsOf at h
  split at h
  · next only =>
    cases List.mem_singleton.1 h
    exact ⟨List.mem_cons_self, List.mem_cons_self, .inr ⟨rfl, rfl⟩⟩
  · have hsublist := mem_inOrder.1 h
    refine ⟨hsublist.subset List.mem_cons_self, ?_, .inl hsublist⟩
    exact hsublist.subset (List.mem_cons_of_mem _ List.mem_cons_self)

theorem length_seatingsOf (ids : List ℕ) : (seatingsOf ids).length = matchupCount ids.length := by
  unfold seatingsOf matchupCount
  split
  · rfl
  · next hne =>
    rw [length_inOrder, Nat.choose_two_right, if_neg]
    intro hone
    obtain ⟨only, rfl⟩ := List.length_eq_one_iff.1 hone
    exact hne only rfl

theorem seatingsOf_ne_nil (hne : ids ≠ []) : seatingsOf ids ≠ [] := by
  match ids, hne with
  | [only], _ => exact List.cons_ne_nil _ _
  | a :: b :: rest, _ =>
    rw [seatingsOf, inOrder, List.map_cons]
    · exact List.cons_ne_nil _ _
    · simp

/-- What a request for games or pairs plans: a job for each seating. -/
theorem planJobs_eq (hids : body.config.playerConfigIds = some ids) (hne : ids ≠ [])
    (hnames : ∀ id ∈ ids, (names id).isSome) :
    planJobs names body =
    .ok ((seatingsOf ids).map (planPair names body (isOneJob (seatingsOf ids)))) := by
  rw [planJobs, pairings_eq hids, if_neg (seatingsOf_ne_nil hne)]
  split
  · next missing hmissing =>
    obtain ⟨pair, hpair, hmem⟩ := List.mem_flatMap.1 (List.mem_of_find?_eq_some hmissing)
    obtain ⟨ha, hb, -⟩ := mem_seatingsOf hpair
    have hnone := List.find?_some hmissing
    have hsome : (names missing).isSome := by
      rw [List.mem_cons, List.mem_singleton] at hmem
      obtain rfl | rfl := hmem
      · exact hnames _ ha
      · exact hnames _ hb
    rw [Option.isNone_iff_eq_none] at hnone
    rw [hnone] at hsome
    cases hsome
  · rfl

theorem name_planPair (htitle : ∀ c ∈ body.title.getD [], c.toNat ≠ 0x85 ∧ c.toNat ≠ 0xFEFF)
    (oneJob : Bool) (pair : ℕ × ℕ) : (planPair names body oneJob pair).name =
      (matchup (body.title.getD []) (fun id ↦ (names id).getD []) pair.1 pair.2).name := by
  simp only [planPair, matchup, matchupName, jobName, jobTitle, trim_trim,
    trimMatches_isSpace htitle]
  split_ifs <;> simp_all

/-- A request for games or pairs makes the jobs that the form shows before it is sent, in their
order and by their names: one for any two of its players, seated as they are listed, or a player's
games against itself. -/
theorem round_robin_as_previewed (hids : body.config.playerConfigIds = some ids)
    (hvalid : validateJobBody body = []) (hnames : ∀ id ∈ ids, (names id).isSome)
    (htitle : ∀ c ∈ body.title.getD [], c.toNat ≠ 0x85 ∧ c.toNat ≠ 0xFEFF) :
    matchupsAllowed ids.length = true ∧ ∃ plans, planJobs names body = .ok plans ∧
      plans.map (fun plan ↦ (plan.pair, plan.name)) =
        (matchups (body.title.getD []) (fun id ↦ (names id).getD []) ids).map
          (fun shown ↦ (some (shown.player1, shown.player2), shown.name)) ∧
      plans.length = matchupCount ids.length ∧ plans.length ≤ 66 ∧
      (∀ a b, a ∈ ids → b ∈ ids → a ≠ b →
        plans.countP (fun plan ↦ plan.pair = some (a, b) ∨ plan.pair = some (b, a)) = 1) ∧
      ∀ plan ∈ plans, ∃ a b, plan.pair = some (a, b) ∧
      ([a, b].Sublist ids ∨ ids = [a] ∧ b = a) := by
  obtain ⟨hne, hcount, hnodup⟩ := of_roundRobinFields (roundRobinFields_of_validate hids hvalid)
  have hpos := List.length_pos_iff.2 hne
  refine ⟨decide_eq_true ⟨hpos, hcount⟩, _, planJobs_eq hids hne hnames, ?_, ?_, ?_, ?_, ?_⟩
  · rw [matchups_eq, List.map_map, List.map_map]
    refine List.map_congr_left fun pair _ ↦ ?_
    simp only [Function.comp_apply, name_planPair htitle]
    rfl
  · rw [List.length_map, length_seatingsOf]
  · rw [List.length_map, length_seatingsOf, matchupCount]
    split_ifs
    · decide
    · calc ids.length * (ids.length - 1) / 2 ≤ 12 * 11 / 2 :=
          Nat.div_le_div_right (Nat.mul_le_mul hcount (Nat.sub_le_sub_right hcount 1))
        _ = 66 := rfl
  · intro a b ha hb hab
    rw [List.countP_map]
    have hmany (only : ℕ) : ids ≠ [only] := by
      rintro rfl
      rw [List.mem_singleton] at ha hb
      exact hab (ha.trans hb.symm)
    rw [seatingsOf_eq hmany, ← countP_meets hnodup ha hb hab]
    refine List.countP_congr fun pair _ ↦ ?_
    simp [planPair, meets]
  · intro plan hplan
    obtain ⟨pair, hpair, rfl⟩ := List.mem_map.1 hplan
    exact ⟨pair.1, pair.2, rfl, (mem_seatingsOf hpair).2.2⟩

def simmers : CreateJobBody where
  title := some " October ".toList
  jobType := .gamePairs
  variant := "classic"
  letterdistId := 0
  layoutId := 1
  config := .gamePair { playerConfigIds := [9, 4, 7], maxPairs := 500 }

theorem exists_round_robin_as_previewed : ∃ plans,
    planJobs (fun id ↦ some (Nat.toDigits 10 id)) simmers = .ok plans ∧ plans.length = 3 ∧
      plans.head?.map (·.name) = some "October: 9 vs 4".toList := by
  obtain ⟨-, plans, hplans, hshown, hlength, -⟩ := @round_robin_as_previewed [9, 4, 7] simmers
    (fun id ↦ some (Nat.toDigits 10 id)) rfl (by decide) (fun _ _ ↦ rfl)
    (by simp [simmers])
  refine ⟨plans, hplans, hlength, ?_⟩
  have hnames := congrArg (fun shown ↦ (shown.map Prod.snd).head?) hshown
  rw [List.map_map] at hnames
  rw [← List.head?_map]
  exact hnames.trans (by decide)

end Pairings

end Birdtest.Admin.RoundRobin
