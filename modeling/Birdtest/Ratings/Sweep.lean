import Birdtest.Base.Runs
import Birdtest.Ratings.Evidence

namespace Birdtest.Ratings

open Birdtest.Base.Runs Birdtest.Stats

/-- A `rating_runs` row. `evidence` stands for its ratings and its cross table, which are a function
of it. `results` are those it was read from, and `kept` that no purge or delete has since taken one
that counted; no statement asks either. -/
structure Run (C : Type) where
  evidence : Evidence C
  evidenceGames : Option ℕ
  results : List Result
  kept : Bool

inductive Kind (C : Type)
  /-- `only_if_evidence_changed` -/
  | sweep
  | recompute
  /-- A refit that commits together with a new anchor, or the old one with another rating. -/
  | moveAnchor (anchor : C)

def Kind.isSweep {C : Type} : Kind C → Bool
  | .sweep => true
  | .recompute | .moveAnchor _ => false

/-- A fit between its statements. What `summed` has of the results, and `unchanged` of a sweep that
stopped at the first check, is what the sum was read from. -/
inductive Phase (C : Type)
  | locked
  | summed (games : ℕ) (results : List Result)
  | stale (games : ℕ)
  | listed (games : ℕ) (members : Finset C)
  | built (games : ℕ) (members : Finset C) (results : List Result)
  /-- `fit_within` has returned `None`; the sum it is to record commits next. -/
  | unchanged (members : Finset C) (results : List Result) (evidenceGames : Option ℕ)

structure Fit (C : Type) where
  kind : Kind C
  phase : Phase C

structure State (C : Type) where
  jobs : Finset ℕ
  gamesCompleted : ℕ → ℕ
  results : List Result
  anchor : C
  members : Finset C
  runs : List (Run C)
  fit : Option (Fit C)

section Statements

variable {C : Type} [DecidableEq C] (settings : ℕ → Settings C) (s : State C)

def viewed : Kind C → Finset C
  | .sweep | .recompute => s.members
  | .moveAnchor anchor => insert anchor s.members

def anchorOf : Kind C → C
  | .sweep | .recompute => s.anchor
  | .moveAnchor anchor => anchor

/-- `SUM(j.games_completed)` over the jobs whose players are both members. -/
def sumGames (members : Finset C) : ℕ :=
  ∑ job ∈ s.jobs.filter fun job ↦ eligible settings members job = true, s.gamesCompleted job

def sameSum (games : ℕ) : Bool :=
  s.runs.head?.any fun run ↦ run.evidenceGames = some games ∧ run.evidence.members = s.members

def samePairs (members : Finset C) (results : List Result) : Bool :=
  s.runs.head?.any fun run ↦
    run.evidence.pairsUsed = (buildMatrix settings members results).pairsUsed ∧
      run.evidence.members = members

def record (games : ℕ) (run : Run C) : Run C := { run with evidenceGames := some games }

def enter (kind : Kind C) (phase : Phase C) : State C := { s with fit := some ⟨kind, phase⟩ }

/-- A fit fails on an anchor that is no member. -/
def store (kind : Kind C) (games : ℕ) (members : Finset C) (results : List Result) : State C :=
  if anchorOf s kind ∈ members then
    { s with
      anchor := anchorOf s kind
      members := viewed s kind
      runs := ⟨buildMatrix settings members results, some games, results, true⟩ :: s.runs
      fit := none }
  else { s with fit := none }

def statement (f : Fit C) : State C :=
  match f.phase with
  | .locked => enter s f.kind (.summed (sumGames settings s (viewed s f.kind)) s.results)
  | .summed games results =>
    if f.kind.isSweep ∧ sameSum s games then enter s f.kind (.unchanged s.members results none)
    else enter s f.kind (.stale games)
  | .stale games => enter s f.kind (.listed games (viewed s f.kind))
  | .listed games members => enter s f.kind (.built games members s.results)
  | .built games members results =>
    if f.kind.isSweep ∧ samePairs settings s members results then
      enter s f.kind (.unchanged members results (some games))
    else store settings s f.kind games members results
  | .unchanged _ _ none => { s with fit := none }
  | .unchanged _ _ (some games) => { s with runs := s.runs.modifyHead (record games), fit := none }

/-- A job's results go, and `mark_every_pool_for_refit` marks the newest run. -/
def takeResults (job : ℕ) : State C :=
  { s with
    gamesCompleted := Function.update s.gamesCompleted job 0
    results := s.results.filter (·.job ≠ job)
    runs := (s.runs.map fun run ↦ { run with kept := run.kept &&
      (relevant settings run.evidence.members run.results).all (·.job ≠ job) }).modifyHead
        ({ · with evidenceGames := none }) }

end Statements

inductive Action (C : Type)
  | createJob (job : ℕ)
  | accept (r : Result)
  | addMember (config : C)
  | removeMember (config : C)
  | purge (job : ℕ)
  | delete (job : ℕ)
  | lock (kind : Kind C)
  | statement
  | rollback

section Machine

variable {C : Type} [DecidableEq C] (settings : ℕ → Settings C)

/-- Purges, deletes and removals hold the fit lock to their commit, so none is made during a fit. -/
def next (s : State C) : Action C → Option (State C)
  | .createJob job =>
    if job ∉ s.jobs then
      some { s with
        jobs := insert job s.jobs, gamesCompleted := Function.update s.gamesCompleted job 0 }
    else none
  | .accept r =>
    if r.job ∈ s.jobs then
      some { s with
        gamesCompleted :=
          Function.update s.gamesCompleted r.job (s.gamesCompleted r.job + r.games)
        results := s.results ++ [r] }
    else none
  | .addMember config => some { s with members := insert config s.members }
  | .removeMember config =>
    if s.fit.isNone ∧ config ≠ s.anchor then some { s with members := s.members.erase config }
    else none
  | .purge job => if s.fit.isNone then some (takeResults settings s job) else none
  | .delete job =>
    if s.fit.isNone then some { takeResults settings s job with jobs := s.jobs.erase job }
    else none
  | .lock kind => if s.fit.isNone then some (enter s kind .locked) else none
  | .statement => s.fit.map (statement settings s)
  | .rollback => some { s with fit := none }

def start (s : State C) : Prop :=
  s.jobs = ∅ ∧ s.results = [] ∧ s.members = {s.anchor} ∧ s.runs = [] ∧ s.fit = none

def machine : Machine (State C) (Action C) := ⟨start, next settings⟩

end Machine

section Prefixes

variable {C : Type} [DecidableEq C] {settings : ℕ → Settings C} {members members' : Finset C}
variable {results results' : List Result} {r : Result}

def gamesOf (settings : ℕ → Settings C) (members : Finset C) (results : List Result) : ℕ :=
  ((jobResults settings members results).map (·.games)).sum

def counts (settings : ℕ → Settings C) (r : Result) : Bool :=
  (settings r.job).player1 ≠ (settings r.job).player2 ∧ 0 < r.pentanomial.pairs

theorem relevant_eq_filter :
    relevant settings members results = (jobResults settings members results).filter
    (counts settings) := by
  rw [jobResults, List.filter_filter]
  refine List.filter_congr fun r _ ↦ ?_
  rw [Bool.eq_iff_iff, Bool.and_eq_true, counts, decide_eq_true_iff, decide_eq_true_iff, and_comm]

theorem jobResults_append : jobResults settings members (results ++ results') =
    jobResults settings members results ++ jobResults settings members results' :=
  List.filter_append ..

theorem relevant_append : relevant settings members (results ++ results') =
    relevant settings members results ++ relevant settings members results' :=
  List.filter_append ..

theorem eligible_mono (h : members ⊆ members') {job : ℕ}
    (he : eligible settings members job = true) : eligible settings members' job = true := by
  obtain ⟨hscope, h₁, h₂⟩ := of_decide_eq_true he
  exact decide_eq_true ⟨hscope, h h₁, h h₂⟩

theorem gamesOf_mono (h : members ⊆ members') (hp : results <+: results') :
    gamesOf settings members results ≤ gamesOf settings members' results' := by
  obtain ⟨added, rfl⟩ := hp
  have hsub : (jobResults settings members results).Sublist
      (jobResults settings members' (results ++ added)) := by
    rw [jobResults_append]
    exact (List.monotone_filter_right _ fun r hr ↦ eligible_mono h hr).trans
      (List.sublist_append_left _ _)
  exact (hsub.map _).sum_le_sum fun _ _ ↦ Nat.zero_le _

theorem counts_eq_false_of_games_eq_zero (h : r.games = 0) : counts settings r = false := by
  have := r.check
  refine decide_eq_false fun hc ↦ ?_
  omega

/-- A sum that has not moved, of results only added to, is of no further result that counts. -/
theorem relevant_eq_of_gamesOf_le {old new : List Result}
    (hsplit : jobResults settings members results = old ++ new)
    (hle : gamesOf settings members results ≤ (old.map (·.games)).sum) :
    relevant settings members results = old.filter (counts settings) := by
  have hnew : ∀ r ∈ new, counts settings r = false := by
    intro r hr
    rw [gamesOf, hsplit, List.map_append, List.sum_append] at hle
    have := List.single_le_sum (fun _ _ ↦ Nat.zero_le _) _ (List.mem_map_of_mem (f := (·.games)) hr)
    exact counts_eq_false_of_games_eq_zero (by omega)
  have hnone : new.filter (counts settings) = [] :=
    List.filter_eq_nil_iff.2 fun r hr ↦ by simp [hnew r hr]
  rw [relevant_eq_filter, hsplit, List.filter_append, hnone, List.append_nil]

end Prefixes

section Invariant

variable {C : Type} [DecidableEq C] {settings : ℕ → Settings C} {s t : State C}

structure Counted (s : State C) : Prop where
  counter : ∀ job ∈ s.jobs, s.gamesCompleted job = total s.results (·.games) job
  job : ∀ r ∈ s.results, r.job ∈ s.jobs

theorem Counted.sumGames (h : Counted s) (members : Finset C) :
    sumGames settings s members = gamesOf settings members s.results := by
  have hcounter : Ratings.sumGames settings s members =
      ∑ job ∈ s.jobs.filter fun job ↦ eligible settings members job = true,
        total s.results (·.games) job :=
    Finset.sum_congr rfl fun job hjob ↦ h.counter job (Finset.mem_filter.1 hjob).1
  rw [hcounter, sum_total, gamesOf, jobResults]
  congr 2
  refine List.filter_congr fun r hr ↦ ?_
  rw [Bool.eq_iff_iff, decide_eq_true_iff, Finset.mem_filter]
  exact ⟨fun hr ↦ hr.2, fun he ↦ ⟨h.job r hr, he⟩⟩

theorem Counted.accept (h : Counted s) {r : Result} (ht : next settings s (.accept r) = some t) :
    Counted t := by
  obtain ⟨hjob, ht⟩ := Option.ite_none_right_eq_some.1 ht
  cases ht
  refine ⟨fun job hj ↦ ?_, fun r' hr' ↦ ?_⟩
  · rw [total_append, total_cons, total_nil, add_zero]
    rcases eq_or_ne job r.job with rfl | hne
    · rw [if_pos rfl, ← h.counter _ hj]
      exact Function.update_self ..
    · rw [if_neg hne.symm, add_zero, ← h.counter job hj]
      exact Function.update_of_ne hne ..
  · rcases List.mem_append.1 hr' with hr' | hr'
    · exact h.job r' hr'
    · rw [List.mem_singleton.1 hr']
      exact hjob

theorem Counted.createJob (h : Counted s) {job : ℕ}
    (ht : next settings s (.createJob job) = some t) : Counted t := by
  obtain ⟨hnew, ht⟩ := Option.ite_none_right_eq_some.1 ht
  cases ht
  refine ⟨fun job' hj ↦ ?_, fun r hr ↦ Finset.mem_insert_of_mem (h.job r hr)⟩
  rcases eq_or_ne job' job with rfl | hne
  · have hnone : s.results.filter (·.job = job') = [] :=
      List.filter_eq_nil_iff.2 fun r hr hjob ↦ hnew (of_decide_eq_true hjob ▸ h.job r hr)
    rw [total, hnone]
    exact Function.update_self ..
  · rw [← h.counter job' (Finset.mem_of_mem_insert_of_ne hj hne)]
    exact Function.update_of_ne hne ..

theorem Counted.takeResults (h : Counted s) (job : ℕ) : Counted (takeResults settings s job) := by
  refine ⟨fun job' hj ↦ ?_, fun r hr ↦ h.job r (List.mem_filter.1 hr).1⟩
  rcases eq_or_ne job' job with rfl | hne
  · have hnone : (s.results.filter (·.job ≠ job')).filter (·.job = job') = [] :=
      List.filter_eq_nil_iff.2 fun r hr hjob ↦
        of_decide_eq_true (List.mem_filter.1 hr).2 (of_decide_eq_true hjob)
    refine (Function.update_self ..).trans ?_
    rw [total, Ratings.takeResults, hnone]
    rfl
  · have hsame : (s.results.filter (·.job ≠ job)).filter (·.job = job') =
        s.results.filter (·.job = job') := by
      rw [List.filter_filter]
      refine List.filter_congr fun r _ ↦ ?_
      by_cases hr : r.job = job' <;> simp [hr, hne]
    refine (Function.update_of_ne hne ..).trans ((h.counter job' hj).trans ?_)
    rw [total, total, Ratings.takeResults, hsame]

theorem Counted.delete (h : Counted s) (job : ℕ) :
    Counted { Ratings.takeResults settings s job with jobs := s.jobs.erase job } where
  counter job' hj := by
    have hresults : Counted (Ratings.takeResults settings s job) := h.takeResults job
    exact hresults.counter job' (Finset.mem_of_mem_erase hj)
  job r hr :=
    Finset.mem_erase.2 ⟨of_decide_eq_true (List.mem_filter.1 hr).2,
      h.job r (List.mem_filter.1 hr).1⟩

/-- What the newest run tells of the results as they are, or as a fit has read them. -/
structure Describes (settings : ℕ → Settings C) (results : List Result) (run : Run C) : Prop where
  evidence : run.evidence = buildMatrix settings run.evidence.members run.results
  kept : run.kept = true → ∃ added, relevant settings run.evidence.members results =
    relevant settings run.evidence.members run.results ++ added
  /-- The recorded sum is of no more than some of the results, of which those that count are the
  run's. -/
  recorded : ∀ games ∈ run.evidenceGames, ∃ old new,
    jobResults settings run.evidence.members results = old ++ new ∧
      old.filter (counts settings) = relevant settings run.evidence.members run.results ∧
      games ≤ (old.map (·.games)).sum

variable {results results' : List Result} {run : Run C} {games : ℕ} {members : Finset C}

theorem Describes.append (h : Describes settings results run) (added : List Result) :
    Describes settings (results ++ added) run where
  evidence := h.evidence
  kept hkept := by
    obtain ⟨more, hmore⟩ := h.kept hkept
    rw [relevant_append, hmore, List.append_assoc]
    exact ⟨_, rfl⟩
  recorded games hgames := by
    obtain ⟨old, new, hsplit, hold, hle⟩ := h.recorded games hgames
    rw [jobResults_append, hsplit, List.append_assoc]
    exact ⟨old, _, rfl, hold, hle⟩

theorem describes_store {kept : Bool} (hle : games ≤ gamesOf settings members results) :
    Describes settings results
      ⟨buildMatrix settings members results, some games, results, kept⟩ where
  evidence := rfl
  kept _ := ⟨[], (List.append_nil _).symm⟩
  recorded games' h := by
    cases h
    exact ⟨_, [], (List.append_nil _).symm, relevant_eq_filter.symm, hle⟩

theorem Describes.take (h : Describes settings results run) (job : ℕ) :
    Describes settings (results.filter (·.job ≠ job)) { run with
      kept := run.kept &&
        (relevant settings run.evidence.members run.results).all (·.job ≠ job)
      evidenceGames := none } where
  evidence := h.evidence
  kept hkept := by
    obtain ⟨hkept, hall⟩ := Bool.and_eq_true_iff.1 hkept
    obtain ⟨added, hadded⟩ := h.kept hkept
    have hcomm : relevant settings run.evidence.members (results.filter (·.job ≠ job)) =
        (relevant settings run.evidence.members results).filter (·.job ≠ job) := by
      rw [relevant, relevant, List.filter_filter, List.filter_filter]
      exact List.filter_congr fun _ _ ↦ Bool.and_comm ..
    rw [hcomm, hadded, List.filter_append, List.filter_eq_self.2 (List.all_eq_true.1 hall)]
    exact ⟨_, rfl⟩
  recorded games hgames := by cases hgames

theorem Describes.of_sum_eq (h : Describes settings results run)
    (hgames : run.evidenceGames = some games)
    (hsum : games = gamesOf settings run.evidence.members results) :
    run.evidence = buildMatrix settings run.evidence.members results := by
  obtain ⟨old, new, hsplit, hold, hle⟩ := h.recorded games hgames
  rw [hsum] at hle
  have hrelevant := relevant_eq_of_gamesOf_le hsplit hle
  rw [hold] at hrelevant
  exact h.evidence.trans (buildMatrix_congr hrelevant.symm)

/-- The second, if none has been purged. -/
theorem Describes.of_pairsUsed_eq (h : Describes settings results run) (hkept : run.kept = true)
    (hpairs : run.evidence.pairsUsed =
      (buildMatrix settings run.evidence.members results).pairsUsed) :
    relevant settings run.evidence.members results =
        relevant settings run.evidence.members run.results ∧
      run.evidence = buildMatrix settings run.evidence.members results := by
  obtain ⟨added, hadded⟩ := h.kept hkept
  have hused : (buildMatrix settings run.evidence.members results).pairsUsed =
      (buildMatrix settings run.evidence.members run.results).pairsUsed := by
    rw [← hpairs, ← h.evidence]
  have hrelevant := relevant_eq_of_pairsUsed_eq hadded hused
  exact ⟨hrelevant, h.evidence.trans (buildMatrix_congr hrelevant.symm)⟩

theorem Describes.record {added : List Result} (h : Describes settings (results ++ added) run)
    (hrelevant : relevant settings run.evidence.members results =
      relevant settings run.evidence.members run.results)
    (hle : games ≤ gamesOf settings run.evidence.members results) :
    Describes settings (results ++ added) (record games run) where
  evidence := h.evidence
  kept := h.kept
  recorded games' hgames := by
    cases hgames
    exact ⟨_, _, jobResults_append, relevant_eq_filter.symm.trans hrelevant, hle⟩

def Newest (settings : ℕ → Settings C) (s : State C) (results : List Result) : Prop :=
  ∀ run ∈ s.runs.head?, Describes settings results run

def Reads (settings : ℕ → Settings C) (s : State C) (f : Fit C) : Prop :=
  match f.phase with
  | .locked => True
  | .summed games results => results <+: s.results ∧
      games ≤ gamesOf settings (viewed s f.kind) results ∧ Newest settings s results
  | .stale games => games ≤ gamesOf settings (viewed s f.kind) s.results
  | .listed games members => members ⊆ viewed s f.kind ∧ games ≤ gamesOf settings members s.results
  | .built games members results => results <+: s.results ∧ members ⊆ viewed s f.kind ∧
      games ≤ gamesOf settings members results ∧ Newest settings s results
  | .unchanged members results evidenceGames => f.kind.isSweep = true ∧ results <+: s.results ∧
      members ⊆ s.members ∧ ∃ run ∈ s.runs.head?,
        run.evidence = buildMatrix settings members results ∧ ∀ games ∈ evidenceGames,
          relevant settings members results = relevant settings members run.results ∧
            games ≤ gamesOf settings members results

theorem viewed_mono (h : s.members ⊆ t.members) (kind : Kind C) :
    viewed s kind ⊆ viewed t kind := by
  cases kind with
  | sweep => exact h
  | recompute => exact h
  | moveAnchor anchor => exact Finset.insert_subset_insert _ h

theorem Reads.mono {f : Fit C} (h : Reads settings s f) (hmembers : s.members ⊆ t.members)
    (hresults : s.results <+: t.results) (hruns : t.runs = s.runs) : Reads settings t f := by
  have hviewed := viewed_mono hmembers f.kind
  obtain ⟨kind, phase⟩ := f
  cases phase with
  | locked => trivial
  | summed games results =>
    obtain ⟨hread, hle, hnewest⟩ := h
    exact ⟨hread.trans hresults, hle.trans (gamesOf_mono hviewed List.prefix_rfl),
      by rwa [Newest, hruns]⟩
  | stale games => exact h.trans (gamesOf_mono hviewed hresults)
  | listed games members =>
    exact ⟨h.1.trans hviewed, h.2.trans (gamesOf_mono (Finset.Subset.refl _) hresults)⟩
  | built games members results =>
    obtain ⟨hread, hlisted, hle, hnewest⟩ := h
    exact ⟨hread.trans hresults, hlisted.trans hviewed, hle, by rwa [Newest, hruns]⟩
  | unchanged members results evidenceGames =>
    obtain ⟨hsweep, hread, hlisted, hrun⟩ := h
    exact ⟨hsweep, hread.trans hresults, hlisted.trans hmembers, by rwa [hruns]⟩

structure Inv (settings : ℕ → Settings C) (s : State C) : Prop where
  counted : Counted s
  newest : Newest settings s s.results
  reads : ∀ f, s.fit = some f → Reads settings s f

/-- A member that the first check finds in the list, and not yet in the sum, brings no games to it;
and the second does not find the members and the pairs of a run of whose results some that counted
have been purged or deleted since. -/
def CheckHolds (settings : ℕ → Settings C) (s : State C) : Phase C → Prop
  | .summed games results => sameSum s games = true → games = gamesOf settings s.members results
  | .built _ members results =>
    samePairs settings s members results = true → ∀ run ∈ s.runs.head?, run.kept = true
  | .locked | .stale _ | .listed _ _ | .unchanged _ _ _ => True

def Timely (settings : ℕ → Settings C) (s : State C) : Action C → Prop
  | .statement => ∀ f ∈ s.fit, f.kind.isSweep = true → CheckHolds settings s f.phase
  | .createJob _ | .accept _ | .addMember _ | .removeMember _ | .purge _ | .delete _ | .lock _
  | .rollback => True

theorem Inv.grow (h : Inv settings s) (hcounted : Counted t) (hmembers : s.members ⊆ t.members)
    {added : List Result} (hresults : t.results = s.results ++ added) (hruns : t.runs = s.runs)
    (hfit : t.fit = s.fit) : Inv settings t where
  counted := hcounted
  newest run hrun := by
    rw [hruns] at hrun
    rw [hresults]
    exact (h.newest run hrun).append added
  reads f hf := (h.reads f (hfit ▸ hf)).mono hmembers (hresults ▸ List.prefix_append ..) hruns

theorem Inv.entered (h : Inv settings s) {kind : Kind C} {phase : Phase C}
    (hreads : Reads settings s ⟨kind, phase⟩) : Inv settings (enter s kind phase) where
  counted := ⟨h.counted.counter, h.counted.job⟩
  newest := h.newest
  reads f hf := by
    cases hf
    exact hreads.mono (Finset.Subset.refl _) List.prefix_rfl rfl

theorem Inv.ended (h : Inv settings s) : Inv settings { s with fit := none } where
  counted := ⟨h.counted.counter, h.counted.job⟩
  newest := h.newest
  reads f hf := by cases hf

theorem sameSum_cases (h : sameSum s games = true) :
    ∃ run ∈ s.runs.head?, run.evidenceGames = some games ∧ run.evidence.members = s.members := by
  obtain ⟨run, hrun, hsame⟩ := (Option.any_eq_true ..).1 h
  exact ⟨run, hrun, of_decide_eq_true hsame⟩

theorem samePairs_cases (h : samePairs settings s members results = true) :
    ∃ run ∈ s.runs.head?,
      run.evidence.pairsUsed = (buildMatrix settings members results).pairsUsed ∧
        run.evidence.members = members := by
  obtain ⟨run, hrun, hsame⟩ := (Option.any_eq_true ..).1 h
  exact ⟨run, hrun, of_decide_eq_true hsame⟩

theorem viewed_of_isSweep {kind : Kind C} (h : kind.isSweep = true) :
    viewed s kind = s.members := by
  cases kind <;> first | rfl | cases h

theorem Inv.firstCheck (h : Inv settings s) {kind : Kind C}
    (hreads : Reads settings s ⟨kind, .summed games results⟩) (hsweep : kind.isSweep = true)
    (hok : sameSum s games = true → games = gamesOf settings s.members results)
    (hsame : sameSum s games = true) :
    Inv settings (enter s kind (.unchanged s.members results none)) := by
  obtain ⟨hread, -, hnewest⟩ := hreads
  obtain ⟨run, hrun, hgames, hmembers⟩ := sameSum_cases hsame
  have hevidence := (hnewest run hrun).of_sum_eq hgames (by rw [hmembers, hok hsame])
  rw [hmembers] at hevidence
  have hread : Reads settings s ⟨kind, .unchanged s.members results none⟩ :=
    ⟨hsweep, hread, Finset.Subset.refl _, run, hrun, hevidence, fun _ hg ↦ by cases hg⟩
  exact h.entered hread

theorem Inv.secondCheck (h : Inv settings s) {kind : Kind C}
    (hreads : Reads settings s ⟨kind, .built games members results⟩) (hsweep : kind.isSweep = true)
    (hok : samePairs settings s members results = true → ∀ run ∈ s.runs.head?, run.kept = true)
    (hsame : samePairs settings s members results = true) :
    Inv settings (enter s kind (.unchanged members results (some games))) := by
  obtain ⟨hread, hlisted, hle, hnewest⟩ := hreads
  obtain ⟨run, hrun, hpairs, rfl⟩ := samePairs_cases hsame
  obtain ⟨hrelevant, hevidence⟩ :=
    (hnewest run hrun).of_pairsUsed_eq (hok hsame run hrun) hpairs
  have hread : Reads settings s ⟨kind, .unchanged run.evidence.members results (some games)⟩ := by
    refine ⟨hsweep, hread, viewed_of_isSweep hsweep ▸ hlisted, run, hrun, hevidence,
      fun games' hg ↦ ?_⟩
    cases hg
    exact ⟨hrelevant, hle⟩
  exact h.entered hread

theorem Inv.store (h : Inv settings s) {kind : Kind C}
    (hreads : Reads settings s ⟨kind, .built games members results⟩) :
    Inv settings (store settings s kind games members results) := by
  obtain ⟨⟨added, hadded⟩, -, hle, -⟩ := hreads
  unfold Ratings.store
  split
  · refine ⟨⟨h.counted.counter, h.counted.job⟩, fun run hrun ↦ ?_, fun f hf ↦ by cases hf⟩
    cases hrun
    dsimp only
    rw [← hadded]
    exact (describes_store hle).append added
  · exact h.ended

theorem Inv.recorded (h : Inv settings s) {kind : Kind C}
    (hreads : Reads settings s ⟨kind, .unchanged members results (some games)⟩) :
    Inv settings { s with runs := s.runs.modifyHead (Ratings.record games), fit := none } := by
  obtain ⟨-, ⟨added, hadded⟩, -, run, hrun, hevidence, hrecord⟩ := hreads
  obtain ⟨hrelevant, hle⟩ := hrecord games rfl
  have hmembers : run.evidence.members = members := by rw [hevidence]; rfl
  refine ⟨⟨h.counted.counter, h.counted.job⟩, fun run' hrun' ↦ ?_, fun f hf ↦ by cases hf⟩
  rw [List.head?_modifyHead, hrun] at hrun'
  cases hrun'
  have hdescribes := h.newest run hrun
  dsimp only
  rw [← hadded] at hdescribes ⊢
  exact hdescribes.record (hmembers ▸ hrelevant) (hmembers ▸ hle)

theorem Inv.statement (h : Inv settings s) {f : Fit C} (hf : s.fit = some f)
    (hok : f.kind.isSweep = true → CheckHolds settings s f.phase) :
    Inv settings (statement settings s f) := by
  have hreads := h.reads f hf
  obtain ⟨kind, phase⟩ := f
  cases phase with
  | locked =>
    have hread : Reads settings s
        ⟨kind, .summed (sumGames settings s (viewed s kind)) s.results⟩ :=
      ⟨List.prefix_rfl, (h.counted.sumGames _).le, h.newest⟩
    exact h.entered hread
  | summed games results =>
    dsimp only [Ratings.statement]
    split
    · next hsame => exact h.firstCheck hreads hsame.1 (hok hsame.1) hsame.2
    · have hread : Reads settings s ⟨kind, .stale games⟩ :=
        hreads.2.1.trans (gamesOf_mono (Finset.Subset.refl _) hreads.1)
      exact h.entered hread
  | stale games =>
    have hread : Reads settings s ⟨kind, .listed games (viewed s kind)⟩ :=
      ⟨Finset.Subset.refl _, hreads⟩
    exact h.entered hread
  | listed games members =>
    have hread : Reads settings s ⟨kind, .built games members s.results⟩ :=
      ⟨List.prefix_rfl, hreads.1, hreads.2, h.newest⟩
    exact h.entered hread
  | built games members results =>
    dsimp only [Ratings.statement]
    split
    · next hsame => exact h.secondCheck hreads hsame.1 (hok hsame.1) hsame.2
    · exact h.store hreads
  | unchanged members results evidenceGames =>
    cases evidenceGames with
    | none => exact h.ended
    | some games => exact h.recorded hreads

theorem Inv.takeResults (h : Inv settings s) (hfree : s.fit.isNone = true) (job : ℕ) :
    Inv settings (takeResults settings s job) := by
  refine ⟨h.counted.takeResults job, fun run hrun ↦ ?_, fun f hf ↦ ?_⟩
  · rw [Ratings.takeResults, List.head?_modifyHead, List.head?_map, Option.map_map] at hrun
    obtain ⟨run', hrun', rfl⟩ := Option.map_eq_some_iff.1 hrun
    exact (h.newest run' hrun').take job
  · cases (Option.isNone_iff_eq_none.1 hfree).symm.trans hf

theorem Inv.next (h : Inv settings s) {a : Action C} (hok : Timely settings s a)
    (ht : next settings s a = some t) : Inv settings t := by
  cases a with
  | createJob job =>
    have hcounted := h.counted.createJob ht
    obtain ⟨-, ht⟩ := Option.ite_none_right_eq_some.1 ht
    cases ht
    exact h.grow hcounted (Finset.Subset.refl _) (List.append_nil _).symm rfl rfl
  | accept r =>
    have hcounted := h.counted.accept ht
    obtain ⟨-, ht⟩ := Option.ite_none_right_eq_some.1 ht
    cases ht
    exact h.grow hcounted (Finset.Subset.refl _) rfl rfl rfl
  | addMember config =>
    cases ht
    exact h.grow ⟨h.counted.counter, h.counted.job⟩ (Finset.subset_insert _ _)
      (List.append_nil _).symm rfl rfl
  | removeMember config =>
    obtain ⟨⟨hfree, -⟩, ht⟩ := Option.ite_none_right_eq_some.1 ht
    cases ht
    refine ⟨⟨h.counted.counter, h.counted.job⟩, h.newest, fun f hf ↦ ?_⟩
    cases (Option.isNone_iff_eq_none.1 hfree).symm.trans hf
  | purge job =>
    obtain ⟨hfree, ht⟩ := Option.ite_none_right_eq_some.1 ht
    cases ht
    exact h.takeResults hfree job
  | delete job =>
    obtain ⟨hfree, ht⟩ := Option.ite_none_right_eq_some.1 ht
    cases ht
    have htaken := h.takeResults hfree job
    exact ⟨h.counted.delete job, htaken.newest, htaken.reads⟩
  | lock kind =>
    obtain ⟨-, ht⟩ := Option.ite_none_right_eq_some.1 ht
    cases ht
    exact h.entered trivial
  | statement =>
    obtain ⟨f, hf, rfl⟩ := Option.map_eq_some_iff.1 ht
    exact h.statement hf (hok f hf)
  | rollback =>
    cases ht
    exact h.ended

theorem inv_of_start (h : start s) : Inv settings s := by
  obtain ⟨hjobs, hresults, -, hruns, hfit⟩ := h
  refine ⟨⟨fun job hj ↦ ?_, fun r hr ↦ ?_⟩, fun run hrun ↦ ?_, fun f hf ↦ ?_⟩
  · rw [hjobs] at hj
    cases hj
  · rw [hresults] at hr
    cases hr
  · rw [hruns] at hrun
    cases hrun
  · cases hfit.symm.trans hf

theorem inv_of_reachableBy (h : (machine settings).ReachableBy (Timely settings) s) :
    Inv settings s :=
  h.invariant (fun _ h ↦ inv_of_start h) fun _ _ _ h hok ht ↦ h.next hok ht

/-- When a sweep returns without storing a run, the newest run is of the evidence that it read of
the pool, to which members and results have at most been added since. -/
theorem newest_current (h : (machine settings).ReachableBy (Timely settings) s) {kind : Kind C}
    {evidenceGames : Option ℕ}
    (hfit : s.fit = some ⟨kind, .unchanged members results evidenceGames⟩) :
    (∃ run, s.runs.head? = some run ∧ run.evidence = buildMatrix settings members results) ∧
      members ⊆ s.members ∧ results <+: s.results := by
  obtain ⟨-, hread, hlisted, run, hrun, hevidence, -⟩ := (inv_of_reachableBy h).reads _ hfit
  exact ⟨⟨run, hrun, hevidence⟩, hlisted, hread⟩

end Invariant

section Sample

instance {C : Type} [DecidableEq C] (settings : ℕ → Settings C) (s : State C) :
    (phase : Phase C) → Decidable (CheckHolds settings s phase)
  | .summed games results => inferInstanceAs (Decidable
      (sameSum s games = true → games = gamesOf settings s.members results))
  | .built _ members results => inferInstanceAs (Decidable
      (samePairs settings s members results = true → ∀ run ∈ s.runs.head?, run.kept = true))
  | .locked | .stale _ | .listed _ _ | .unchanged _ _ _ => inferInstanceAs (Decidable True)

instance {C : Type} [DecidableEq C] (settings : ℕ → Settings C) (s : State C) :
    (a : Action C) → Decidable (Timely settings s a)
  | .statement => inferInstanceAs (Decidable
      (∀ f ∈ s.fit, f.kind.isSweep = true → CheckHolds settings s f.phase))
  | .createJob _ | .accept _ | .addMember _ | .removeMember _ | .purge _ | .delete _ | .lock _
  | .rollback => inferInstanceAs (Decidable True)

def oneMatch : ℕ → Settings ℕ := fun _ ↦ ⟨true, 0, 1⟩

def newPool : State ℕ where
  jobs := ∅
  gamesCompleted _ := 0
  results := []
  anchor := 0
  members := {0}
  runs := []
  fit := none

theorem start_newPool : start newPool := ⟨rfl, rfl, rfl, rfl, rfl⟩

def wonBoth : Result := ⟨7, 2, ⟨fun k ↦ if k = 4 then 1 else 0⟩, rfl⟩

def lostBoth : Result := ⟨7, 2, ⟨fun k ↦ if k = 0 then 1 else 0⟩, rfl⟩

def fitted (kind : Kind ℕ) : List (Action ℕ) := .lock kind :: List.replicate 5 .statement

theorem follow_newPool {ok : State ℕ → Action ℕ → Prop} [∀ s a, Decidable (ok s a)]
    {as : List (Action ℕ)} {t : State ℕ} (h : (machine oneMatch).follow ok newPool as = some t) :
    (machine oneMatch).ReachableBy ok t := Machine.ReachableBy.follow (.start start_newPool) h

/-- Another job is purged, which marks a run that it had no part in. -/
theorem exists_newest_current : ∃ s, (machine oneMatch).ReachableBy (Timely oneMatch) s ∧
    s.fit = some ⟨.sweep, .unchanged {1, 0} [wonBoth] (some 2)⟩ ∧
    (∃ run, s.runs.head? = some run ∧ run.evidence = buildMatrix oneMatch {1, 0} [wonBoth]) ∧
    {1, 0} ⊆ s.members ∧ [wonBoth] <+: s.results := by
  have hrun : ∃ t, (machine oneMatch).follow (Timely oneMatch) newPool
      ([.addMember 1, .createJob 7, .createJob 9, .accept wonBoth] ++ fitted .recompute ++
        .purge 9 :: fitted .sweep) = some t ∧
      t.fit = some ⟨.sweep, .unchanged {1, 0} [wonBoth] (some 2)⟩ := ⟨_, rfl, rfl⟩
  obtain ⟨t, ht, hfit⟩ := hrun
  exact ⟨t, follow_newPool ht, hfit, newest_current (follow_newPool ht) hfit⟩

/-- The job is purged, and played again to as many pairs, before a sweep comes. -/
theorem not_newest_current : ¬ ∀ (s : State ℕ) (kind : Kind ℕ) (members : Finset ℕ)
    (results : List Result) (evidenceGames : Option ℕ), (machine oneMatch).Reachable s →
      s.fit = some ⟨kind, .unchanged members results evidenceGames⟩ →
      s.members = members → s.results = results →
      ∃ run, s.runs.head? = some run ∧ run.evidence = buildMatrix oneMatch members results := by
  intro hcurrent
  have hrun : ∃ t, (machine oneMatch).follow (fun _ _ ↦ True) newPool
      ([.addMember 1, .createJob 7, .accept wonBoth] ++ fitted .recompute ++
        [.purge 7, .accept lostBoth] ++ fitted .sweep) = some t ∧
      t.fit = some ⟨.sweep, .unchanged {1, 0} [lostBoth] (some 2)⟩ ∧
      t.members = {1, 0} ∧ t.results = [lostBoth] ∧
      t.runs.head?.map (·.evidence) = some (buildMatrix oneMatch {1, 0} [wonBoth]) :=
    ⟨_, rfl, rfl, rfl, rfl, rfl⟩
  obtain ⟨t, ht, hfit, hmembers, hresults, hevidence⟩ := hrun
  obtain ⟨run, hrun, hcurrent⟩ := hcurrent t _ _ _ _ (follow_newPool ht) hfit hmembers hresults
  rw [hrun, Option.map_some, Option.some.injEq, hcurrent] at hevidence
  have hscore := congrArg (fun e ↦ (e.matrix 0 1).score) hevidence
  revert hscore
  decide

end Sample

end Birdtest.Ratings
