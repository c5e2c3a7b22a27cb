import Birdtest.Base.Sql
import Mathlib.Algebra.Order.Ring.Int
import Mathlib.Data.List.Chain

namespace Birdtest.Admin.Solvers

open Birdtest.Base

structure CreatePlayerConfigBody where
  endgamePlies : Option ℤ
  pegMaxBag : Option ℤ
  pegStageTopK : Option (List ℤ)
  pegScenarioStride : Option ℤ
  pegOppModel : Option String
  pegNested : Option Bool
  pegNestedCandCaps : Option (List ℤ)
  pegNestedMaxDepth : Option ℤ
  pegNestedStrides : Option (List ℤ)
  deriving DecidableEq

structure SolverSettings where
  endgamePlies : ℤ
  pegMaxBag : ℤ
  pegStageTopK : Option (List ℤ) := none
  pegScenarioStride : Option ℤ := none
  pegOppModel : Option String := none
  pegNested : Option Bool := none
  pegNestedCandCaps : Option (List ℤ) := none
  pegNestedMaxDepth : Option ℤ := none
  pegNestedStrides : Option (List ℤ) := none
  deriving DecidableEq

section Defaults

def magpieMaxEndgamePlies : ℤ := 25
def magpiePegMaxBag : ℤ := 4
def magpieMaxPegStages : ℕ := 16

def defaultPegStageTopK : List ℤ := [32, 16, 8, 4, 2]
def defaultPegScenarioStride : ℤ := 1
def defaultPegOppModel : String := "rational"
def defaultPegNested : Bool := true
def defaultPegNestedCandCaps : List ℤ := [8, 4, 2]
def defaultPegNestedMaxDepth : ℤ := 1
def defaultPegNestedStrides : List ℤ := [1, 1, 5, 7]

end Defaults

section Resolve

abbrev Fields : Type := List (String × String)

def refuse (condition : Prop) [Decidable condition] (field message : String) : Fields :=
  if condition then [(field, message)] else []

def refuseStated (stated : List (String × Bool)) (message : String) : Fields :=
  (stated.filter (·.2)).map fun (field, _) ↦ (field, message)

def answer (fields : Fields) (settings : SolverSettings) : Except Fields SolverSettings :=
  if fields = [] then .ok settings else .error fields

variable (body : CreatePlayerConfigBody)

def pegStated : List (String × Bool) :=
  [("peg_stage_top_k", body.pegStageTopK.isSome),
    ("peg_scenario_stride", body.pegScenarioStride.isSome),
    ("peg_opp_model", body.pegOppModel.isSome),
    ("peg_nested", body.pegNested.isSome),
    ("peg_nested_cand_caps", body.pegNestedCandCaps.isSome),
    ("peg_nested_max_depth", body.pegNestedMaxDepth.isSome),
    ("peg_nested_strides", body.pegNestedStrides.isSome)]

def switchFields (plies maxBag : ℤ) : Fields :=
  refuse (¬(0 ≤ plies ∧ plies ≤ magpieMaxEndgamePlies)) "endgame_plies"
    s!"must be between 0 (off) and {magpieMaxEndgamePlies}" ++
  if ¬(0 ≤ maxBag ∧ maxBag ≤ magpiePegMaxBag) then
    [("peg_max_bag", s!"must be between 0 (off) and {magpiePegMaxBag}")]
  else
    refuse (0 < maxBag ∧ plies = 0) "peg_max_bag"
      "the pre-endgame needs endgame solving: set an endgame depth (endgame_plies) as well"

def scheduleFields (topK : List ℤ) (stride : ℤ) (oppModel : String) : Fields :=
  (if topK = [] ∨ magpieMaxPegStages < topK.length then
    [("peg_stage_top_k", s!"needs 1 to {magpieMaxPegStages} stages")]
  else
    refuse (topK.any (· < 2) ∨ (topK.zip topK.tail).any fun w ↦ w.1 < w.2) "peg_stage_top_k"
      "each stage keeps at least 2 plays, and no more than the stage before it") ++
  refuse (stride < 1) "peg_scenario_stride" "must be at least 1 (1 is full enumeration)" ++
  refuse (oppModel ∉ ["rational", "pessimistic"]) "peg_opp_model"
    "must be 'rational' or 'pessimistic'"

def nestedFields (caps : List ℤ) (depth : ℤ) (strides : List ℤ) : Fields :=
  refuse (caps = [] ∨ magpieMaxPegStages < caps.length ∨ caps.any (· < 1)) "peg_nested_cand_caps"
    s!"needs 1 to {magpieMaxPegStages} caps, each at least 1" ++
  refuse (¬(1 ≤ depth ∧ depth ≤ magpiePegMaxBag)) "peg_nested_max_depth"
    s!"must be between 1 and {magpiePegMaxBag}" ++
  refuse ((strides.length : ℤ) ≠ magpiePegMaxBag ∨ strides.any (· < 1)) "peg_nested_strides"
    s!"needs one stride per inner bag size 1 to {magpiePegMaxBag}, each at least 1"

def resolveSolverSettings : Except Fields SolverSettings :=
  let plies := body.endgamePlies.getD 0
  let maxBag := body.pegMaxBag.getD 0
  let fields := switchFields plies maxBag
  if maxBag ≤ 0 then
    answer
      (fields ++ refuseStated (pegStated body)
        "is a pre-endgame setting: set peg_max_bag above 0 to run the pre-endgame, or leave it out")
      { endgamePlies := plies, pegMaxBag := 0 }
  else
    let topK := body.pegStageTopK.getD defaultPegStageTopK
    let stride := body.pegScenarioStride.getD defaultPegScenarioStride
    let oppModel := body.pegOppModel.getD defaultPegOppModel
    let nested := body.pegNested.getD defaultPegNested
    let fields := fields ++ scheduleFields topK stride oppModel
    let settings : SolverSettings :=
      { endgamePlies := plies
        pegMaxBag := maxBag
        pegStageTopK := some topK
        pegScenarioStride := some stride
        pegOppModel := some oppModel
        pegNested := some nested }
    if ¬nested then
      answer
        (fields ++ refuseStated ((pegStated body).drop 4)
          "is a nested-lookahead setting: set peg_nested to true, or leave it out")
        settings
    else
      let caps := body.pegNestedCandCaps.getD defaultPegNestedCandCaps
      let depth := body.pegNestedMaxDepth.getD defaultPegNestedMaxDepth
      let strides := body.pegNestedStrides.getD defaultPegNestedStrides
      answer (fields ++ nestedFields caps depth strides)
        { settings with
          pegNestedCandCaps := some caps
          pegNestedMaxDepth := some depth
          pegNestedStrides := some strides }

end Resolve

section Constraint

def isZero (a : ℤ) : Sql.Truth := Sql.compare (fun a b : ℤ ↦ decide (a = b)) (some a) (some 0)

def isPositive (a : ℤ) : Sql.Truth := Sql.compare (fun a b : ℤ ↦ decide (b < a)) (some a) (some 0)

def same : Sql.Truth → Sql.Truth → Sql.Truth := Sql.compare fun a b : Bool ↦ decide (a = b)

def solverSettingsCheck (row : SolverSettings) : Sql.Truth :=
  Sql.and (Sql.between (some row.endgamePlies) (some 0) (some 25)) <|
  Sql.and (Sql.between (some row.pegMaxBag) (some 0) (some 4)) <|
  Sql.and (Sql.or (isPositive row.endgamePlies) (isZero row.pegMaxBag)) <|
  Sql.and
    (Sql.or
      (Sql.and (isZero row.pegMaxBag) <|
        Sql.and (Sql.isNull row.pegStageTopK) <|
        Sql.and (Sql.isNull row.pegScenarioStride) <|
        Sql.and (Sql.isNull row.pegOppModel) (Sql.isNull row.pegNested))
      (Sql.and (isPositive row.pegMaxBag) <|
        Sql.and (Sql.isNotNull row.pegStageTopK) <|
        Sql.and (Sql.isNotNull row.pegScenarioStride) <|
        Sql.and (Sql.isIn row.pegOppModel ["rational", "pessimistic"])
          (Sql.isNotNull row.pegNested))) <|
  Sql.and (same (Sql.isTrue row.pegNested) (Sql.isNotNull row.pegNestedCandCaps)) <|
  Sql.and (same (Sql.isTrue row.pegNested) (Sql.isNotNull row.pegNestedMaxDepth))
    (same (Sql.isTrue row.pegNested) (Sql.isNotNull row.pegNestedStrides))

end Constraint

section Rules

variable (body : CreatePlayerConfigBody)

def Unnested : Prop :=
  body.pegNestedCandCaps = none ∧ body.pegNestedMaxDepth = none ∧ body.pegNestedStrides = none

def Unstated : Prop :=
  body.pegStageTopK = none ∧ body.pegScenarioStride = none ∧ body.pegOppModel = none ∧
    body.pegNested = none ∧ Unnested body

/-- One to sixteen stages of at least two plays, none of more than the stage before it. -/
def Schedule (topK : List ℤ) : Prop :=
  1 ≤ topK.length ∧ topK.length ≤ 16 ∧ topK.Pairwise (· ≥ ·) ∧ ∀ k ∈ topK, 2 ≤ k

def Caps (caps : List ℤ) : Prop := 1 ≤ caps.length ∧ caps.length ≤ 16 ∧ ∀ cap ∈ caps, 1 ≤ cap

def Strides (strides : List ℤ) : Prop := strides.length = 4 ∧ ∀ stride ∈ strides, 1 ≤ stride

/-- How a body's settings nest: a setting is read with its default, and none that nothing reads may
be stated. -/
structure Follows : Prop where
  endgame : 0 ≤ body.endgamePlies.getD 0 ∧ body.endgamePlies.getD 0 ≤ 25
  bag : 0 ≤ body.pegMaxBag.getD 0 ∧ body.pegMaxBag.getD 0 ≤ 4
  solved : 0 < body.pegMaxBag.getD 0 → 0 < body.endgamePlies.getD 0
  bagless : ¬0 < body.pegMaxBag.getD 0 → Unstated body
  schedule : 0 < body.pegMaxBag.getD 0 → Schedule (body.pegStageTopK.getD [32, 16, 8, 4, 2])
  stride : 0 < body.pegMaxBag.getD 0 → 1 ≤ body.pegScenarioStride.getD 1
  oppModel : 0 < body.pegMaxBag.getD 0 →
    body.pegOppModel.getD "rational" = "rational" ∨ body.pegOppModel.getD "rational" = "pessimistic"
  flat : 0 < body.pegMaxBag.getD 0 → body.pegNested.getD true = false → Unnested body
  nested : 0 < body.pegMaxBag.getD 0 → body.pegNested.getD true = true →
    Caps (body.pegNestedCandCaps.getD [8, 4, 2]) ∧
    (1 ≤ body.pegNestedMaxDepth.getD 1 ∧ body.pegNestedMaxDepth.getD 1 ≤ 4) ∧
    Strides (body.pegNestedStrides.getD [1, 1, 5, 7])

def rowOf : SolverSettings :=
  let solves : Bool := decide (0 < body.pegMaxBag.getD 0)
  let nests : Bool := solves && body.pegNested.getD true
  { endgamePlies := body.endgamePlies.getD 0
    pegMaxBag := body.pegMaxBag.getD 0
    pegStageTopK := if solves then some (body.pegStageTopK.getD [32, 16, 8, 4, 2]) else none
    pegScenarioStride := if solves then some (body.pegScenarioStride.getD 1) else none
    pegOppModel := if solves then some (body.pegOppModel.getD "rational") else none
    pegNested := if solves then some (body.pegNested.getD true) else none
    pegNestedCandCaps := if nests then some (body.pegNestedCandCaps.getD [8, 4, 2]) else none
    pegNestedMaxDepth := if nests then some (body.pegNestedMaxDepth.getD 1) else none
    pegNestedStrides := if nests then some (body.pegNestedStrides.getD [1, 1, 5, 7]) else none }

end Rules

section Names

def settingNames : List String :=
  ["endgame_plies", "peg_max_bag", "peg_stage_top_k", "peg_scenario_stride", "peg_opp_model",
    "peg_nested", "peg_nested_cand_caps", "peg_nested_max_depth", "peg_nested_strides"]

def Named (fields : Fields) : Prop := ∀ refusal ∈ fields, refusal.1 ∈ settingNames

variable {field message : String} {fields fields' : Fields}

theorem Named.append (h : Named fields) (h' : Named fields') : Named (fields ++ fields') := by
  intro refusal hmem
  obtain hmem | hmem := List.mem_append.1 hmem
  · exact h refusal hmem
  · exact h' refusal hmem

theorem named_singleton (h : field ∈ settingNames) : Named [(field, message)] := by
  rintro refusal hmem
  obtain rfl := List.mem_singleton.1 hmem
  exact h

theorem named_refuse {condition : Prop} [Decidable condition] (h : field ∈ settingNames) :
    Named (refuse condition field message) := by
  rw [refuse]
  split_ifs
  · exact named_singleton h
  · nofun

theorem named_refuseStated {stated : List (String × Bool)}
    (h : ∀ setting ∈ stated, setting.1 ∈ settingNames) : Named (refuseStated stated message) := by
  intro refusal hmem
  obtain ⟨setting, hsetting, rfl⟩ := List.mem_map.1 hmem
  exact h setting (List.mem_of_mem_filter hsetting)

theorem named_switchFields (plies maxBag : ℤ) : Named (switchFields plies maxBag) := by
  refine Named.append ?_ ?_
  · exact named_refuse (by decide)
  split_ifs
  · exact named_refuse (by decide)
  · exact named_singleton (by decide)

theorem named_scheduleFields (topK : List ℤ) (stride : ℤ) (oppModel : String) :
    Named (scheduleFields topK stride oppModel) := by
  refine Named.append (Named.append ?_ ?_) ?_
  rotate_left
  · exact named_refuse (by decide)
  · exact named_refuse (by decide)
  split_ifs
  · exact named_singleton (by decide)
  · exact named_refuse (by decide)

theorem named_nestedFields (caps : List ℤ) (depth : ℤ) (strides : List ℤ) :
    Named (nestedFields caps depth strides) := by
  refine Named.append (Named.append ?_ ?_) ?_
  · exact named_refuse (by decide)
  · exact named_refuse (by decide)
  · exact named_refuse (by decide)

theorem answer_eq_error {row : SolverSettings} (h : answer fields row = .error fields') :
    fields' = fields ∧ fields ≠ [] := by
  rw [answer] at h
  split_ifs at h with hnil
  cases h
  exact ⟨rfl, hnil⟩

theorem named_of_resolveSolverSettings {body : CreatePlayerConfigBody}
    (h : resolveSolverSettings body = .error fields) : Named fields ∧ fields ≠ [] := by
  have hstated : ∀ setting ∈ pegStated body, setting.1 ∈ settingNames := by
    simp [pegStated, settingNames]
  rw [resolveSolverSettings] at h
  dsimp only at h
  split_ifs at h
  · obtain ⟨rfl, hne⟩ := answer_eq_error h
    exact ⟨(named_switchFields _ _).append (named_refuseStated hstated), hne⟩
  · obtain ⟨rfl, hne⟩ := answer_eq_error h
    exact ⟨((named_switchFields _ _).append (named_scheduleFields _ _ _)).append
      (named_nestedFields _ _ _), hne⟩
  · obtain ⟨rfl, hne⟩ := answer_eq_error h
    refine ⟨((named_switchFields _ _).append (named_scheduleFields _ _ _)).append ?_, hne⟩
    exact named_refuseStated fun setting hmem ↦ hstated setting (List.mem_of_mem_drop hmem)

end Names

section Exactness

variable {body : CreatePlayerConfigBody} {condition : Prop} [Decidable condition]
  {field message : String} {plies maxBag stride depth : ℤ} {topK caps strides : List ℤ}
  {oppModel : String}

theorem refuse_eq_nil : refuse condition field message = [] ↔ ¬condition := by
  by_cases h : condition <;> simp [refuse, h]

theorem refuseStated_eq_nil {stated : List (String × Bool)} :
    refuseStated stated message = [] ↔ ∀ setting ∈ stated, setting.2 = false := by
  simp [refuseStated]

theorem switchFields_eq_nil : switchFields plies maxBag = [] ↔
    (0 ≤ plies ∧ plies ≤ 25) ∧ (0 ≤ maxBag ∧ maxBag ≤ 4) ∧ (0 < maxBag → 0 < plies) := by
  rw [switchFields, List.append_eq_nil_iff, refuse_eq_nil, not_not, magpieMaxEndgamePlies,
    magpiePegMaxBag]
  refine and_congr_right fun hplies ↦ ?_
  by_cases hbag : 0 ≤ maxBag ∧ maxBag ≤ 4
  · rw [if_neg (not_not.2 hbag), refuse_eq_nil]
    omega
  · rw [if_pos hbag]
    simp [hbag]

theorem any_zip_tail : (topK.zip topK.tail).any (fun w ↦ decide (w.1 < w.2)) = false ↔
    topK.Pairwise (· ≥ ·) := by
  rw [← List.isChain_iff_pairwise]
  induction topK with
  | nil => simp
  | cons k topK ih =>
    cases topK with
    | nil => simp
    | cons k' topK =>
      rw [List.isChain_cons_cons, ← ih]
      simp

theorem any_lt_eq_false (least : ℤ) (l : List ℤ) :
    l.any (fun k ↦ decide (k < least)) = false ↔ ∀ k ∈ l, least ≤ k := by
  simp

theorem scheduleFields_eq_nil : scheduleFields topK stride oppModel = [] ↔
    Schedule topK ∧ 1 ≤ stride ∧ (oppModel = "rational" ∨ oppModel = "pessimistic") := by
  have htopK : (if topK = [] ∨ magpieMaxPegStages < topK.length then
      [("peg_stage_top_k", s!"needs 1 to {magpieMaxPegStages} stages")]
    else
      refuse (topK.any (· < 2) ∨ (topK.zip topK.tail).any fun w ↦ w.1 < w.2) "peg_stage_top_k"
        "each stage keeps at least 2 plays, and no more than the stage before it") = [] ↔
      Schedule topK := by
    by_cases hlength : topK = [] ∨ magpieMaxPegStages < topK.length
    · rw [if_pos hlength]
      refine ⟨nofun, fun ⟨hpos, hle, _⟩ ↦ ?_⟩
      rw [magpieMaxPegStages, ← List.length_eq_zero_iff] at hlength
      omega
    · rw [if_neg hlength, refuse_eq_nil, not_or, Bool.not_eq_true, Bool.not_eq_true,
        any_lt_eq_false, any_zip_tail, and_comm]
      rw [magpieMaxPegStages, ← List.length_eq_zero_iff, not_or] at hlength
      exact ⟨fun h ↦ ⟨by omega, by omega, h⟩, fun h ↦ h.2.2⟩
  rw [scheduleFields, List.append_eq_nil_iff, List.append_eq_nil_iff, refuse_eq_nil, refuse_eq_nil,
    htopK, and_assoc, not_lt, not_not, List.mem_pair]

theorem nestedFields_eq_nil : nestedFields caps depth strides = [] ↔
    Caps caps ∧ (1 ≤ depth ∧ depth ≤ 4) ∧ Strides strides := by
  have hcaps : ¬(caps = [] ∨ magpieMaxPegStages < caps.length ∨ caps.any (· < 1)) ↔ Caps caps := by
    rw [not_or, not_or, Bool.not_eq_true, any_lt_eq_false, magpieMaxPegStages,
      ← List.length_eq_zero_iff, Caps, not_lt, Nat.one_le_iff_ne_zero]
  have hstrides : ¬((strides.length : ℤ) ≠ magpiePegMaxBag ∨ strides.any (· < 1)) ↔
      Strides strides := by
    rw [not_or, not_not, Bool.not_eq_true, any_lt_eq_false, magpiePegMaxBag, Strides]
    exact and_congr_left' (by omega)
  rw [nestedFields, List.append_eq_nil_iff, List.append_eq_nil_iff, refuse_eq_nil, refuse_eq_nil,
    refuse_eq_nil, hcaps, hstrides, not_not, and_assoc, magpiePegMaxBag]

theorem answer_eq_ok {fields : Fields} {row settings : SolverSettings} :
    answer fields row = .ok settings ↔ fields = [] ∧ settings = row := by
  rw [answer]
  split_ifs with h
  · rw [Except.ok.injEq, eq_comm]
    exact ⟨fun heq ↦ ⟨h, heq⟩, And.right⟩
  · exact ⟨nofun, fun heq ↦ absurd heq.1 h⟩

theorem unstated_iff : (∀ setting ∈ pegStated body, setting.2 = false) ↔ Unstated body := by
  simp [pegStated, Unstated, Unnested]

theorem unnested_iff : (∀ setting ∈ (pegStated body).drop 4, setting.2 = false) ↔
    Unnested body := by
  simp [pegStated, Unnested]

theorem follows_bagless (h : body.pegMaxBag.getD 0 ≤ 0) : Follows body ↔
    ((0 ≤ body.endgamePlies.getD 0 ∧ body.endgamePlies.getD 0 ≤ 25) ∧
      (0 ≤ body.pegMaxBag.getD 0 ∧ body.pegMaxBag.getD 0 ≤ 4) ∧
      (0 < body.pegMaxBag.getD 0 → 0 < body.endgamePlies.getD 0)) ∧ Unstated body := by
  have hbag := not_lt.2 h
  refine ⟨fun hf ↦ ⟨⟨hf.endgame, hf.bag, hf.solved⟩, hf.bagless hbag⟩, fun hf ↦ ?_⟩
  exact {
    endgame := hf.1.1
    bag := hf.1.2.1
    solved := hf.1.2.2
    bagless := fun _ ↦ hf.2
    schedule := fun h ↦ absurd h hbag
    stride := fun h ↦ absurd h hbag
    oppModel := fun h ↦ absurd h hbag
    flat := fun h ↦ absurd h hbag
    nested := fun h ↦ absurd h hbag }

def Solves (body : CreatePlayerConfigBody) : Prop :=
  ((0 ≤ body.endgamePlies.getD 0 ∧ body.endgamePlies.getD 0 ≤ 25) ∧
    (0 ≤ body.pegMaxBag.getD 0 ∧ body.pegMaxBag.getD 0 ≤ 4) ∧
    (0 < body.pegMaxBag.getD 0 → 0 < body.endgamePlies.getD 0)) ∧
  Schedule (body.pegStageTopK.getD [32, 16, 8, 4, 2]) ∧ 1 ≤ body.pegScenarioStride.getD 1 ∧
  (body.pegOppModel.getD "rational" = "rational" ∨ body.pegOppModel.getD "rational" = "pessimistic")

theorem follows_flat (h : 0 < body.pegMaxBag.getD 0) (hflat : body.pegNested.getD true = false) :
    Follows body ↔ Solves body ∧ Unnested body := by
  refine ⟨fun hf ↦ ⟨⟨⟨hf.endgame, hf.bag, hf.solved⟩, hf.schedule h, hf.stride h, hf.oppModel h⟩,
    hf.flat h hflat⟩, fun ⟨hf, hflat'⟩ ↦ ?_⟩
  exact {
    endgame := hf.1.1
    bag := hf.1.2.1
    solved := hf.1.2.2
    bagless := fun hbag ↦ absurd h hbag
    schedule := fun _ ↦ hf.2.1
    stride := fun _ ↦ hf.2.2.1
    oppModel := fun _ ↦ hf.2.2.2
    flat := fun _ _ ↦ hflat'
    nested := fun _ hnested ↦ absurd (hflat.symm.trans hnested) Bool.false_ne_true }

theorem follows_nested (h : 0 < body.pegMaxBag.getD 0) (hnested : body.pegNested.getD true = true) :
    Follows body ↔ Solves body ∧ Caps (body.pegNestedCandCaps.getD [8, 4, 2]) ∧
      (1 ≤ body.pegNestedMaxDepth.getD 1 ∧ body.pegNestedMaxDepth.getD 1 ≤ 4) ∧
      Strides (body.pegNestedStrides.getD [1, 1, 5, 7]) := by
  refine ⟨fun hf ↦ ⟨⟨⟨hf.endgame, hf.bag, hf.solved⟩, hf.schedule h, hf.stride h, hf.oppModel h⟩,
    hf.nested h hnested⟩, fun ⟨hf, hnested'⟩ ↦ ?_⟩
  exact {
    endgame := hf.1.1
    bag := hf.1.2.1
    solved := hf.1.2.2
    bagless := fun hbag ↦ absurd h hbag
    schedule := fun _ ↦ hf.2.1
    stride := fun _ ↦ hf.2.2.1
    oppModel := fun _ ↦ hf.2.2.2
    flat := fun _ hflat ↦ absurd (hflat.symm.trans hnested) Bool.false_ne_true
    nested := fun _ _ ↦ hnested' }

theorem resolveSolverSettings_eq_ok {settings : SolverSettings} :
    resolveSolverSettings body = .ok settings ↔ Follows body ∧ settings = rowOf body := by
  rw [resolveSolverSettings]
  dsimp only
  by_cases hbag : body.pegMaxBag.getD 0 ≤ 0
  · rw [if_pos hbag, answer_eq_ok, List.append_eq_nil_iff, switchFields_eq_nil,
      refuseStated_eq_nil, unstated_iff, follows_bagless hbag]
    refine and_congr_right fun hf ↦ ?_
    have hzero : body.pegMaxBag.getD 0 = 0 := le_antisymm hbag hf.1.2.1.1
    simp [rowOf, hzero]
  rw [if_neg hbag]
  rw [not_le] at hbag
  cases hnested : body.pegNested.getD defaultPegNested with
  | false =>
    rw [if_pos Bool.false_ne_true, answer_eq_ok, List.append_eq_nil_iff, List.append_eq_nil_iff,
      switchFields_eq_nil, scheduleFields_eq_nil, refuseStated_eq_nil, unnested_iff,
      follows_flat hbag hnested]
    refine and_congr_right fun hf ↦ ?_
    rw [defaultPegNested] at hnested
    simp [rowOf, hbag, hnested, defaultPegStageTopK, defaultPegScenarioStride, defaultPegOppModel]
  | true =>
    rw [if_neg (not_not.2 rfl), answer_eq_ok, List.append_eq_nil_iff, List.append_eq_nil_iff,
      switchFields_eq_nil, scheduleFields_eq_nil, nestedFields_eq_nil, follows_nested hbag hnested]
    refine and_congr_right fun hf ↦ ?_
    rw [defaultPegNested] at hnested
    simp [rowOf, hbag, hnested, defaultPegStageTopK, defaultPegScenarioStride, defaultPegOppModel,
      defaultPegNestedCandCaps, defaultPegNestedMaxDepth, defaultPegNestedStrides]

theorem check_isIn {model : Option String} :
    Sql.check (Sql.compare (fun a (values : List String) ↦ decide (a ∈ values)) model
      (some ["rational", "pessimistic"])) ↔
    ∀ m ∈ model, m = "rational" ∨ m = "pessimistic" := by
  cases model with
  | none => simp [Sql.check, Sql.compare]
  | some model => simp [Sql.check_compare]

theorem check_same {nested : Option Bool} {α : Type} {setting : Option α} :
    Sql.check (same (Sql.isTrue nested) (Sql.isNotNull setting)) ↔
      (nested = some true ↔ setting.isSome) := by
  rw [same, Sql.isTrue, Sql.isNotNull, Sql.check_compare, decide_eq_true_eq, Bool.eq_iff_iff,
    decide_eq_true_eq]

/-- Just the rows of which the constraint is not false. Where a pre-endgame runs, no model at all
makes it unknown, and passes. -/
theorem check_solverSettingsCheck {row : SolverSettings} : Sql.check (solverSettingsCheck row) ↔
    (0 ≤ row.endgamePlies ∧ row.endgamePlies ≤ 25) ∧ (0 ≤ row.pegMaxBag ∧ row.pegMaxBag ≤ 4) ∧
    (0 < row.endgamePlies ∨ row.pegMaxBag = 0) ∧
    ((row.pegMaxBag = 0 ∧ row.pegStageTopK = none ∧ row.pegScenarioStride = none ∧
        row.pegOppModel = none ∧ row.pegNested = none) ∨
      (0 < row.pegMaxBag ∧ row.pegStageTopK.isSome ∧ row.pegScenarioStride.isSome ∧
        (∀ model ∈ row.pegOppModel, model = "rational" ∨ model = "pessimistic") ∧
        row.pegNested.isSome)) ∧
    (row.pegNested = some true ↔ row.pegNestedCandCaps.isSome) ∧
    (row.pegNested = some true ↔ row.pegNestedMaxDepth.isSome) ∧
    (row.pegNested = some true ↔ row.pegNestedStrides.isSome) := by
  simp only [solverSettingsCheck, Sql.between, Sql.isIn, isPositive, isZero, Sql.check_and,
    Sql.check_or, Sql.check_isNull, Sql.check_isNotNull, Sql.check_compare, decide_eq_true_eq,
    check_same, check_isIn]

theorem check_rowOf (h : Follows body) : Sql.check (solverSettingsCheck (rowOf body)) := by
  rw [check_solverSettingsCheck]
  refine ⟨h.endgame, h.bag, ?_⟩
  obtain hbag | hbag := lt_or_ge 0 (body.pegMaxBag.getD 0)
  · have hsolved := h.solved hbag
    have hmodel := h.oppModel hbag
    cases hnested : body.pegNested.getD true <;> simp [rowOf, hbag, hsolved, hmodel, hnested]
  · have hzero : body.pegMaxBag.getD 0 = 0 := le_antisymm hbag h.bag.1
    simp [rowOf, hzero]

/-- A body is resolved where it follows the rules and not otherwise, to the row of what it states
and the defaults, which the table takes. -/
theorem resolve_solver_settings_exact (body : CreatePlayerConfigBody) :
    ((∃ settings, resolveSolverSettings body = .ok settings) ↔ Follows body) ∧
    ∀ settings, resolveSolverSettings body = .ok settings →
      settings = rowOf body ∧ Sql.check (solverSettingsCheck settings) := by
  refine ⟨⟨?_, fun h ↦ ⟨rowOf body, resolveSolverSettings_eq_ok.2 ⟨h, rfl⟩⟩⟩, ?_⟩
  · rintro ⟨settings, h⟩
    exact (resolveSolverSettings_eq_ok.1 h).1
  · intro settings h
    obtain ⟨hf, rfl⟩ := resolveSolverSettings_eq_ok.1 h
    exact ⟨rfl, check_rowOf hf⟩

theorem resolve_solver_settings_exact_defaults :
    Sql.check (solverSettingsCheck
      ⟨4, 2, some [32, 16, 8, 4, 2], some 1, some "rational", some false, none, none, none⟩) :=
  ((resolve_solver_settings_exact ⟨some 4, some 2, none, none, none, some false, none,
    none, none⟩).2 _ rfl).2

end Exactness

end Birdtest.Admin.Solvers
