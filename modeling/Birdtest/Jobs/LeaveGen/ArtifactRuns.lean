import Birdtest.Jobs.LeaveGen.Artifacts

namespace Birdtest.Jobs.LeaveGen.Artifacts

open Birdtest.Base.Runs

variable {ι B ρ β δ : Type} {magpie : Magpie B ρ β} {digest : β → δ}
variable {s t : State ι B ρ β δ} {key : Key} {i : ι} {r : Runner B ρ β} {c : Check B β δ} {klv : β}

section Parties

def CheckStage.seen (digest : β → δ) : CheckStage β δ → Option δ
  | .compared _ object => object
  | .rewritten klv => some (digest klv)
  | .read | .rebuilt _ | .present _ => none

theorem CheckStage.seen_of_looked {stage : CheckStage β δ} (h : stage.looked = false) :
    stage.seen digest = none := by
  cases stage with
  | read | rebuilt | present => rfl
  | compared => exact Option.not_isSome_iff_eq_none.1 (Bool.eq_false_iff.1 h)
  | rewritten => cases h

/-- The runner holds what its builder makes of the rows it read, and its put is in the bucket until
it has closed its generation. -/
structure Runner.Sound (magpie : Magpie B ρ β) (digest : β → δ) (s : State ι B ρ β δ)
    (r : Runner B ρ β) : Prop where
  built : ∀ klv ∈ r.stage.klv, klvOf magpie r.builder r.key r.rows = some klv
  uploaded : ∀ klv ∈ r.stage.uploadedKlv, Holds digest s r.key (digest klv)

def Check.Sound (digest : β → δ) (s : State ι B ρ β δ) (c : Check B β δ) : Prop :=
  ∀ sha ∈ c.stage.seen digest, Holds digest s c.key sha

/-- The first hash of an artifact is that of the KLV its builder makes of the generation's rows. -/
def Recorded (magpie : Magpie B ρ β) (digest : β → δ) (s : State ι B ρ β δ) : Prop :=
  ∀ key row, s.artifacts key = some row →
    (klvOf magpie row.builder key (s.progress key)).map digest = some row.sha256

structure Steady (magpie : Magpie B ρ β) (digest : β → δ) (s : State ι B ρ β δ) : Prop where
  runners : ∀ i, ∀ r ∈ s.runners i, r.Sound magpie digest s
  checks : ∀ i, ∀ c ∈ s.checks i, c.Sound digest s
  recorded : Recorded magpie digest s

theorem Holds.congr {sha : δ} (h : Holds digest s key sha)
    (ho : t.objects key = s.objects key) : Holds digest t key sha := by
  rwa [Holds, ho]

theorem Runner.Sound.congr (h : r.Sound magpie digest s) (ho : t.objects r.key = s.objects r.key) :
    r.Sound magpie digest t :=
  ⟨h.built, fun klv hklv ↦ (h.uploaded klv hklv).congr ho⟩

theorem Check.Sound.congr (h : c.Sound digest s) (ho : t.objects c.key = s.objects c.key) :
    c.Sound digest t :=
  fun sha hsha ↦ (h sha hsha).congr ho

theorem klv_of_uploadedKlv {stage : Stage β} (h : stage.uploadedKlv = some klv) :
    stage.klv = some klv := by
  cases stage with
  | uploaded => exact h
  | started | built | failed => cases h

theorem Runner.sound_of_klv_eq_none (h : r.stage.klv = none) : r.Sound magpie digest s := by
  refine ⟨by rw [h]; nofun, fun klv hklv ↦ ?_⟩
  cases h.symm.trans (klv_of_uploadedKlv hklv)

theorem Check.sound_of_seen_eq_none (h : c.stage.seen digest = none) : c.Sound digest s := by
  rw [Check.Sound, h]
  nofun

theorem Steady.of_eq (h : Steady magpie digest s) (hr : t.runners = s.runners)
    (hc : t.checks = s.checks) (ha : t.artifacts = s.artifacts) (hp : t.progress = s.progress)
    (ho : t.objects = s.objects) : Steady magpie digest t := by
  refine ⟨fun i r hri ↦ ?_, fun i c hci ↦ ?_, fun key row hrow ↦ ?_⟩
  · rw [hr] at hri
    exact (h.runners i r hri).congr (by rw [ho])
  · rw [hc] at hci
    exact (h.checks i c hci).congr (by rw [ho])
  · rw [ha] at hrow
    rw [hp]
    exact h.recorded key row hrow

theorem Steady.transitions (h : Steady magpie digest s) (rows : Key → Option Transition.Row) :
    Steady magpie digest { s with transitions := rows } :=
  h.of_eq rfl rfl rfl rfl rfl

theorem Steady.of_recorded (h : Steady magpie digest s) (hr : t.runners = s.runners)
    (hc : t.checks = s.checks) (ho : t.objects = s.objects) (hrec : Recorded magpie digest t) :
    Steady magpie digest t := by
  refine ⟨fun i r hri ↦ ?_, fun i c hci ↦ ?_, hrec⟩
  · rw [hr] at hri
    exact (h.runners i r hri).congr (by rw [ho])
  · rw [hc] at hci
    exact (h.checks i c hci).congr (by rw [ho])

theorem Steady.putObject (h : Steady magpie digest s)
    (hr : ∀ j, ∀ r ∈ s.runners j, r.key = key → ∀ klv' ∈ r.stage.uploadedKlv, klv' = klv)
    (hc : Unwatched s none key) : Steady magpie digest (putObject s key klv) := by
  refine ⟨fun j r hj ↦ ?_, fun j c hj ↦ ?_, h.recorded⟩
  · by_cases hkey : r.key = key
    · refine ⟨(h.runners j r hj).built, fun klv' hklv ↦ ?_⟩
      rw [Holds, hkey, putObject_self, Option.map_some, hr j r hj hkey klv' hklv]
    · exact (h.runners j r hj).congr (putObject_of_ne hkey)
  · by_cases hkey : c.key = key
    · have hother : some j ≠ none := Option.some_ne_none j
      exact Check.sound_of_seen_eq_none (CheckStage.seen_of_looked (hc j hother c hj hkey))
    · exact (h.checks j c hj).congr (putObject_of_ne hkey)

variable [DecidableEq ι]

theorem Steady.setRunner {r' : Option (Runner B ρ β)} (h : Steady magpie digest s)
    (hr : ∀ r ∈ r', r.Sound magpie digest s) : Steady magpie digest (setRunner s i r') := by
  refine ⟨fun j r hj ↦ ?_, h.checks, h.recorded⟩
  rcases eq_or_ne j i with rfl | hne
  · rw [Option.mem_def, setRunner_self] at hj
    exact (hr r hj).congr rfl
  · rw [Option.mem_def, setRunner_of_ne hne] at hj
    exact (h.runners j r hj).congr rfl

theorem Steady.setCheck {c' : Option (Check B β δ)} (h : Steady magpie digest s)
    (hc : ∀ c ∈ c', c.Sound digest s) : Steady magpie digest (setCheck s i c') := by
  refine ⟨fun j r hj ↦ (h.runners j r hj).congr rfl, fun j c hj ↦ ?_, h.recorded⟩
  rcases eq_or_ne j i with rfl | hne
  · rw [Option.mem_def, setCheck_self] at hj
    exact hc c hj
  · rw [Option.mem_def, setCheck_of_ne hne] at hj
    exact h.checks j c hj

end Parties

section Steps

variable {row : Artifact B δ}

theorem Recorded.inserted {row : Artifact B δ} (h : Recorded magpie digest s)
    (hrow : (klvOf magpie row.builder key (s.progress key)).map digest = some row.sha256) :
    Recorded magpie digest (insertArtifact s key row) := by
  intro key' row' hrow'
  rcases eq_or_ne key' key with rfl | hkey
  · rw [insertArtifact, setArtifact_self, Option.some.injEq] at hrow'
    cases hold : s.artifacts key' with
    | none =>
      rw [hold, Option.getD_none] at hrow'
      exact hrow' ▸ hrow
    | some old =>
      rw [hold, Option.getD_some] at hrow'
      exact h key' row' (hrow' ▸ hold)
  · rw [insertArtifact, setArtifact_of_ne hkey] at hrow'
    exact h key' row' hrow'

theorem Steady.purge (h : Steady magpie digest s) (job : ℕ) :
    Steady magpie digest (purge s job) := by
  refine h.of_recorded rfl rfl rfl fun key row hrow ↦ ?_
  by_cases hjob : key.job = job
  · simp only [Artifacts.purge, if_pos hjob, reduceCtorEq] at hrow
  · simp only [Artifacts.purge, if_neg hjob] at hrow ⊢
    exact h.recorded key row hrow

theorem Steady.progress {rows : ρ} (h : Steady magpie digest s) (hkey : s.artifacts key = none) :
    Steady magpie digest { s with progress := Function.update s.progress key (some rows) } := by
  refine h.of_recorded rfl rfl rfl fun key' row hrow ↦ ?_
  have hne : key' ≠ key := by
    rintro rfl
    cases hkey.symm.trans hrow
  simp only [Function.update_of_ne hne]
  exact h.recorded key' row hrow

/-- A runner of the builder that closed the generation, on the rows it was closed with, puts what
the row states. -/
theorem served_of_current (h : Steady magpie digest s) (hr : s.runners i = some r)
    (hrow : s.artifacts r.key = some row) (hbuilder : row.builder = r.builder)
    (hserved : row.servedSha256 = none) (hcurrent : Current s r) {klv : β}
    (hklv : r.stage.builtKlv = some klv) : row.served = digest klv := by
  have hstage : r.stage.klv = some klv := by
    cases hs : r.stage <;> rw [hs] at hklv <;> first | exact hklv | cases hklv
  have hbuilt := (h.runners i r hr).built klv hstage
  have hrecorded := h.recorded r.key row hrow
  rw [hbuilder, hcurrent, hbuilt, Option.map_some, Option.some.injEq] at hrecorded
  rw [Artifact.served, hserved, Option.getD_none, hrecorded]

/-- What a check sets its row to is what it has seen the object to be. -/
theorem holds_of_serving [DecidableEq δ] (h : Steady magpie digest s) (hc : s.checks i = some c)
    {served : δ} (hserved : c.serving digest = some served) : Holds digest s c.key served := by
  refine h.checks i c hc served ?_
  unfold Check.serving at hserved
  split at hserved
  · next klv object hstage =>
    rw [hstage]
    rw [toServe] at hserved
    grind [CheckStage.seen]
  · next klv hstage => rw [hstage]; exact hserved
  all_goals cases hserved

variable [DecidableEq ι]

theorem Steady.build (h : Steady magpie digest s) (hs : build magpie s i r = some t) :
    Steady magpie digest t := by
  unfold Artifacts.build at hs
  split at hs
  · obtain ⟨klv, hklv, rfl⟩ := Option.map_eq_some_iff.1 hs
    refine h.setRunner fun r' hr' ↦ ?_
    cases hr'
    refine ⟨fun klv' hklv' ↦ ?_, nofun⟩
    cases hklv'
    exact hklv
  all_goals cases hs

theorem Steady.put (h : Steady magpie digest s) (hr : s.runners i = some r)
    (hruns : ∀ j, ∀ r' ∈ s.runners j, r'.key = r.key → r'.stage.uploadedKlv ≠ none →
      r'.builder = r.builder ∧ r'.rows = r.rows)
    (hchecks : Unwatched s none r.key) (hs : put s i r = some t) : Steady magpie digest t := by
  unfold Artifacts.put at hs
  split at hs <;> cases hs
  next klv hstage =>
  have hbuilt : klvOf magpie r.builder r.key r.rows = some klv :=
    (h.runners i r hr).built klv (by rw [hstage]; rfl)
  have hput : Steady magpie digest (Artifacts.putObject s r.key klv) := by
    refine h.putObject (fun j r' hj hkey klv' hklv ↦ ?_) hchecks
    obtain ⟨hbuilder, hrows⟩ := hruns j r' hj hkey (by rw [hklv]; nofun)
    have hbuilt' := (h.runners j r' hj).built klv' (klv_of_uploadedKlv hklv)
    rw [hbuilder, hkey, hrows, hbuilt, Option.some.injEq] at hbuilt'
    exact hbuilt'.symm
  refine hput.setRunner fun r' hr' ↦ ?_
  cases hr'
  refine ⟨fun klv' hklv ↦ ?_, fun klv' hklv ↦ ?_⟩ <;> cases hklv
  · exact hbuilt
  · rw [Holds, putObject_self, Option.map_some]

theorem Steady.close (h : Steady magpie digest s) (hr : s.runners i = some r)
    (hcurrent : Current s r) (hs : close digest s i r = some t) : Steady magpie digest t := by
  unfold Artifacts.close at hs
  split at hs
  · next klv hstage =>
    have hbuilt : klvOf magpie r.builder r.key (s.progress r.key) = some klv :=
      hcurrent ▸ (h.runners i r hr).built klv (by rw [hstage]; rfl)
    split at hs <;> cases hs
    · next u hu =>
      obtain ⟨hartifacts, hobjects, hchecks, hrunners, hprogress⟩ := record_cases hu
      have hrecorded :
          Recorded magpie digest (insertArtifact s r.key ⟨digest klv, r.builder, none⟩) :=
        h.recorded.inserted (by rw [hbuilt, Option.map_some])
      have hu : Steady magpie digest u := by
        refine h.of_recorded hrunners hchecks hobjects fun key row hrow ↦ ?_
        rw [hartifacts] at hrow
        rw [hprogress]
        exact hrecorded key row hrow
      exact hu.setRunner nofun
    · exact h.setRunner fun r' hr' ↦ by
        cases hr'
        exact Runner.sound_of_klv_eq_none rfl
  all_goals cases hs

theorem Steady.goOn {stage : CheckStage β δ} (h : Steady magpie digest s)
    (hstage : stage.seen digest = none) :
    Steady magpie digest (Artifacts.setCheck s i (some { c with stage })) :=
  h.setCheck fun c' hc' ↦ by
    cases hc'
    exact Check.sound_of_seen_eq_none hstage

theorem Steady.rebuild (h : Steady magpie digest s) (hs : rebuild magpie s i c = some t) :
    Steady magpie digest t := by
  unfold Artifacts.rebuild at hs
  split at hs
  · obtain ⟨klv, -, rfl⟩ := Option.map_eq_some_iff.1 hs
    exact h.goOn rfl
  all_goals cases hs

theorem Steady.head (h : Steady magpie digest s) (hs : head s i c = some t) :
    Steady magpie digest t := by
  unfold Artifacts.head at hs
  split at hs
  · cases hs
    refine h.goOn ?_
    split <;> rfl
  all_goals cases hs

theorem Steady.get (h : Steady magpie digest s) (hs : get digest s i c = some t) :
    Steady magpie digest t := by
  unfold Artifacts.get at hs
  split at hs
  · obtain ⟨object, hobject, rfl⟩ := Option.map_eq_some_iff.1 hs
    refine h.setCheck fun c' hc' ↦ ?_
    cases hc'
    intro sha hsha
    cases hsha
    rw [Holds, hobject, Option.map_some]
  all_goals cases hs

theorem setCheck_putObject (c₁ c₂ : Option (Check B β δ)) :
    Artifacts.setCheck (putObject (Artifacts.setCheck s i c₁) key klv) i c₂ =
      Artifacts.setCheck (putObject s key klv) i c₂ := by
  simp only [Artifacts.setCheck, Artifacts.putObject, Function.update_idem]

variable [DecidableEq δ]

theorem Steady.rewrite (h : Steady magpie digest s) (hruns : NoPut s c.key)
    (hchecks : Unwatched s (some i) c.key) (hs : rewrite digest s i c = some t) :
    Steady magpie digest t := by
  unfold Artifacts.rewrite at hs
  split at hs
  · next klv object hstage =>
    obtain ⟨-, hs⟩ := Option.ite_none_right_eq_some.1 hs
    cases hs
    have hgone : Steady magpie digest (Artifacts.setCheck s i none) := h.setCheck nofun
    have hput : Steady magpie digest
        (Artifacts.putObject (Artifacts.setCheck s i none) c.key klv) := by
      refine hgone.putObject (fun j r hj hkey klv' hklv ↦ ?_) fun j _ c' hj hkey ↦ ?_
      · cases (hruns j r hj hkey).symm.trans hklv
      · rcases eq_or_ne j i with rfl | hne
        · rw [Option.mem_def, setCheck_self] at hj
          cases hj
        · rw [Option.mem_def, setCheck_of_ne hne] at hj
          exact hchecks j (by simpa using hne) c' hj hkey
    rw [← setCheck_putObject none]
    refine hput.setCheck fun c' hc' ↦ ?_
    cases hc'
    intro sha hsha
    cases hsha
    rw [Holds, putObject_self, Option.map_some]
  all_goals cases hs

theorem Steady.serve (h : Steady magpie digest s) (hs : serve digest s i c = some t) :
    Steady magpie digest t := by
  obtain ⟨served, -, rfl⟩ := Option.map_eq_some_iff.1 hs
  have hupdated : Steady magpie digest
      (setArtifact s c.key ((s.artifacts c.key).map (c.update served))) := by
    refine h.of_recorded rfl rfl rfl fun key row hrow ↦ ?_
    rcases eq_or_ne key c.key with rfl | hkey
    · rw [setArtifact_self] at hrow
      obtain ⟨old, hold, rfl⟩ := Option.map_eq_some_iff.1 hrow
      rw [Check.update_builder, Check.update_sha256]
      exact h.recorded c.key old hold
    · rw [setArtifact_of_ne hkey] at hrow
      exact h.recorded key row hrow
  exact hupdated.setCheck nofun

end Steps

section Runs

variable [DecidableEq ι] [DecidableEq δ] {a : Action ι B ρ} {row : Artifact B δ}

theorem Steady.next (h : Steady magpie digest s) (hok : Timely s a)
    (hs : next magpie digest s a = some t) : Steady magpie digest t := by
  cases a with
  | tick | releaseOrphanedTransitions =>
    cases hs
    exact h.of_eq rfl rfl rfl rfl rfl
  | lose =>
    cases hs
    exact h.setRunner nofun
  | stop =>
    cases hs
    exact h.setCheck nofun
  | progress key rows =>
    obtain ⟨hnone, hs⟩ := Option.ite_none_right_eq_some.1 hs
    cases hs
    exact h.progress (Option.isNone_iff_eq_none.1 hnone)
  | purge =>
    cases hs
    exact h.purge _
  | seedZeroGeneration =>
    obtain ⟨-, hs⟩ := Option.ite_none_right_eq_some.1 hs
    cases hs
    exact h.setRunner fun r hr ↦ by
      cases hr
      exact Runner.sound_of_klv_eq_none rfl
  | claimTransition =>
    obtain ⟨-, hs⟩ := Option.ite_none_right_eq_some.1 hs
    obtain ⟨row, -, rfl⟩ := Option.map_eq_some_iff.1 hs
    refine Steady.setRunner (h.transitions _) fun r hr ↦ ?_
    cases hr
    exact Runner.sound_of_klv_eq_none rfl
  | check =>
    obtain ⟨-, hs⟩ := Option.ite_none_right_eq_some.1 hs
    obtain ⟨row, -, rfl⟩ := Option.map_eq_some_iff.1 hs
    refine h.setCheck fun c hc ↦ ?_
    cases hc
    exact Check.sound_of_seen_eq_none rfl
  | build =>
    obtain ⟨r, -, hs⟩ := Option.bind_eq_some_iff.1 hs
    exact h.build hs
  | put i =>
    obtain ⟨r, hr, hs⟩ := Option.bind_eq_some_iff.1 hs
    obtain ⟨-, hruns, hchecks⟩ := hok r hr
    exact h.put hr hruns hchecks hs
  | close i =>
    obtain ⟨r, hr, hs⟩ := Option.bind_eq_some_iff.1 hs
    exact h.close hr (hok r hr) hs
  | fail =>
    obtain ⟨r, -, rfl⟩ := Option.map_eq_some_iff.1 hs
    refine h.setRunner fun r' hr' ↦ ?_
    cases hr'
    exact Runner.sound_of_klv_eq_none rfl
  | handBack =>
    obtain ⟨r, -, hs⟩ := Option.bind_eq_some_iff.1 hs
    unfold handBack at hs
    split at hs <;> cases hs
    exact Steady.setRunner (h.transitions _) nofun
  | rebuild =>
    obtain ⟨c, -, hs⟩ := Option.bind_eq_some_iff.1 hs
    exact h.rebuild hs
  | head =>
    obtain ⟨c, -, hs⟩ := Option.bind_eq_some_iff.1 hs
    exact h.head hs
  | get =>
    obtain ⟨c, -, hs⟩ := Option.bind_eq_some_iff.1 hs
    exact h.get hs
  | rewrite i =>
    obtain ⟨c, hc, hs⟩ := Option.bind_eq_some_iff.1 hs
    obtain ⟨-, hruns, hchecks⟩ := hok c hc
    exact h.rewrite hruns hchecks hs
  | serve =>
    obtain ⟨c, -, hs⟩ := Option.bind_eq_some_iff.1 hs
    exact h.serve hs

theorem Accounted.next (h : Accounted digest s key) (hsteady : Steady magpie digest s)
    (hok : Timely s a) (hs : next magpie digest s a = some t) : Accounted digest t key := by
  cases a with
  | tick | releaseOrphanedTransitions | lose =>
    cases hs
    exact h.of_eq rfl rfl rfl
  | progress | seedZeroGeneration =>
    obtain ⟨-, hs⟩ := Option.ite_none_right_eq_some.1 hs
    cases hs
    exact h.of_eq rfl rfl rfl
  | claimTransition =>
    obtain ⟨-, hs⟩ := Option.ite_none_right_eq_some.1 hs
    obtain ⟨row, -, rfl⟩ := Option.map_eq_some_iff.1 hs
    exact h.of_eq rfl rfl rfl
  | purge =>
    cases hs
    exact h.purge _
  | check =>
    obtain ⟨hfree, hs⟩ := Option.ite_none_right_eq_some.1 hs
    obtain ⟨row, -, rfl⟩ := Option.map_eq_some_iff.1 hs
    refine h.set fun c hc ↦ ?_
    rw [hc] at hfree
    cases hfree
  | build =>
    obtain ⟨r, -, hs⟩ := Option.bind_eq_some_iff.1 hs
    unfold build at hs
    split at hs
    · obtain ⟨klv, -, rfl⟩ := Option.map_eq_some_iff.1 hs
      exact h.of_eq rfl rfl rfl
    all_goals cases hs
  | put i =>
    obtain ⟨r, hr, hs⟩ := Option.bind_eq_some_iff.1 hs
    refine h.put (fun klv hklv row hrow ↦ ?_) hs
    obtain ⟨hbuilder, hserved, hcurrent⟩ := (hok r hr).1 row hrow
    exact served_of_current hsteady hr hrow hbuilder hserved hcurrent hklv
  | close i =>
    obtain ⟨r, hr, hs⟩ := Option.bind_eq_some_iff.1 hs
    exact h.close (hsteady.runners i r hr).uploaded hs
  | fail =>
    obtain ⟨r, -, rfl⟩ := Option.map_eq_some_iff.1 hs
    exact h.of_eq rfl rfl rfl
  | handBack =>
    obtain ⟨r, -, hs⟩ := Option.bind_eq_some_iff.1 hs
    unfold handBack at hs
    split at hs <;> cases hs
    exact h.of_eq rfl rfl rfl
  | rebuild =>
    obtain ⟨c, hc, hs⟩ := Option.bind_eq_some_iff.1 hs
    exact h.rebuild hc hs
  | head =>
    obtain ⟨c, hc, hs⟩ := Option.bind_eq_some_iff.1 hs
    exact h.head hc hs
  | get =>
    obtain ⟨c, hc, hs⟩ := Option.bind_eq_some_iff.1 hs
    exact h.get hc hs
  | rewrite =>
    obtain ⟨c, hc, hs⟩ := Option.bind_eq_some_iff.1 hs
    exact h.rewrite hc (hok c hc).1 hs
  | serve =>
    obtain ⟨c, hc, hs⟩ := Option.bind_eq_some_iff.1 hs
    exact h.serve hc (fun served hserved ↦ holds_of_serving hsteady hc hserved) hs
  | stop =>
    cases hs
    exact h.stop hok

theorem accounted_of_reachableBy (h : (machine magpie digest).ReachableBy Timely s) (key : Key) :
    Accounted digest s key := by
  have hboth : Steady magpie digest s ∧ Accounted digest s key := by
    refine h.invariant (I := fun s ↦ Steady magpie digest s ∧ Accounted digest s key) ?_
      fun _ _ _ hi hok hs ↦ ⟨hi.1.next hok hs, hi.2.next hi.1 hok hs⟩
    rintro s ⟨-, hrows, hrunners, hchecks⟩
    refine ⟨⟨fun i r hr ↦ ?_, fun i c hc ↦ ?_, fun key row hrow ↦ ?_⟩, fun row hrow ↦ ?_⟩
    · cases (hrunners i).symm.trans hr
    · cases (hchecks i).symm.trans hc
    · cases (hrows key).symm.trans hrow
    · cases (hrows key).symm.trans hrow
  exact hboth.2

end Runs

section Sample

/-- Two runners and two checks at a time, and builders whose KLVs tell the rows they are of. -/
abbrev SampleState := State (Fin 2) ℕ ℕ ℕ ℕ

def sums : Magpie ℕ ℕ ℕ where
  rackequityKlv builder _ rows := builder + rows
  createZeroKlv builder _ := builder

def created : SampleState where
  now := 0
  progress _ := none
  transitions _ := none
  artifacts _ := none
  objects _ := none
  runners _ := none
  checks _ := none

theorem start_created : start created := ⟨fun _ ↦ rfl, fun _ ↦ rfl, fun _ ↦ rfl, fun _ ↦ rfl⟩

instance (s : SampleState) (r : Runner ℕ ℕ ℕ) : Decidable (Current s r) :=
  inferInstanceAs (Decidable (_ = _))

instance (s : SampleState) (key : Key) : Decidable (NoPut s key) :=
  inferInstanceAs (Decidable (∀ j, ∀ r ∈ s.runners j, r.key = key → r.stage.uploadedKlv = none))

instance (s : SampleState) (i : Option (Fin 2)) (key : Key) : Decidable (Unwatched s i key) :=
  inferInstanceAs (Decidable (∀ j, some j ≠ i → ∀ c ∈ s.checks j, c.key = key →
    c.stage.looked = false))

instance (s : SampleState) : Decidable (Idle s) :=
  inferInstanceAs (Decidable ((∀ i, ∀ r ∈ s.runners i, r.stage.uploadedKlv = none) ∧
    ∀ i, ∀ c ∈ s.checks i, c.stage.rewrittenKlv = none))

instance (s : SampleState) : (a : Action (Fin 2) ℕ ℕ) → Decidable (Timely s a)
  | .put i => inferInstanceAs (Decidable (∀ r ∈ s.runners i,
      (∀ row ∈ s.artifacts r.key, row.builder = r.builder ∧ row.servedSha256 = none ∧
        Current s r) ∧
      (∀ j, ∀ r' ∈ s.runners j, r'.key = r.key → r'.stage.uploadedKlv ≠ none →
        r'.builder = r.builder ∧ r'.rows = r.rows) ∧
      Unwatched s none r.key))
  | .close i => inferInstanceAs (Decidable (∀ r ∈ s.runners i, Current s r))
  | .rewrite i => inferInstanceAs (Decidable (∀ c ∈ s.checks i,
      (∀ row ∈ s.artifacts c.key, c.Read row) ∧ NoPut s c.key ∧ Unwatched s (some i) c.key))
  | .stop i => inferInstanceAs (Decidable (∀ c ∈ s.checks i, c.stage.rewrittenKlv = none))
  | .tick _ | .progress _ _ | .claimTransition _ _ _ _ | .seedZeroGeneration _ _ _ | .build _
  | .fail _ | .handBack _ | .lose _ | .releaseOrphanedTransitions | .purge _ | .check _ _ _ _
  | .rebuild _ | .head _ | .get _ | .serve _ => inferInstanceAs (Decidable True)

def taken (i : Fin 2) (rows : ℕ) : List (Action (Fin 2) ℕ ℕ) :=
  [.progress ⟨0, 1⟩ rows, .claimTransition i ⟨0, 1⟩ 0 1, .build i]

end Sample

end Birdtest.Jobs.LeaveGen.Artifacts
