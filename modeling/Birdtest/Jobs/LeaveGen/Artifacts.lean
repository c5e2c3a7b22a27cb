import Birdtest.Base.Tables
import Birdtest.Jobs.LeaveGen.Transition

namespace Birdtest.Jobs.LeaveGen.Artifacts

open Birdtest.Base.Runs Birdtest.Base.Tables
open Birdtest.Jobs.LeaveGen.Transition (Row upserted)

variable {ι B ρ β δ : Type}

/-- What `artifact_key` names an object by, and the primary key of the generation's rows. -/
structure Key where
  job : ℕ
  generation : ℕ
  deriving DecidableEq

/-- What MAGPIE makes: the KLV of a generation's `leave_rack_progress` rows, and the zeroed one of
a job's letter distribution, which the builder takes nothing else for. -/
structure Magpie (B ρ β : Type) where
  rackequityKlv : B → ℕ → ρ → β
  createZeroKlv : B → ℕ → β

structure Artifact (B δ : Type) where
  sha256 : δ
  builder : B
  servedSha256 : Option δ
  deriving DecidableEq

/-- `COALESCE(served_sha256, sha256)`, which workers check the object against. -/
def Artifact.served (row : Artifact B δ) : δ := row.servedSha256.getD row.sha256

inductive Stage (β : Type)
  | started
  | built (klv : β)
  /-- The object is put, and its row not written yet. -/
  | uploaded (klv : β)
  | failed

def Stage.builtKlv : Stage β → Option β
  | .built klv => some klv
  | .started | .uploaded _ | .failed => none

def Stage.uploadedKlv : Stage β → Option β
  | .uploaded klv => some klv
  | .started | .built _ | .failed => none

def Stage.klv : Stage β → Option β
  | .built klv | .uploaded klv => some klv
  | .started | .failed => none

/-- A spawned transition; one of generation 0 seeds a job's zeroed KLV. -/
structure Runner (B ρ β : Type) where
  key : Key
  builder : B
  /-- The generation's rows, as it built them. -/
  rows : Option ρ
  stage : Stage β

inductive CheckStage (β δ : Type)
  | read
  | rebuilt (klv : β)
  | present (klv : β)
  | compared (klv : β) (object : Option δ)
  /-- The object is rewritten, and its row not updated yet. -/
  | rewritten (klv : β)

def CheckStage.rewrittenKlv : CheckStage β δ → Option β
  | .rewritten klv => some klv
  | .read | .rebuilt _ | .present _ | .compared _ _ => none

def CheckStage.looked : CheckStage β δ → Bool
  | .compared _ object => object.isSome
  | .rewritten _ => true
  | .read | .rebuilt _ | .present _ => false

structure Check (B β δ : Type) where
  key : Key
  builder : B
  force : Bool
  storedSha256 : δ
  storedBuilder : B
  wasServed : δ
  stage : CheckStage β δ

structure State (ι B ρ β δ : Type) where
  now : ℤ
  progress : Key → Option ρ
  transitions : Key → Option Row
  artifacts : Key → Option (Artifact B δ)
  objects : Key → Option β
  runners : ι → Option (Runner B ρ β)
  checks : ι → Option (Check B β δ)

section Rebuild

variable [DecidableEq B] [DecidableEq δ]

structure ArtifactRebuild (B δ : Type) where
  generation : ℕ
  artifactKey : Key
  storedSha256 : δ
  servedSha256 : δ
  objectSha256 : Option δ
  objectAccountedFor : Bool
  rebuiltSha256 : δ
  rebuildMatches : Bool
  sameBuilder : Bool
  storedBuilder : B
  rebuiltBuilder : B
  objectPresent : Bool
  rewritten : Bool

/-- The object is the first build, this one, or what is served; there is none to account for
otherwise. -/
def objectAccountedFor (c : Check B β δ) (rebuilt : δ) (object : Option δ) : Bool :=
  object.all fun sha ↦ sha = c.storedSha256 ∨ sha = rebuilt ∨ sha = c.wasServed

def rewrites (c : Check B β δ) (rebuilt : δ) (object : Option δ) : Bool :=
  object.isNone || c.force || !objectAccountedFor c rebuilt object && rebuilt = c.storedSha256

def toServe (c : Check B β δ) (rebuilt : δ) (object : Option δ) : Option δ :=
  if rewrites c rebuilt object then some rebuilt
  else if objectAccountedFor c rebuilt object then object else none

def report (c : Check B β δ) (rebuilt : δ) (object : Option δ) : ArtifactRebuild B δ where
  generation := c.key.generation
  artifactKey := c.key
  storedSha256 := c.storedSha256
  servedSha256 := (toServe c rebuilt object).getD c.wasServed
  objectSha256 := object
  objectAccountedFor := objectAccountedFor c rebuilt object
  rebuiltSha256 := rebuilt
  rebuildMatches := rebuilt = c.storedSha256
  sameBuilder := c.storedBuilder = c.builder
  storedBuilder := c.storedBuilder
  rebuiltBuilder := c.builder
  objectPresent := object.isSome
  rewritten := rewrites c rebuilt object

theorem some_served_report {c : Check B β δ} {rebuilt : δ} {object : Option δ}
    (h : (report c rebuilt object).objectAccountedFor = true) :
    some (report c rebuilt object).servedSha256 =
      if (report c rebuilt object).rewritten then some rebuilt else object := by
  have haccounted : objectAccountedFor c rebuilt object = true := h
  by_cases hrewrites : rewrites c rebuilt object = true
  · simp [report, toServe, hrewrites]
  · cases object with
    | none => exact absurd rfl hrewrites
    | some sha => simp [report, toServe, hrewrites, haccounted]

abbrev Check.Read (c : Check B β δ) (row : Artifact B δ) : Prop :=
  row.sha256 = c.storedSha256 ∧ row.served = c.wasServed

/-- `SET served_sha256 = NULLIF($3, sha256)`, only onto the row that the check read. -/
def Check.update (c : Check B β δ) (served : δ) (row : Artifact B δ) : Artifact B δ :=
  if c.Read row then
    { row with servedSha256 := if served = row.sha256 then none else some served }
  else row

end Rebuild

section Transition

variable (magpie : Magpie B ρ β) (s : State ι B ρ β δ)

/-- `generation_klv` fails on a generation whose rows are not all there. -/
def klvOf (builder : B) (key : Key) (rows : Option ρ) : Option β :=
  if key.generation = 0 then some (magpie.createZeroKlv builder key.job)
  else rows.map (magpie.rackequityKlv builder key.job)

def putObject (key : Key) (klv : β) : State ι B ρ β δ :=
  { s with objects := Function.update s.objects key (some klv) }

def setArtifact (key : Key) (row : Option (Artifact B δ)) : State ι B ρ β δ :=
  { s with artifacts := Function.update s.artifacts key row }

/-- `ON CONFLICT (job_id, generation) DO NOTHING` -/
def insertArtifact (key : Key) (row : Artifact B δ) : State ι B ρ β δ :=
  setArtifact s key (some ((s.artifacts key).getD row))

def openRow (key : Key) : Option Row := (s.transitions key).filter (·.completedAt = none)

/-- `none` is the error of a transition that finds no row of its generation open. -/
def closeGeneration (key : Key) (row : Artifact B δ) : Option (State ι B ρ β δ) :=
  (openRow s key).map fun transition ↦
    { insertArtifact s key row with
      transitions :=
        Function.update s.transitions key (some { transition with completedAt := some s.now }) }

def record (key : Key) (row : Artifact B δ) : Option (State ι B ρ β δ) :=
  if key.generation = 0 then some (insertArtifact s key row) else closeGeneration s key row

def setRunner [DecidableEq ι] (i : ι) (r : Option (Runner B ρ β)) : State ι B ρ β δ :=
  { s with runners := Function.update s.runners i r }

def setCheck [DecidableEq ι] (i : ι) (c : Option (Check B β δ)) : State ι B ρ β δ :=
  { s with checks := Function.update s.checks i c }

def purge (job : ℕ) : State ι B ρ β δ :=
  { s with
    progress := fun key ↦ if key.job = job then none else s.progress key
    transitions := fun key ↦ if key.job = job then none else s.transitions key
    artifacts := fun key ↦ if key.job = job then none else s.artifacts key }

end Transition

inductive Action (ι B ρ : Type)
  | tick (micros : ℕ)
  /-- Racks are seeded or results folded, in a generation that is open. -/
  | progress (key : Key) (rows : ρ)
  /-- A claim takes or takes over a transition. Which generations are current is left open. -/
  | claimTransition (i : ι) (key : Key) (now : ℤ) (builder : B)
  | seedZeroGeneration (i : ι) (job : ℕ) (builder : B)
  | build (i : ι)
  | put (i : ι)
  | close (i : ι)
  | fail (i : ι)
  | handBack (i : ι)
  | lose (i : ι)
  | releaseOrphanedTransitions
  | purge (job : ℕ)
  | check (i : ι) (key : Key) (builder : B) (force : Bool)
  | rebuild (i : ι)
  | head (i : ι)
  | get (i : ι)
  | rewrite (i : ι)
  /-- The check's update, the last thing it does. -/
  | serve (i : ι)
  /-- A check that is cut off, or that has nothing to update. -/
  | stop (i : ι)

section Machine

variable [DecidableEq ι] [DecidableEq δ] (magpie : Magpie B ρ β) (digest : β → δ)

/-- The hash that a check is about to set its row to, once it has rewritten the object or found
nothing to rewrite. -/
def Check.serving (c : Check B β δ) : Option δ :=
  match c.stage with
  | .compared klv object =>
    if rewrites c (digest klv) object then none else toServe c (digest klv) object
  | .rewritten klv => some (digest klv)
  | .read | .rebuilt _ | .present _ => none

def build (s : State ι B ρ β δ) (i : ι) (r : Runner B ρ β) : Option (State ι B ρ β δ) :=
  match r.stage with
  | .started => (klvOf magpie r.builder r.key (s.progress r.key)).map fun klv ↦
      setRunner s i (some { r with rows := s.progress r.key, stage := .built klv })
  | .built _ | .uploaded _ | .failed => none

def put (s : State ι B ρ β δ) (i : ι) (r : Runner B ρ β) : Option (State ι B ρ β δ) :=
  match r.stage with
  | .built klv =>
    some (setRunner (putObject s r.key klv) i (some { r with stage := .uploaded klv }))
  | .started | .uploaded _ | .failed => none

def close (s : State ι B ρ β δ) (i : ι) (r : Runner B ρ β) : Option (State ι B ρ β δ) :=
  match r.stage with
  | .uploaded klv =>
    match record s r.key ⟨digest klv, r.builder, none⟩ with
    | some t => some (setRunner t i none)
    | none => some (setRunner s i (some { r with stage := .failed }))
  | .started | .built _ | .failed => none

def handBack (s : State ι B ρ β δ) (i : ι) (r : Runner B ρ β) : Option (State ι B ρ β δ) :=
  match r.stage with
  | .failed =>
    let row := (s.transitions r.key).map Transition.handedBack
    some (setRunner { s with transitions := Function.update s.transitions r.key row } i none)
  | .started | .built _ | .uploaded _ => none

def rebuild (s : State ι B ρ β δ) (i : ι) (c : Check B β δ) : Option (State ι B ρ β δ) :=
  match c.stage with
  | .read => (klvOf magpie c.builder c.key (s.progress c.key)).map fun klv ↦
      setCheck s i (some { c with stage := .rebuilt klv })
  | .rebuilt _ | .present _ | .compared _ _ | .rewritten _ => none

/-- `artifacts.exists` -/
def head (s : State ι B ρ β δ) (i : ι) (c : Check B β δ) : Option (State ι B ρ β δ) :=
  match c.stage with
  | .rebuilt klv =>
    let stage := match s.objects c.key with
      | some _ => .present klv
      | none => .compared klv none
    some (setCheck s i (some { c with stage }))
  | .read | .present _ | .compared _ _ | .rewritten _ => none

def get (s : State ι B ρ β δ) (i : ι) (c : Check B β δ) : Option (State ι B ρ β δ) :=
  match c.stage with
  | .present klv => (s.objects c.key).map fun object ↦
      setCheck s i (some { c with stage := .compared klv (some (digest object)) })
  | .read | .rebuilt _ | .compared _ _ | .rewritten _ => none

def rewrite (s : State ι B ρ β δ) (i : ι) (c : Check B β δ) : Option (State ι B ρ β δ) :=
  match c.stage with
  | .compared klv object =>
    if rewrites c (digest klv) object then
      some (setCheck (putObject s c.key klv) i (some { c with stage := .rewritten klv }))
    else none
  | .read | .rebuilt _ | .present _ | .rewritten _ => none

def serve (s : State ι B ρ β δ) (i : ι) (c : Check B β δ) : Option (State ι B ρ β δ) :=
  (c.serving digest).map fun served ↦
    setCheck (setArtifact s c.key ((s.artifacts c.key).map (c.update served))) i none

def next (s : State ι B ρ β δ) : Action ι B ρ → Option (State ι B ρ β δ)
  | .tick micros => some { s with now := s.now + micros }
  | .progress key rows =>
    if (s.artifacts key).isNone then
      some { s with progress := Function.update s.progress key (some rows) }
    else none
  | .claimTransition i key now builder =>
    if 1 ≤ key.generation ∧ now ≤ s.now ∧ (s.runners i).isNone then
      (upserted now (s.transitions key)).map fun row ↦ setRunner
        { s with transitions := Function.update s.transitions key (some row) } i
        (some ⟨key, builder, none, .started⟩)
    else none
  | .seedZeroGeneration i job builder =>
    if (s.runners i).isNone then some (setRunner s i (some ⟨⟨job, 0⟩, builder, none, .started⟩))
      else none
  | .releaseOrphanedTransitions =>
    some { s with transitions := fun key ↦ (s.transitions key).map Transition.handedBack }
  | .purge job => some (purge s job)
  | .check i key builder force =>
    if (s.checks i).isNone then
      (s.artifacts key).map fun row ↦ setCheck s i
        (some ⟨key, builder, force, row.sha256, row.builder, row.served, .read⟩)
    else none
  | .build i => (s.runners i).bind (build magpie s i)
  | .put i => (s.runners i).bind (put s i)
  | .close i => (s.runners i).bind (close digest s i)
  | .fail i => (s.runners i).map fun r ↦ setRunner s i (some { r with stage := .failed })
  | .handBack i => (s.runners i).bind (handBack s i)
  | .lose i => some (setRunner s i none)
  | .rebuild i => (s.checks i).bind (rebuild magpie s i)
  | .head i => (s.checks i).bind (head s i)
  | .get i => (s.checks i).bind (get digest s i)
  | .rewrite i => (s.checks i).bind (rewrite digest s i)
  | .serve i => (s.checks i).bind (serve digest s i)
  | .stop i => some (setCheck s i none)

/-- Nothing recorded and nothing running; of what the bucket holds nothing is known. -/
def start (s : State ι B ρ β δ) : Prop :=
  (∀ key, s.transitions key = none) ∧ (∀ key, s.artifacts key = none) ∧
    (∀ i, s.runners i = none) ∧ ∀ i, s.checks i = none

def machine : Machine (State ι B ρ β δ) (Action ι B ρ) := ⟨start, next magpie digest⟩

end Machine

section Statements

variable [DecidableEq ι] [DecidableEq δ] (digest : β → δ) (s : State ι B ρ β δ)

/-- No runner or check is between its put and its write. -/
def Idle : Prop :=
  (∀ i, ∀ r ∈ s.runners i, r.stage.uploadedKlv = none) ∧
    ∀ i, ∀ c ∈ s.checks i, c.stage.rewrittenKlv = none

abbrev Holds (key : Key) (sha : δ) : Prop := (s.objects key).map digest = some sha

/-- The runner's rows are those of its generation still: it was not purged, and nothing was merged
into it, since the runner built. -/
def Current (r : Runner B ρ β) : Prop := s.progress r.key = r.rows

def NoPut (key : Key) : Prop :=
  ∀ j, ∀ r ∈ s.runners j, r.key = key → r.stage.uploadedKlv = none

def Unwatched (i : Option ι) (key : Key) : Prop :=
  ∀ j, some j ≠ i → ∀ c ∈ s.checks j, c.key = key → c.stage.looked = false

def Timely : Action ι B ρ → Prop
  | .put i => ∀ r ∈ s.runners i,
      (∀ row ∈ s.artifacts r.key, row.builder = r.builder ∧ row.servedSha256 = none ∧
        Current s r) ∧
      (∀ j, ∀ r' ∈ s.runners j, r'.key = r.key → r'.stage.uploadedKlv ≠ none →
        r'.builder = r.builder ∧ r'.rows = r.rows) ∧
      Unwatched s none r.key
  | .close i => ∀ r ∈ s.runners i, Current s r
  | .rewrite i => ∀ c ∈ s.checks i,
      (∀ row ∈ s.artifacts c.key, c.Read row) ∧ NoPut s c.key ∧ Unwatched s (some i) c.key
  | .stop i => ∀ c ∈ s.checks i, c.stage.rewrittenKlv = none
  | .tick _ | .progress _ _ | .claimTransition _ _ _ _ | .seedZeroGeneration _ _ _ | .build _
  | .fail _ | .handBack _ | .lose _ | .releaseOrphanedTransitions | .purge _ | .check _ _ _ _
  | .rebuild _ | .head _ | .get _ | .serve _ => True

def Owed (key : Key) (row : Artifact B δ) : Prop :=
  ∃ i c klv, s.checks i = some c ∧ c.key = key ∧ c.stage.rewrittenKlv = some klv ∧ c.Read row ∧
    Holds digest s key (digest klv)

def Accounted (key : Key) : Prop :=
  ∀ row, s.artifacts key = some row → Holds digest s key row.served ∨ Owed digest s key row

end Statements

section Keeps

variable {s t : State ι B ρ β δ} {key key' : Key} {i : ι} {r : Option (Runner B ρ β)} {klv : β}
variable {c' : Option (Check B β δ)} {row : Option (Artifact B δ)}

theorem putObject_self : (putObject s key klv).objects key = some klv := Function.update_self ..

theorem putObject_of_ne (h : key' ≠ key) :
    (putObject s key klv).objects key' = s.objects key' := Function.update_of_ne h ..

theorem setArtifact_self : (setArtifact s key row).artifacts key = row := Function.update_self ..

theorem setArtifact_of_ne (h : key' ≠ key) :
    (setArtifact s key row).artifacts key' = s.artifacts key' := Function.update_of_ne h ..

def Keeps (s t : State ι B ρ β δ) (key : Key) : Prop :=
  ∀ i c klv, s.checks i = some c → c.key = key → c.stage.rewrittenKlv = some klv →
    t.checks i = some c

theorem Keeps.of_eq (h : t.checks = s.checks) : Keeps s t key := fun i _ _ hc _ _ ↦ by
  rw [h, hc]

variable [DecidableEq ι]

@[simp] theorem setRunner_objects : (setRunner s i r).objects = s.objects := rfl

@[simp] theorem setRunner_artifacts : (setRunner s i r).artifacts = s.artifacts := rfl

@[simp] theorem setCheck_objects : (setCheck s i c').objects = s.objects := rfl

@[simp] theorem setCheck_artifacts : (setCheck s i c').artifacts = s.artifacts := rfl

theorem setRunner_self : (setRunner s i r).runners i = r := Function.update_self ..

theorem setRunner_of_ne {j : ι} (h : j ≠ i) : (setRunner s i r).runners j = s.runners j :=
  Function.update_of_ne h ..

theorem setCheck_self : (setCheck s i c').checks i = c' := Function.update_self ..

theorem setCheck_of_ne {j : ι} (h : j ≠ i) : (setCheck s i c').checks j = s.checks j :=
  Function.update_of_ne h ..

theorem Keeps.setCheck (h : t.checks = s.checks)
    (hi : ∀ c, s.checks i = some c → c.key = key → c.stage.rewrittenKlv = none) :
    Keeps s (setCheck t i c') key := by
  intro j cⱼ klv hj hkey hstage
  rcases eq_or_ne j i with rfl | hne
  · cases (hi cⱼ hj hkey).symm.trans hstage
  · rw [setCheck_of_ne hne, h, hj]

end Keeps

section Steps

variable {magpie : Magpie B ρ β} {digest : β → δ}
variable {s t : State ι B ρ β δ} {key : Key} {i : ι} {r : Runner B ρ β} {c : Check B β δ}
variable {row : Artifact B δ} {served : δ} {klv : β}

theorem Owed.keep (h : Owed digest s key row) (hk : Keeps s t key)
    (ho : t.objects key = s.objects key) : Owed digest t key row := by
  obtain ⟨i, c, klv, hc, hkey, hstage, hread, hholds⟩ := h
  refine ⟨i, c, klv, hk i c klv hc hkey hstage, hkey, hstage, hread, ?_⟩
  rwa [Holds, ho]

theorem Accounted.congr (h : Accounted digest s key) (hk : Keeps s t key)
    (ha : t.artifacts key = s.artifacts key) (ho : t.objects key = s.objects key) :
    Accounted digest t key := by
  intro row hrow
  rw [ha] at hrow
  rcases h row hrow with hholds | howed
  · left
    rwa [Holds, ho]
  · exact .inr (howed.keep hk ho)

theorem Accounted.of_eq (h : Accounted digest s key) (hc : t.checks = s.checks)
    (ha : t.artifacts = s.artifacts) (ho : t.objects = s.objects) : Accounted digest t key :=
  h.congr (.of_eq hc) (congrFun ha key) (congrFun ho key)

theorem record_cases {new : Artifact B δ} (hs : record s key new = some t) :
    t.artifacts = (insertArtifact s key new).artifacts ∧ t.objects = s.objects ∧
      t.checks = s.checks ∧ t.runners = s.runners ∧ t.progress = s.progress := by
  unfold record at hs
  split at hs
  · cases hs
    exact ⟨rfl, rfl, rfl, rfl, rfl⟩
  · obtain ⟨row, -, rfl⟩ := Option.map_eq_some_iff.1 hs
    exact ⟨rfl, rfl, rfl, rfl, rfl⟩

theorem Accounted.inserted {new : Artifact B δ} {key' : Key} (h : Accounted digest s key)
    (hnew : s.artifacts key' = none → Holds digest s key' new.served) :
    Accounted digest (insertArtifact s key' new) key := by
  rcases eq_or_ne key key' with rfl | hkey
  · cases hold : s.artifacts key with
    | none =>
      intro row hrow
      rw [insertArtifact, setArtifact_self, hold] at hrow
      cases hrow
      exact .inl (hnew hold)
    | some old =>
      refine h.congr (.of_eq rfl) ?_ rfl
      rw [insertArtifact, setArtifact_self, hold, Option.getD_some]
  · exact h.congr (.of_eq rfl) (setArtifact_of_ne hkey) rfl

theorem Accounted.purge (h : Accounted digest s key) (job : ℕ) :
    Accounted digest (purge s job) key := by
  have hrows : (Artifacts.purge s job).artifacts key =
      if key.job = job then none else s.artifacts key := rfl
  by_cases hjob : key.job = job
  · intro row hrow
    rw [hrows, if_pos hjob] at hrow
    cases hrow
  · exact h.congr (.of_eq rfl) (by rw [hrows, if_neg hjob]) rfl

variable [DecidableEq ι]

theorem Accounted.set {c' : Option (Check B β δ)} (h : Accounted digest s key)
    (hi : ∀ c, s.checks i = some c → c.stage.rewrittenKlv = none) :
    Accounted digest (setCheck s i c') key :=
  h.congr (.setCheck rfl fun c hc _ ↦ hi c hc) rfl rfl

theorem Accounted.put (h : Accounted digest s key)
    (hok : ∀ klv ∈ r.stage.builtKlv, ∀ row ∈ s.artifacts r.key, row.served = digest klv)
    (hs : put s i r = some t) : Accounted digest t key := by
  unfold Artifacts.put at hs
  split at hs <;> cases hs
  next klv hstage =>
  rcases eq_or_ne key r.key with rfl | hkey
  · intro row hrow
    left
    rw [Holds, setRunner_objects, putObject_self, Option.map_some,
      hok klv (by rw [hstage]; rfl) row hrow]
  · exact h.congr (.of_eq rfl) rfl (putObject_of_ne hkey)

theorem Accounted.close (h : Accounted digest s key)
    (hok : ∀ klv ∈ r.stage.uploadedKlv, Holds digest s r.key (digest klv))
    (hs : close digest s i r = some t) : Accounted digest t key := by
  unfold Artifacts.close at hs
  split at hs
  · next klv hstage =>
    split at hs <;> cases hs
    · next u hu =>
      obtain ⟨hartifacts, hobjects, hchecks, -⟩ := record_cases hu
      have hnew : Accounted digest (insertArtifact s r.key ⟨digest klv, r.builder, none⟩) key :=
        h.inserted fun _ ↦ hok klv (by rw [hstage]; rfl)
      exact hnew.of_eq hchecks hartifacts hobjects
    · exact h.of_eq rfl rfl rfl
  all_goals cases hs

theorem Accounted.goOn {stage : CheckStage β δ} (h : Accounted digest s key)
    (hc : s.checks i = some c) (hstage : c.stage.rewrittenKlv = none) :
    Accounted digest (setCheck s i (some { c with stage })) key :=
  h.set fun _ hc' ↦ by
    cases hc.symm.trans hc'
    exact hstage

theorem Accounted.rebuild (h : Accounted digest s key) (hc : s.checks i = some c)
    (hs : rebuild magpie s i c = some t) : Accounted digest t key := by
  unfold Artifacts.rebuild at hs
  split at hs
  · next hstage =>
    obtain ⟨klv, -, rfl⟩ := Option.map_eq_some_iff.1 hs
    exact h.goOn hc (by rw [hstage]; rfl)
  all_goals cases hs

theorem Accounted.head (h : Accounted digest s key) (hc : s.checks i = some c)
    (hs : head s i c = some t) : Accounted digest t key := by
  unfold Artifacts.head at hs
  split at hs
  · next hstage =>
    cases hs
    exact h.goOn hc (by rw [hstage]; rfl)
  all_goals cases hs

theorem Accounted.get (h : Accounted digest s key) (hc : s.checks i = some c)
    (hs : get digest s i c = some t) : Accounted digest t key := by
  unfold Artifacts.get at hs
  split at hs
  · next hstage =>
    obtain ⟨object, -, rfl⟩ := Option.map_eq_some_iff.1 hs
    exact h.goOn hc (by rw [hstage]; rfl)
  all_goals cases hs

theorem Accounted.stop (h : Accounted digest s key)
    (hok : ∀ c ∈ s.checks i, c.stage.rewrittenKlv = none) :
    Accounted digest (setCheck s i none) key :=
  h.set hok

section Decided

variable [DecidableEq δ]

theorem Accounted.rewrite (h : Accounted digest s key) (hc : s.checks i = some c)
    (hok : ∀ row ∈ s.artifacts c.key, c.Read row)
    (hs : rewrite digest s i c = some t) : Accounted digest t key := by
  unfold Artifacts.rewrite at hs
  split at hs
  · next klv object hstage =>
    obtain ⟨-, hs⟩ := Option.ite_none_right_eq_some.1 hs
    cases hs
    rcases eq_or_ne key c.key with rfl | hkey
    · intro row hrow
      have hholds : Holds digest (putObject s c.key klv) c.key (digest klv) := by
        rw [Holds, putObject_self, Option.map_some]
      exact .inr ⟨i, _, klv, setCheck_self, rfl, rfl, hok row hrow, hholds⟩
    · refine h.congr (.setCheck rfl fun c' hc' hkey' ↦ ?_) rfl (putObject_of_ne hkey)
      cases hc.symm.trans hc'
      exact absurd hkey'.symm hkey
  all_goals cases hs

theorem Check.update_sha256 : (c.update served row).sha256 = row.sha256 := by
  unfold Check.update
  split <;> rfl

theorem Check.update_served (h : c.Read row) : (c.update served row).served = served := by
  rw [Check.update, if_pos h]
  by_cases hs : served = row.sha256 <;> simp [Artifact.served, hs]

theorem Check.update_builder : (c.update served row).builder = row.builder := by
  unfold Check.update
  split <;> rfl

/-- The row that a check updates is accounted for by the object as it is, or else by another check
still to update it. -/
theorem Accounted.serve (h : Accounted digest s key) (hc : s.checks i = some c)
    (hok : ∀ served ∈ c.serving digest, Holds digest s c.key served)
    (hs : serve digest s i c = some t) : Accounted digest t key := by
  obtain ⟨served, hserved, rfl⟩ := Option.map_eq_some_iff.1 hs
  rcases eq_or_ne key c.key with rfl | hkey
  · intro row' hrow'
    rw [setCheck_artifacts, setArtifact_self] at hrow'
    obtain ⟨row, hrow, rfl⟩ := Option.map_eq_some_iff.1 hrow'
    by_cases hread : c.Read row
    · left
      rw [Check.update_served hread]
      exact hok served hserved
    · rw [Check.update, if_neg hread]
      rcases h row hrow with hholds | ⟨j, c', klv, hj, hkey, hstage, hread', hholds⟩
      · exact .inl hholds
      · rcases eq_or_ne j i with rfl | hne
        · cases hc.symm.trans hj
          exact absurd hread' hread
        · exact .inr ⟨j, c', klv, (setCheck_of_ne hne).trans hj, hkey, hstage, hread', hholds⟩
  · refine h.congr (.setCheck rfl fun c' hc' hkey' ↦ ?_) (setArtifact_of_ne hkey) rfl
    cases hc.symm.trans hc'
    exact absurd hkey'.symm hkey

end Decided

end Steps

end Birdtest.Jobs.LeaveGen.Artifacts
