import Birdtest.Derived.Queue
import Birdtest.Inputdata.Paths
import Mathlib.Data.List.Dedup
import Mathlib.Data.List.Lex
import Mathlib.Data.List.Sort

namespace Birdtest.Derived.Cache

open Birdtest.Base.Runs Birdtest.Base.Tables
open Birdtest.Inputdata (InputRole nameByte)

structure InputFile where
  role : InputRole
  name : String
  sha256 : String
  deriving DecidableEq

structure PlayerConfig where
  kwgId : ℕ
  klvId : ℕ
  winpctId : Option ℕ
  useWordmap : Bool
  useRit : Bool
  useWit : Bool

inductive JobConfig
  | game (player1 player2 : ℕ)
  | gamePair (player1 player2 : ℕ)
  | openingRack (player : ℕ)
  | leave (player : ℕ)

structure Job where
  letterdistId : ℕ
  layoutId : ℕ
  config : JobConfig

structure RatingPool where
  letterdistId : ℕ
  layoutId : ℕ

/-- The collation of the database, in which only equal texts tie. -/
structure Collation where
  le : String → String → Bool
  antisymm {a b : String} : le a b = true → le b a = true → a = b

structure Catalog where
  jobs : Table ℕ Job
  players : Table ℕ PlayerConfig
  pools : List RatingPool
  collation : Collation

structure Binary where
  builders : Builders
  buildTarget : String

section Needs

structure Want where
  kwgId : ℕ
  klvId : Option ℕ
  useWordmap : Bool
  useRit : Bool
  useWit : Bool

structure Need where
  role : Role
  name : String
  kwgId : ℕ
  klvId : Option ℕ
  deriving DecidableEq

def roleText : Role → String
  | .wmp => "wmp"
  | .rit => "rit"
  | .wit => "wit"

def JobConfig.players : JobConfig → List ℕ
  | .game player1 player2 | .gamePair player1 player2 => [player1, player2].dedup
  | .openingRack player => [player]
  | .leave _ => []

def JobConfig.leavePlayer : JobConfig → Option ℕ
  | .leave player => some player
  | _ => none

variable (cat : Catalog) (inputs : Table ℕ InputFile)

def PlayerConfig.want (player : PlayerConfig) : Want :=
  ⟨player.kwgId, some player.klvId, player.useWordmap, player.useRit, player.useWit⟩

def PlayerConfig.leaveWant (player : PlayerConfig) : Want :=
  ⟨player.kwgId, none, player.useWordmap, false, player.useWit⟩

def wants (config : JobConfig) : List Want :=
  config.players.filterMap (fun id ↦ (cat.players.get id).map PlayerConfig.want) ++
    config.leavePlayer.toList.filterMap fun id ↦ (cat.players.get id).map PlayerConfig.leaveWant

def wmpNeed (want : Want) : Option Need :=
  if want.useWordmap ∨ want.useRit then
    (inputs.get want.kwgId).map fun kwg ↦ ⟨.wmp, kwg.name, want.kwgId, none⟩
  else none

def ritNeed (want : Want) : Option Need :=
  if want.useRit then
    (inputs.get want.kwgId).bind fun kwg ↦ want.klvId.bind fun klvId ↦
      (inputs.get klvId).map fun klv ↦
        ⟨.rit, kwg.name ++ "." ++ klv.name, want.kwgId, some klvId⟩
  else none

def witNeed (want : Want) : Option Need :=
  if want.useWit then
    (inputs.get want.kwgId).map fun kwg ↦ ⟨.wit, kwg.name, want.kwgId, none⟩
  else none

def needs (config : JobConfig) : List Need :=
  ((wants cat config).filterMap (wmpNeed inputs) ++ (wants cat config).filterMap (ritNeed inputs) ++
    (wants cat config).filterMap (witNeed inputs)).dedup

/-- `role, name` -/
def before (collation : Collation) (a b : Need) : Bool :=
  if a.role = b.role then collation.le a.name b.name
  else collation.le (roleText a.role) (roleText b.role)

structure Ordered (config : JobConfig) (rows : List Need) : Prop where
  perm : rows.Perm (needs cat inputs config)
  sorted : rows.Pairwise fun a b ↦ before cat.collation a b = true

def Need.derived (letterdistId : ℕ) (need : Need) : DerivedNeed :=
  ⟨need.role, need.name, need.kwgId, need.klvId, letterdistId⟩

/-- What `needs_for_job` returns where its query returns `rows`. -/
def needsForJob (job : ℕ) (rows : List Need) : List DerivedNeed :=
  match cat.jobs.get job with
  | none => []
  | some row => rows.map (Need.derived row.letterdistId)

end Needs

section Status

structure ExpectedDerived where
  role : Role
  name : String
  sha256 : String
  builder : String
  buildTarget : String
  bytes : ℤ
  deriving DecidableEq

structure DerivedStatus where
  ready : List ExpectedDerived
  pending : List String
  failed : List String
  unrequested : ℕ
  deriving DecidableEq

def DerivedStatus.dispatchable (status : DerivedStatus) : Bool :=
  status.pending.isEmpty && status.failed.isEmpty

variable (bin : Binary) (rows : Table Key Row)

def joined (letterdistId : ℕ) (need : Need) : Option Row :=
  rows.get ⟨need.role, need.name,
    match need.role with
    | .wmp => bin.builders.forRole .wmp
    | .rit => bin.builders.forRole .rit
    | .wit => bin.builders.forRole .wit,
    need.kwgId, need.klvId, letterdistId⟩

def addRow (letterdistId : ℕ) (status : DerivedStatus) (need : Need) : Option DerivedStatus :=
  let label := roleText need.role ++ " " ++ need.name
  match joined bin rows letterdistId need with
  | none => some { status with
      unrequested := status.unrequested + 1
      pending := status.pending ++ [label] }
  | some row =>
    match row.state with
    | .built => row.sha256.map fun sha256 ↦ { status with
        ready := status.ready ++ [⟨need.role, need.name, sha256, bin.builders.forRole need.role,
          row.buildTarget.getD bin.buildTarget, row.bytes.getD 0⟩] }
    | .failed => some { status with failed := status.failed ++ [label] }
    | .pending | .building => some { status with pending := status.pending ++ [label] }

/-- What `status_for_job` returns where the needs come as `order`. -/
def statusForJob (cat : Catalog) (job : ℕ) (order : List Need) : Option DerivedStatus :=
  match cat.jobs.get job with
  | none => some ⟨[], [], [], 0⟩
  | some row => order.foldlM (addRow bin rows row.letterdistId) ⟨[], [], [], 0⟩

end Status

/-- A call of `ready_for_job`: it has found nothing remembered, it has read the job's status, or it
has answered. -/
inductive Call
  | missed (job : ℕ)
  | read (job : ℕ) (status : DerivedStatus)
  | answered (job : ℕ) (ready : Option (List ExpectedDerived)) (fromCache : Bool)
  deriving DecidableEq

structure State where
  queue : Derived.State
  inputs : Table ℕ InputFile
  cache : ℕ → Option (List ExpectedDerived)
  calls : ℕ → Option Call

inductive Action
  | queue (a : Derived.Action)
  | deleteInputData (id : ℕ)
  | ask (call job : ℕ)
  | statusForJob (call : ℕ) (order : List Need)
  | requestForJob (call : ℕ) (order : List Need)
  | answer (call : ℕ)

section Machine

variable (cat : Catalog) (bin : Binary)

def pins (id : ℕ) : Bool :=
  cat.jobs.rows.any (fun j ↦ j.2.letterdistId = id ∨ j.2.layoutId = id) ∨
    cat.players.rows.any (fun p ↦ p.2.kwgId = id ∨ p.2.klvId = id ∨ p.2.winpctId = some id) ∨
    cat.pools.any fun pool ↦ pool.letterdistId = id ∨ pool.layoutId = id

def madeFrom (id : ℕ) (key : Key) : Bool :=
  key.kwgId = id ∨ key.klvId = some id ∨ key.letterdistId = id

instance (cat : Catalog) (inputs : Table ℕ InputFile) (config : JobConfig) (rows : List Need) :
    Decidable (Ordered cat inputs config rows) :=
  decidable_of_iff (rows.Perm (needs cat inputs config) ∧
      rows.Pairwise fun a b ↦ before cat.collation a b = true)
    ⟨fun h ↦ ⟨h.1, h.2⟩, fun h ↦ ⟨h.perm, h.sorted⟩⟩

def returns (inputs : Table ℕ InputFile) (job : ℕ) (order : List Need) : Bool :=
  (cat.jobs.get job).all fun row ↦ Ordered cat inputs row.config order

def next (s : State) : Action → Option State
  | .queue a => (Derived.next s.queue a).map fun queue ↦ { s with queue }
  | .deleteInputData id =>
    -- The foreign keys refuse a file that something pins; what was built from it goes with it.
    if (s.inputs.get id).isSome ∧ ¬ pins cat id then
      some { s with
        queue := { s.queue with rows := s.queue.rows.filter fun key ↦ ¬ madeFrom id key }
        inputs := s.inputs.filter (· ≠ id) }
    else none
  | .ask call job =>
    if (s.calls call).isSome then none
    else some { s with
      calls := Function.update s.calls call (some (match s.cache job with
        | some ready => .answered job (some ready) true
        | none => .missed job)) }
  | .statusForJob call order =>
    match s.calls call with
    | some (.missed job) =>
      if returns cat s.inputs job order then
        (statusForJob bin s.queue.rows cat job order).map fun status ↦ { s with
          calls := Function.update s.calls call (some (.read job status)) }
      else none
    | _ => none
  | .requestForJob call order =>
    match s.calls call with
    | some (.read job status) =>
      if 0 < status.unrequested ∧ returns cat s.inputs job order then
        some { s with
          queue := { s.queue with
            rows := requestForJob bin.builders s.queue.now s.queue.rows
              (needsForJob cat job order) } }
      else none
    | _ => none
  | .answer call =>
    match s.calls call with
    | some (.read job status) =>
      if status.dispatchable then
        some { s with
          cache := Function.update s.cache job (some status.ready)
          calls := Function.update s.calls call (some (.answered job (some status.ready) false)) }
      else some { s with calls := Function.update s.calls call (some (.answered job none false)) }
    | _ => none

def expectedData (job : Job) : List ℕ :=
  [job.letterdistId, job.layoutId] ++
    (job.config.leavePlayer.toList.filterMap cat.players.get).map PlayerConfig.kwgId ++
    (job.config.players.filterMap cat.players.get).flatMap fun player ↦
      [player.kwgId, player.klvId] ++ player.winpctId.toList

/-- What the schema and the creation of players and jobs make sure of. -/
structure Valid (inputs : Table ℕ InputFile) : Prop where
  pinned {id : ℕ} : pins cat id = true → (inputs.get id).isSome
  kwg {p : ℕ} {player : PlayerConfig} {file : InputFile} : cat.players.get p = some player →
    inputs.get player.kwgId = some file → file.role = .kwg
  klv {p : ℕ} {player : PlayerConfig} {file : InputFile} : cat.players.get p = some player →
    inputs.get player.klvId = some file → file.role = .klv
  /-- `classify` -/
  name {id : ℕ} {file : InputFile} : inputs.get id = some file →
    file.name.toList.all nameByte = true
  /-- `UNIQUE (path, sha256)` -/
  unique {id id' : ℕ} {file : InputFile} : inputs.get id = some file →
    inputs.get id' = some file → id = id'
  /-- `refuse_one_name_for_two_files` -/
  oneName {j id id' : ℕ} {job : Job} {file file' : InputFile} : cat.jobs.get j = some job →
    id ∈ expectedData cat job → id' ∈ expectedData cat job → inputs.get id = some file →
    inputs.get id' = some file' → file.role = file'.role → file.name = file'.name →
    file.sha256 = file'.sha256

def start (s : State) : Prop :=
  Valid cat s.inputs ∧ (∀ job, s.cache job = none) ∧ ∀ call, s.calls call = none

def machine : Machine State Action := ⟨start cat, next cat bin⟩

end Machine

section Names

variable {cat : Catalog} {inputs inputs' : Table ℕ InputFile} {config : JobConfig} {want : Want}
  {need need' : Need} {job : Job} {j : ℕ}

inductive IsNeed (cat : Catalog) (inputs : Table ℕ InputFile) (config : JobConfig) : Need → Prop
  | wmp {want : Want} {kwg : InputFile} (hw : want ∈ wants cat config)
      (hk : inputs.get want.kwgId = some kwg) :
      IsNeed cat inputs config ⟨.wmp, kwg.name, want.kwgId, none⟩
  | rit {want : Want} {kwg klv : InputFile} {klvId : ℕ} (hw : want ∈ wants cat config)
      (hk : inputs.get want.kwgId = some kwg) (hid : want.klvId = some klvId)
      (hl : inputs.get klvId = some klv) :
      IsNeed cat inputs config ⟨.rit, kwg.name ++ "." ++ klv.name, want.kwgId, some klvId⟩
  | wit {want : Want} {kwg : InputFile} (hw : want ∈ wants cat config)
      (hk : inputs.get want.kwgId = some kwg) :
      IsNeed cat inputs config ⟨.wit, kwg.name, want.kwgId, none⟩

theorem isNeed_of_mem (h : need ∈ needs cat inputs config) : IsNeed cat inputs config need := by
  simp only [needs, List.mem_dedup, List.mem_append, List.mem_filterMap] at h
  obtain (⟨want, hw, h⟩ | ⟨want, hw, h⟩) | ⟨want, hw, h⟩ := h
  · simp only [wmpNeed, Option.ite_none_right_eq_some, Option.map_eq_some_iff] at h
    obtain ⟨-, kwg, hk, rfl⟩ := h
    exact .wmp hw hk
  · simp only [ritNeed, Option.ite_none_right_eq_some, Option.bind_eq_some_iff,
      Option.map_eq_some_iff] at h
    obtain ⟨-, kwg, hk, klvId, hid, klv, hl, rfl⟩ := h
    exact .rit hw hk hid hl
  · simp only [witNeed, Option.ite_none_right_eq_some, Option.map_eq_some_iff] at h
    obtain ⟨-, kwg, hk, rfl⟩ := h
    exact .wit hw hk

theorem of_mem_wants (hw : want ∈ wants cat job.config) :
    ∃ p player, cat.players.get p = some player ∧
    want.kwgId = player.kwgId ∧ want.kwgId ∈ expectedData cat job ∧
    ∀ klvId, want.klvId = some klvId → klvId = player.klvId ∧ klvId ∈ expectedData cat job := by
  simp only [wants, List.mem_append, List.mem_filterMap, Option.map_eq_some_iff] at hw
  obtain ⟨p, hp, player, hplayer, rfl⟩ | ⟨p, hp, player, hplayer, rfl⟩ := hw
  · have hmem : player ∈ job.config.players.filterMap cat.players.get :=
      List.mem_filterMap.2 ⟨p, hp, hplayer⟩
    refine ⟨p, player, hplayer, rfl, ?_, ?_⟩
    · simp only [expectedData, List.mem_append, List.mem_flatMap]
      exact .inr ⟨player, hmem, .inl List.mem_cons_self⟩
    · rintro _ ⟨⟩
      refine ⟨rfl, ?_⟩
      simp only [expectedData, List.mem_append, List.mem_flatMap]
      exact .inr ⟨player, hmem, .inl (List.mem_cons_of_mem _ List.mem_cons_self)⟩
  · have hmem : player ∈ job.config.leavePlayer.toList.filterMap cat.players.get :=
      List.mem_filterMap.2 ⟨p, hp, hplayer⟩
    refine ⟨p, player, hplayer, rfl, ?_, fun _ hnone ↦ by cases hnone⟩
    simp only [expectedData, List.mem_append, List.mem_map]
    exact .inl (.inr ⟨player, hmem, rfl⟩)

theorem Valid.eq_of_name (hv : Valid cat inputs) (hj : cat.jobs.get j = some job) {id id' : ℕ}
    {file file' : InputFile} (hid : id ∈ expectedData cat job) (hid' : id' ∈ expectedData cat job)
    (hfile : inputs.get id = some file) (hfile' : inputs.get id' = some file')
    (hrole : file.role = file'.role) (hname : file.name = file'.name) : id = id' := by
  have hsha := hv.oneName hj hid hid' hfile hfile' hrole hname
  refine hv.unique hfile (hfile'.trans (congrArg some ?_))
  cases file
  cases file'
  simp_all

theorem Valid.eq_of_kwgName (hv : Valid cat inputs) (hj : cat.jobs.get j = some job)
    {want want' : Want} {kwg kwg' : InputFile} (hw : want ∈ wants cat job.config)
    (hw' : want' ∈ wants cat job.config) (hk : inputs.get want.kwgId = some kwg)
    (hk' : inputs.get want'.kwgId = some kwg') (hname : kwg.name = kwg'.name) :
    want.kwgId = want'.kwgId := by
  obtain ⟨p, player, hplayer, hkwg, hmem, -⟩ := of_mem_wants hw
  obtain ⟨p', player', hplayer', hkwg', hmem', -⟩ := of_mem_wants hw'
  have hrole := hv.kwg hplayer (hkwg ▸ hk)
  have hrole' := hv.kwg hplayer' (hkwg' ▸ hk')
  exact hv.eq_of_name hj hmem hmem' hk hk' (hrole.trans hrole'.symm) hname

theorem Valid.eq_of_klvName (hv : Valid cat inputs) (hj : cat.jobs.get j = some job)
    {want want' : Want} {klvId klvId' : ℕ} {klv klv' : InputFile} (hw : want ∈ wants cat job.config)
    (hw' : want' ∈ wants cat job.config) (hid : want.klvId = some klvId)
    (hid' : want'.klvId = some klvId') (hl : inputs.get klvId = some klv)
    (hl' : inputs.get klvId' = some klv') (hname : klv.name = klv'.name) : klvId = klvId' := by
  obtain ⟨p, player, hplayer, -, -, hklv⟩ := of_mem_wants hw
  obtain ⟨p', player', hplayer', -, -, hklv'⟩ := of_mem_wants hw'
  obtain ⟨rfl, hmem⟩ := hklv _ hid
  obtain ⟨rfl, hmem'⟩ := hklv' _ hid'
  exact hv.eq_of_name hj hmem hmem' hl hl' ((hv.klv hplayer hl).trans (hv.klv hplayer' hl').symm)
    hname

theorem eq_of_append_cons {α : Type} {x : α} {a b c d : List α} (ha : x ∉ a) (hc : x ∉ c)
    (h : a ++ x :: b = c ++ x :: d) : a = c ∧ b = d := by
  induction a generalizing c with
  | nil =>
    cases c with
    | nil => exact ⟨rfl, (List.cons.inj h).2⟩
    | cons y c => exact absurd ((List.cons.inj h).1 ▸ List.mem_cons_self) hc
  | cons y a ih =>
    cases c with
    | nil => exact absurd ((List.cons.inj h).1 ▸ List.mem_cons_self) ha
    | cons z c =>
      rw [List.mem_cons, not_or] at ha hc
      obtain ⟨hyz, htail⟩ := List.cons.inj h
      obtain ⟨hac, hbd⟩ := ih ha.2 hc.2 htail
      exact ⟨hyz ▸ hac ▸ rfl, hbd⟩

theorem eq_of_join {a b c d : String} (ha : a.toList.all nameByte = true)
    (hc : c.toList.all nameByte = true) (h : a ++ "." ++ b = c ++ "." ++ d) : a = c ∧ b = d := by
  have hnot {name : List Char} (hname : name.all nameByte = true) : '.' ∉ name :=
    fun hmem ↦ absurd (List.all_eq_true.1 hname _ hmem) (by decide)
  have hdot : ".".toList = ['.'] := rfl
  have h := congrArg String.toList h
  simp only [String.toList_append, hdot, List.append_assoc, List.singleton_append] at h
  obtain ⟨hac, hbd⟩ := eq_of_append_cons (hnot ha) (hnot hc) h
  exact ⟨String.toList_injective hac, String.toList_injective hbd⟩

/-- The files that a job needs are told apart by their roles and names. -/
theorem Valid.eq_of_need (hv : Valid cat inputs) (hj : cat.jobs.get j = some job)
    (hneed : need ∈ needs cat inputs job.config) (hneed' : need' ∈ needs cat inputs job.config)
    (hrole : need.role = need'.role) (hname : need.name = need'.name) : need = need' := by
  cases isNeed_of_mem hneed with
  | wmp hw hk =>
    cases isNeed_of_mem hneed' with
    | wmp hw' hk' =>
      dsimp only at hname
      rw [hv.eq_of_kwgName hj hw hw' hk hk' hname, hname]
    | rit => cases hrole
    | wit => cases hrole
  | rit hw hk hid hl =>
    cases isNeed_of_mem hneed' with
    | wmp => cases hrole
    | rit hw' hk' hid' hl' =>
      obtain ⟨hkwg, hklv⟩ := eq_of_join (hv.name hk) (hv.name hk') hname
      rw [hv.eq_of_kwgName hj hw hw' hk hk' hkwg, hv.eq_of_klvName hj hw hw' hid hid' hl hl' hklv,
        hkwg, hklv]
    | wit => cases hrole
  | wit hw hk =>
    cases isNeed_of_mem hneed' with
    | wmp => cases hrole
    | rit => cases hrole
    | wit hw' hk' =>
      dsimp only at hname
      rw [hv.eq_of_kwgName hj hw hw' hk hk' hname, hname]

theorem eq_of_before {a b : Need} (h : before cat.collation a b = true)
    (h' : before cat.collation b a = true) : a.role = b.role ∧ a.name = b.name := by
  simp only [before] at h h'
  by_cases hrole : a.role = b.role
  · rw [if_pos hrole] at h
    rw [if_pos hrole.symm] at h'
    exact ⟨hrole, cat.collation.antisymm h h'⟩
  · rw [if_neg hrole] at h
    rw [if_neg fun he ↦ hrole he.symm] at h'
    have htext := cat.collation.antisymm h h'
    cases ha : a.role <;> cases hb : b.role <;> simp_all [roleText]

theorem Ordered.unique (hv : Valid cat inputs) (hj : cat.jobs.get j = some job)
    {rows rows' : List Need} (h : Ordered cat inputs job.config rows)
    (h' : Ordered cat inputs job.config rows') : rows = rows' := by
  refine List.Perm.eq_of_pairwise (fun a b ha hb hab hba ↦ ?_) h.sorted h'.sorted
    (h.perm.trans h'.perm.symm)
  obtain ⟨hrole, hname⟩ := eq_of_before hab hba
  exact hv.eq_of_need hj (h.perm.mem_iff.1 ha) (h'.perm.mem_iff.1 hb) hrole hname

end Names

section Pinned

variable {cat : Catalog} {inputs : Table ℕ InputFile} {want : Want} {need : Need}
  {job : Job} {j id : ℕ}

theorem pins_of_job (hj : cat.jobs.get j = some job) : pins cat job.letterdistId = true := by
  rw [pins, decide_eq_true_eq]
  exact .inl (List.any_eq_true.2 ⟨_, Table.mem_rows.2 hj, decide_eq_true (.inl rfl)⟩)

theorem pins_of_wants (hw : want ∈ wants cat job.config) : pins cat want.kwgId = true ∧
    ∀ klvId, want.klvId = some klvId → pins cat klvId = true := by
  obtain ⟨p, player, hplayer, hkwg, -, hklv⟩ := of_mem_wants hw
  have hpins {id : ℕ} (h : player.kwgId = id ∨ player.klvId = id) : pins cat id = true := by
    rw [pins, decide_eq_true_eq]
    refine .inr (.inl (List.any_eq_true.2 ⟨_, Table.mem_rows.2 hplayer, decide_eq_true ?_⟩))
    exact h.elim .inl (.inr ∘ .inl)
  refine ⟨hpins (.inl hkwg.symm), fun klvId hid ↦ hpins (.inr (hklv _ hid).1.symm)⟩

theorem needs_filter (hid : ¬ pins cat id = true) :
    needs cat (inputs.filter (· ≠ id)) job.config = needs cat inputs job.config := by
  have hget {id' : ℕ} (h : pins cat id' = true) :
      (inputs.filter (· ≠ id)).get id' = inputs.get id' := by
    have hne : id' ≠ id := fun he ↦ hid (he ▸ h)
    rw [Table.get_filter, if_pos (decide_eq_true hne)]
  have hkwg {want : Want} (hw : want ∈ wants cat job.config) :
      (inputs.filter (· ≠ id)).get want.kwgId = inputs.get want.kwgId := hget (pins_of_wants hw).1
  have hwmp : (wants cat job.config).filterMap (wmpNeed (inputs.filter (· ≠ id))) =
      (wants cat job.config).filterMap (wmpNeed inputs) :=
    List.filterMap_congr fun want hw ↦ by rw [wmpNeed, wmpNeed, hkwg hw]
  have hwit : (wants cat job.config).filterMap (witNeed (inputs.filter (· ≠ id))) =
      (wants cat job.config).filterMap (witNeed inputs) :=
    List.filterMap_congr fun want hw ↦ by rw [witNeed, witNeed, hkwg hw]
  have hrit : (wants cat job.config).filterMap (ritNeed (inputs.filter (· ≠ id))) =
      (wants cat job.config).filterMap (ritNeed inputs) := by
    refine List.filterMap_congr fun want hw ↦ ?_
    rw [ritNeed, ritNeed, hkwg hw]
    cases hklv : want.klvId with
    | none => rfl
    | some klvId => simp only [Option.bind_some, hget ((pins_of_wants hw).2 klvId hklv)]
  rw [needs, needs, hwmp, hrit, hwit]

theorem returns_filter (hid : ¬ pins cat id = true) (order : List Need) :
    returns cat (inputs.filter (· ≠ id)) j order = returns cat inputs j order := by
  rw [returns, returns]
  cases cat.jobs.get j with
  | none => rfl
  | some job =>
    rw [Option.all_some, Option.all_some, decide_eq_decide]
    constructor <;> rintro ⟨hperm, hsorted⟩
    · exact ⟨needs_filter hid ▸ hperm, hsorted⟩
    · exact ⟨(needs_filter hid).symm ▸ hperm, hsorted⟩

theorem pins_of_madeFrom (hj : cat.jobs.get j = some job)
    (hneed : need ∈ needs cat inputs job.config) {builder : String}
    (h : madeFrom id ⟨need.role, need.name, builder, need.kwgId, need.klvId, job.letterdistId⟩ =
      true) :
    pins cat id = true := by
  rw [madeFrom, decide_eq_true_eq] at h
  obtain h | h | rfl := h
  · cases isNeed_of_mem hneed with
    | wmp hw => exact h ▸ (pins_of_wants hw).1
    | rit hw => exact h ▸ (pins_of_wants hw).1
    | wit hw => exact h ▸ (pins_of_wants hw).1
  · cases isNeed_of_mem hneed with
    | wmp => cases h
    | rit hw _ hklv =>
      cases h
      exact (pins_of_wants hw).2 _ hklv
    | wit => cases h
  · exact pins_of_job hj

theorem Valid.filter (hv : Valid cat inputs) (hid : ¬ pins cat id = true) :
    Valid cat (inputs.filter (· ≠ id)) := by
  have hget {id' : ℕ} {file : InputFile} (h : (inputs.filter (· ≠ id)).get id' = some file) :
      inputs.get id' = some file := by
    rw [Table.get_filter, Option.ite_none_right_eq_some] at h
    exact h.2
  constructor
  · intro id' hpins
    have hne : id' ≠ id := fun he ↦ hid (he ▸ hpins)
    rw [Table.get_filter, if_pos (decide_eq_true hne)]
    exact hv.pinned hpins
  · exact fun hp hfile ↦ hv.kwg hp (hget hfile)
  · exact fun hp hfile ↦ hv.klv hp (hget hfile)
  · exact fun hfile ↦ hv.name (hget hfile)
  · exact fun hfile hfile' ↦ hv.unique (hget hfile) (hget hfile')
  · exact fun hj hmem hmem' hfile hfile' ↦ hv.oneName hj hmem hmem' (hget hfile) (hget hfile')

end Pinned

section Built

variable {cat : Catalog} {bin : Binary} {rows rows' : Table Key Row} {inputs : Table ℕ InputFile}
  {letterdistId j : ℕ} {order : List Need} {ready : List ExpectedDerived} {status status' :
    DerivedStatus}
  {job : Job}

theorem joined_eq (need : Need) : joined bin rows letterdistId need =
    rows.get ((need.derived letterdistId).key bin.builders) := by
  rw [joined, DerivedNeed.key, Need.derived]
  cases need.role <;> rfl

def Entry (bin : Binary) (rows : Table Key Row) (need : DerivedNeed) (entry : ExpectedDerived) :
    Prop :=
  ∃ row sha256, rows.get (need.key bin.builders) = some row ∧ row.state = .built ∧
    row.sha256 = some sha256 ∧
    entry = ⟨need.role, need.name, sha256, bin.builders.forRole need.role,
      row.buildTarget.getD bin.buildTarget, row.bytes.getD 0⟩

theorem addRow_entry {need : Need} {entry : ExpectedDerived}
    (h : Entry bin rows (need.derived letterdistId) entry) :
    addRow bin rows letterdistId status need =
      some { status with ready := status.ready ++ [entry] } := by
  obtain ⟨row, sha256, hrow, hbuilt, hsha, rfl⟩ := h
  simp only [addRow, joined_eq, hrow, hbuilt, hsha, Option.map_some]
  rfl

theorem foldlM_entries
    (h : List.Forall₂ (Entry bin rows) (order.map (Need.derived letterdistId)) ready) :
    order.foldlM (addRow bin rows letterdistId) status =
      some { status with ready := status.ready ++ ready } := by
  rw [List.forall₂_map_left_iff] at h
  induction h generalizing status with
  | nil => simp
  | cons hentry _ ih =>
    rw [List.foldlM_cons, addRow_entry hentry, Option.bind_eq_bind, Option.bind_some, ih]
    simp

theorem entry_of_addRow {need : Need} (h : addRow bin rows letterdistId status need = some status')
    (hdispatch : status'.dispatchable = true) : status.dispatchable = true ∧
      ∃ entry, Entry bin rows (need.derived letterdistId) entry ∧
        status'.ready = status.ready ++ [entry] := by
  simp only [addRow, joined_eq] at h
  split at h
  · cases h
    simp [DerivedStatus.dispatchable] at hdispatch
  · next row hrow =>
    split at h
    · next hbuilt =>
      obtain ⟨sha256, hsha, rfl⟩ := Option.map_eq_some_iff.1 h
      exact ⟨hdispatch, _, ⟨row, sha256, hrow, hbuilt, hsha, rfl⟩, rfl⟩
    · cases h
      simp [DerivedStatus.dispatchable] at hdispatch
    · cases h
      simp [DerivedStatus.dispatchable] at hdispatch
    · cases h
      simp [DerivedStatus.dispatchable] at hdispatch

theorem entries_of_foldlM (h : order.foldlM (addRow bin rows letterdistId) status = some status')
    (hdispatch : status'.dispatchable = true) : status.dispatchable = true ∧
      ∃ ready, List.Forall₂ (Entry bin rows) (order.map (Need.derived letterdistId)) ready ∧
        status'.ready = status.ready ++ ready := by
  induction order generalizing status with
  | nil =>
    cases h
    exact ⟨hdispatch, [], .nil, (List.append_nil _).symm⟩
  | cons need order ih =>
    rw [List.foldlM_cons, Option.bind_eq_bind, Option.bind_eq_some_iff] at h
    obtain ⟨status₁, hfirst, hrest⟩ := h
    obtain ⟨hdispatch₁, ready, hready, hend⟩ := ih hrest
    obtain ⟨hdispatch₀, entry, hentry, hstep⟩ := entry_of_addRow hfirst hdispatch₁
    refine ⟨hdispatch₀, entry :: ready, .cons hentry hready, ?_⟩
    rw [hend, hstep, List.append_assoc, List.singleton_append]

end Built

section Invariant

variable {cat : Catalog} {bin : Binary} {s t : State} {j : ℕ}
  {ready : List ExpectedDerived} {job : Job}

/-- The list has an entry for each file that the job needs, in the order that a query would return
them. -/
def Current (cat : Catalog) (bin : Binary) (s : State) (j : ℕ) (ready : List ExpectedDerived) :
    Prop :=
  match cat.jobs.get j with
  | none => ready = []
  | some job => ∃ order, Ordered cat s.inputs job.config order ∧
      List.Forall₂ (Entry bin s.queue.rows) (order.map (Need.derived job.letterdistId)) ready

structure Inv (cat : Catalog) (bin : Binary) (s : State) : Prop where
  valid : Valid cat s.inputs
  cached {j : ℕ} {ready : List ExpectedDerived} : s.cache j = some ready → Current cat bin s j ready
  read {call j : ℕ} {status : DerivedStatus} : s.calls call = some (.read j status) →
    status.dispatchable = true → Current cat bin s j status.ready
  answered {call j : ℕ} {ready : List ExpectedDerived} {fromCache : Bool} :
    s.calls call = some (.answered j (some ready) fromCache) → Current cat bin s j ready

structure Keeps (cat : Catalog) (bin : Binary) (s t : State) : Prop where
  returns (j : ℕ) (order : List Need) : returns cat t.inputs j order = returns cat s.inputs j order
  built {j : ℕ} {job : Job} {need : Need} {row : Row} : cat.jobs.get j = some job →
    need ∈ needs cat s.inputs job.config →
    s.queue.rows.get ((need.derived job.letterdistId).key bin.builders) = some row →
    row.state = .built →
    t.queue.rows.get ((need.derived job.letterdistId).key bin.builders) = some row

theorem returns_of_get (hj : cat.jobs.get j = some job) {inputs : Table ℕ InputFile}
    {order : List Need} : returns cat inputs j order = true ↔
    Ordered cat inputs job.config order := by
  rw [returns, hj, Option.all_some, decide_eq_true_eq]

theorem Current.keep (hc : Current cat bin s j ready) (hk : Keeps cat bin s t) :
    Current cat bin t j ready := by
  rw [Current] at hc ⊢
  cases hj : cat.jobs.get j with
  | none => simpa only [hj] using hc
  | some job =>
    simp only [hj] at hc ⊢
    obtain ⟨order, horder, hentries⟩ := hc
    refine ⟨order, ?_, ?_⟩
    · rw [← returns_of_get hj, hk.returns, returns_of_get hj]
      exact horder
    · have hneeds : ∀ need ∈ order, need ∈ needs cat s.inputs job.config :=
        fun need hneed ↦ horder.perm.mem_iff.1 hneed
      rw [List.forall₂_map_left_iff] at hentries ⊢
      refine ((List.forall₂_and_left ..).2 ⟨hneeds, hentries⟩).imp ?_
      rintro need entry ⟨hneed, row, sha256, hrow, hbuilt, hsha, rfl⟩
      exact ⟨row, sha256, hk.built hj hneed hrow hbuilt, hbuilt, hsha, rfl⟩

theorem Inv.keep (h : Inv cat bin s) (hk : Keeps cat bin s t) (hvalid : Valid cat t.inputs)
    (hcache : t.cache = s.cache) (hcalls : t.calls = s.calls) : Inv cat bin t where
  valid := hvalid
  cached hcached := (h.cached (hcache ▸ hcached)).keep hk
  read hread hdispatch := (h.read (hcalls ▸ hread) hdispatch).keep hk
  answered hanswered := (h.answered (hcalls ▸ hanswered)).keep hk

theorem keeps_of_queue {queue : Derived.State} {a : Derived.Action}
    (hs : Derived.next s.queue a = some queue) :
    Keeps cat bin s { s with queue } :=
  ⟨fun _ _ ↦ rfl, fun _ _ hrow hbuilt ↦ get_of_next_of_built hs hrow hbuilt⟩

theorem keeps_of_delete {id : ℕ} (hid : ¬ pins cat id = true) : Keeps cat bin s
    { s with
      queue := { s.queue with rows := s.queue.rows.filter fun key ↦ ¬ madeFrom id key }
      inputs := s.inputs.filter (· ≠ id) } where
  returns _ order := returns_filter hid order
  built {_ job need _} hj hneed hrow _ := by
    have hnot : ¬ madeFrom id ((need.derived job.letterdistId).key bin.builders) = true :=
      fun h ↦ hid (pins_of_madeFrom hj hneed h)
    rw [Table.get_filter, if_pos (decide_eq_true hnot)]
    exact hrow

theorem Inv.setCall (h : Inv cat bin s) (call : ℕ) (call' : Call)
    (hread : ∀ j status, call' = .read j status → status.dispatchable = true →
      Current cat bin s j status.ready)
    (hanswered : ∀ j ready fromCache, call' = .answered j (some ready) fromCache →
      Current cat bin s j ready) :
    Inv cat bin { s with calls := Function.update s.calls call (some call') } := by
  refine ⟨h.valid, h.cached, fun hcall hdispatch ↦ ?_, fun hcall ↦ ?_⟩
  · obtain ⟨-, rfl⟩ | ⟨-, hcall⟩ := of_update_eq_some hcall
    · exact hread _ _ rfl hdispatch
    · exact h.read hcall hdispatch
  · obtain ⟨-, rfl⟩ | ⟨-, hcall⟩ := of_update_eq_some hcall
    · exact hanswered _ _ _ rfl
    · exact h.answered hcall

theorem current_of_status {status : DerivedStatus} {order : List Need}
    (hreturns : returns cat s.inputs j order = true)
    (hstatus : statusForJob bin s.queue.rows cat j order = some status)
    (hdispatch : status.dispatchable = true) : Current cat bin s j status.ready := by
  rw [Current]
  rw [statusForJob] at hstatus
  cases hj : cat.jobs.get j with
  | none =>
    rw [hj] at hstatus
    cases hstatus
    rfl
  | some job =>
    simp only [hj] at hstatus ⊢
    obtain ⟨-, ready, hready, hend⟩ := entries_of_foldlM hstatus hdispatch
    rw [List.nil_append] at hend
    exact ⟨order, (returns_of_get hj).1 hreturns, hend ▸ hready⟩

theorem Inv.next {a : Action} (h : Inv cat bin s) (hs : next cat bin s a = some t) :
    Inv cat bin t := by
  cases a with
  | queue a =>
    obtain ⟨queue, hqueue, rfl⟩ := Option.map_eq_some_iff.1 hs
    exact h.keep (keeps_of_queue hqueue) h.valid rfl rfl
  | deleteInputData id =>
    obtain ⟨⟨-, hid⟩, hs⟩ := Option.ite_none_right_eq_some.1 hs
    cases hs
    exact h.keep (keeps_of_delete hid) (h.valid.filter hid) rfl rfl
  | ask call j =>
    obtain ⟨-, hs⟩ := Option.ite_none_left_eq_some.1 hs
    cases hs
    cases hcache : s.cache j with
    | none => exact h.setCall _ _ nofun nofun
    | some ready =>
      refine h.setCall _ _ nofun ?_
      rintro _ _ _ ⟨⟩
      exact h.cached hcache
  | statusForJob call order =>
    simp only [Cache.next] at hs
    split at hs
    · next j _ =>
      obtain ⟨hreturns, hs⟩ := Option.ite_none_right_eq_some.1 hs
      obtain ⟨status, hstatus, rfl⟩ := Option.map_eq_some_iff.1 hs
      refine h.setCall _ _ ?_ nofun
      rintro _ _ ⟨⟩ hdispatch
      exact current_of_status hreturns hstatus hdispatch
    · cases hs
  | requestForJob call order =>
    simp only [Cache.next] at hs
    split at hs
    · next j _ _ =>
      obtain ⟨-, hs⟩ := Option.ite_none_right_eq_some.1 hs
      cases hs
      have hrequest : Derived.next s.queue (.request bin.builders (needsForJob cat j order)) =
          some _ := rfl
      exact h.keep (keeps_of_queue hrequest) h.valid rfl rfl
    · cases hs
  | answer call =>
    simp only [Cache.next] at hs
    split at hs
    · next j status hcall =>
      split at hs
      · next hdispatch =>
        cases hs
        have hcurrent := h.read hcall hdispatch
        have hset := h.setCall call (.answered j (some status.ready) false) nofun
          (by rintro _ _ _ ⟨⟩; exact hcurrent)
        refine ⟨hset.valid, fun hcached ↦ ?_, hset.read, hset.answered⟩
        obtain ⟨rfl, rfl⟩ | ⟨-, hcached⟩ := of_update_eq_some hcached
        · exact hcurrent
        · exact h.cached hcached
      · cases hs
        exact h.setCall _ _ nofun nofun
    · cases hs

theorem inv_of_reachable (h : (machine cat bin).Reachable s) : Inv cat bin s := by
  apply h.invariant
  · rintro s ⟨hvalid, hcache, hcalls⟩
    refine ⟨hvalid, fun h ↦ ?_, fun h ↦ ?_, fun h ↦ ?_⟩
    · cases (hcache _).symm.trans h
    · cases (hcalls _).symm.trans h
    · cases (hcalls _).symm.trans h
  · exact fun s a t h _ hs ↦ h.next hs

end Invariant

section Answers

variable {cat : Catalog} {bin : Binary} {s : State} {j : ℕ} {ready : List ExpectedDerived}

theorem Current.exists_returns (hc : Current cat bin s j ready) :
    ∃ order, returns cat s.inputs j order = true := by
  cases hj : cat.jobs.get j with
  | none => exact ⟨[], by rw [returns, hj, Option.all_none]⟩
  | some job =>
    simp only [Current, hj] at hc
    obtain ⟨order, horder, -⟩ := hc
    exact ⟨order, (returns_of_get hj).2 horder⟩

theorem Current.statusForJob (hc : Current cat bin s j ready) (hv : Valid cat s.inputs)
    {order : List Need} (hreturns : returns cat s.inputs j order = true) :
    statusForJob bin s.queue.rows cat j order = some ⟨ready, [], [], 0⟩ := by
  cases hj : cat.jobs.get j with
  | none =>
    simp only [Current, hj] at hc
    rw [Cache.statusForJob, hj, hc]
  | some job =>
    simp only [Current, hj] at hc
    obtain ⟨order', horder', hentries⟩ := hc
    obtain rfl := Ordered.unique hv hj horder' ((returns_of_get hj).1 hreturns)
    simp only [Cache.statusForJob, hj, foldlM_entries hentries, List.nil_append]

theorem Current.entries (hc : Current cat bin s j ready) (hv : Valid cat s.inputs)
    {order : List Need} (hreturns : returns cat s.inputs j order = true) :
    List.Forall₂ (Entry bin s.queue.rows) (needsForJob cat j order) ready := by
  cases hj : cat.jobs.get j with
  | none =>
    simp only [Current, hj] at hc
    rw [needsForJob, hj, hc]
    exact .nil
  | some job =>
    simp only [Current, hj] at hc
    obtain ⟨order', horder', hentries⟩ := hc
    obtain rfl := Ordered.unique hv hj horder' ((returns_of_get hj).1 hreturns)
    simp only [needsForJob, hj]
    exact hentries

/-- Whatever `ready_for_job` has answered, from its cache or not, is what asking afresh would find
in the present state: the job dispatchable, with the same list, which states one built file for
each that the job needs. -/
theorem ready_for_job_current (h : (machine cat bin).Reachable s) {call : ℕ} {fromCache : Bool}
    (hcall : s.calls call = some (.answered j (some ready) fromCache)) :
    (∃ order, returns cat s.inputs j order = true) ∧
    ∀ order, returns cat s.inputs j order = true →
      (∃ status, statusForJob bin s.queue.rows cat j order = some status ∧
        status.dispatchable = true ∧ status.ready = ready) ∧
      List.Forall₂ (Entry bin s.queue.rows) (needsForJob cat j order) ready := by
  have hinv := inv_of_reachable h
  have hcurrent := hinv.answered hcall
  exact ⟨hcurrent.exists_returns, fun order hreturns ↦
    ⟨⟨_, hcurrent.statusForJob hinv.valid hreturns, rfl, rfl⟩,
      hcurrent.entries hinv.valid hreturns⟩⟩

def oneJob : Catalog where
  jobs := Table.empty.put 0 ⟨2, 3, .game 0 0⟩
  players := Table.empty.put 0 ⟨0, 1, none, false, true, false⟩
  pools := []
  collation := ⟨fun a b ↦ a.toList.map Char.toNat ≤ b.toList.map Char.toNat, by
    intro a b hab hba
    have heq := le_antisymm (of_decide_eq_true hab) (of_decide_eq_true hba)
    exact String.toList_injective (List.map_injective_iff.2 (fun _ _ ↦ Char.toNat_inj.1) heq)⟩

def releasedFiles : Table ℕ InputFile :=
  Table.empty.putAll [(0, ⟨.kwg, "CSW24", "a0"⟩), (1, ⟨.klv, "CSW24", "a1"⟩),
    (2, ⟨.letterdist, "english", "a2"⟩), (3, ⟨.layout, "standard15", "a3"⟩),
    (4, ⟨.kwg, "CSW21", "a4"⟩)]

theorem valid_releasedFiles : Valid oneJob releasedFiles := by
  have hnames : ∀ p ∈ releasedFiles.rows, p.2.name.toList.all nameByte = true := by decide
  have hunique : ∀ p ∈ releasedFiles.rows, ∀ q ∈ releasedFiles.rows, p.2 = q.2 →
      p.1 = q.1 := by decide
  have honeName : ∀ p ∈ releasedFiles.rows, ∀ q ∈ releasedFiles.rows, p.2.role = q.2.role →
      p.2.name = q.2.name → p.2.sha256 = q.2.sha256 := by decide
  have hroles : ∀ q ∈ oneJob.players.rows, ∀ p ∈ releasedFiles.rows,
      (p.1 = q.2.kwgId → p.2.role = .kwg) ∧ (p.1 = q.2.klvId → p.2.role = .klv) := by decide
  constructor
  · intro id hpins
    rw [pins, decide_eq_true_eq] at hpins
    have hid : id = 0 ∨ id = 1 ∨ id = 2 ∨ id = 3 := by
      simp [oneJob, Table.put, Table.empty] at hpins
      omega
    rcases hid with rfl | rfl | rfl | rfl <;> decide
  · exact fun hp hfile ↦ (hroles _ (Table.mem_rows.2 hp) _ (Table.mem_rows.2 hfile)).1 rfl
  · exact fun hp hfile ↦ (hroles _ (Table.mem_rows.2 hp) _ (Table.mem_rows.2 hfile)).2 rfl
  · exact fun hfile ↦ hnames _ (Table.mem_rows.2 hfile)
  · exact fun hfile hfile' ↦ hunique _ (Table.mem_rows.2 hfile) _ (Table.mem_rows.2 hfile') rfl
  · exact fun _ _ _ hfile hfile' ↦ honeName _ (Table.mem_rows.2 hfile) _ (Table.mem_rows.2 hfile')

/-- The rack info table and the wordmap that it is built from are built, and a file that nothing
pins is deleted, before a call is answered from the cache. -/
theorem exists_ready_for_job_current : ∃ (s : State) (ready : List ExpectedDerived),
    (machine oneJob ⟨⟨1, 1, 1⟩, "nehalem"⟩).Reachable s ∧ ready.length = 2 ∧
    s.calls 2 = some (.answered 0 (some ready) true) ∧
    (∃ order, returns oneJob s.inputs 0 order = true) ∧
    ∀ order, returns oneJob s.inputs 0 order = true →
      (∃ status, statusForJob ⟨⟨1, 1, 1⟩, "nehalem"⟩ s.queue.rows oneJob 0 order = some status ∧
        status.dispatchable = true ∧ status.ready = ready) ∧
      List.Forall₂ (Entry ⟨⟨1, 1, 1⟩, "nehalem"⟩ s.queue.rows)
      (needsForJob oneJob 0 order) ready := by
  let bin : Binary := ⟨⟨1, 1, 1⟩, "nehalem"⟩
  let order : List Need := [⟨.rit, "CSW24.CSW24", 0, some 1⟩, ⟨.wmp, "CSW24", 0, none⟩]
  let ready : List ExpectedDerived :=
    [⟨.rit, "CSW24.CSW24", "5f", bin.builders.forRole .rit, "nehalem", 179⟩,
      ⟨.wmp, "CSW24", "6e", bin.builders.forRole .wmp, "nehalem", 1900⟩]
  have hstart : (machine oneJob bin).Reachable
      ⟨⟨0, Table.empty, fun _ ↦ none, fun _ ↦ 0⟩, releasedFiles, fun _ ↦ none, fun _ ↦ none⟩ :=
    .start ⟨valid_releasedFiles, fun _ ↦ rfl, fun _ ↦ rfl⟩
  obtain ⟨s, hs, hp⟩ := hstart.follow_any
    [.ask 0 0, .statusForJob 0 order, .requestForJob 0 order, .answer 0,
      .queue (.take 0 bin.builders []), .queue (.take 1 bin.builders []),
      .queue (.succeed 1 "5f" 179 "nehalem"), .queue (.succeed 0 "6e" 1900 "nehalem"),
      .ask 1 0, .statusForJob 1 order, .answer 1, .deleteInputData 4, .ask 2 0]
    (fun s ↦ s.calls 2 = some (.answered 0 (some ready) true)) (by decide +kernel)
  have hcall := of_decide_eq_true hp
  exact ⟨s, ready, hs, rfl, hcall, ready_for_job_current hs hcall⟩

end Answers

end Birdtest.Derived.Cache
