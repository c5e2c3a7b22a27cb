import Birdtest.Admin.Creation

namespace Birdtest.Admin.Catalog

open Birdtest.Base Birdtest.Base.Checked Birdtest.Base.Runs Birdtest.Base.Tables
  Birdtest.Base.Registries
open Birdtest.Admin.Solvers hiding CreatePlayerConfigBody
open Birdtest.Admin.Players hiding Accepted
open Birdtest.Admin.Jobs Birdtest.Admin.Loadable Birdtest.Admin.Creation
open Birdtest.Inputdata (nameByte)
open Birdtest.Jobs
open Birdtest.Jobs.Racks (Quoted Text)

section Facts

structure Usable (files : ℕ → Option InputData) (letterdistId layoutId : ℕ) (letterdist : InputData)
    (distribution : Racks.LetterDistribution) : Prop where
  found : files letterdistId = some letterdist
  role : letterdist.role = .letterdist
  parsed : Racks.parse (bytesOf letterdist) letterdist.name = .ok distribution
  board : ∃ layout, files layoutId = some layout ∧ layout.role = .layout ∧
    Board.layoutProblem (bytesOf layout).data.toList = none

structure PlayerOk (files : ℕ → Option InputData) (row : PlayerConfig) : Prop where
  pinned : ∃ kwg klv, files row.kwgId = some kwg ∧ kwg.role = .kwg ∧ files row.klvId = some klv ∧
    klv.role = .klv ∧
    Compat.lexLexCompat kwg.name.toList klv.name.toList = true
  winpct : ∀ id ∈ row.winpctId, ∃ file, files id = some file ∧ file.role = .winpct
  checks : ∀ t ∈ checks row, Sql.check t

structure Accepted (reads : Reads) (checked : CheckedJob) : Prop where
  valid : ValidBody checked.body
  floor : 0 ≤ checked.floor.major ∧ 0 ≤ checked.floor.minor ∧ 0 ≤ checked.floor.patch
  usable : ∃ letterdist distribution,
    Usable reads.files checked.body.letterdistId checked.body.layoutId letterdist distribution ∧
      checked.letterdistName = letterdist.name.toList ∧ checked.blanks = blanksOf distribution
  meet : ∀ plan ∈ checked.planned, ∀ pair ∈ plan.pair,
    Meet reads checked.letterdistName (capturesPositions checked.body.config) pair.1 pair.2
  pairs : ∀ plan ∈ checked.planned, plan.pair.isSome → checked.body.config.playerConfigIds.isSome

def RequestOk (reads : Reads) : Request → Prop
  | .player row => PlayerOk reads.files row
  | .pool body => (trim body.name).length ≤ 100 ∧ body.variant ∈ ["classic", "wordsmog"] ∧
    ∃ letterdist distribution,
      Usable reads.files body.letterdistId body.layoutId letterdist distribution
  | .jobs checked => Accepted reads checked

structure PoolOk (reads : Reads) (pool : Pool) : Prop where
  name : pool.name.length ≤ 100
  variant : pool.variant ∈ ["classic", "wordsmog"]
  usable : ∃ letterdist distribution,
    Usable reads.files pool.letterdistId pool.layoutId letterdist distribution
  anchor : pool.anchorPlayerConfigId ∈ pool.members
  members : ∀ id ∈ pool.members, (reads.players id).isSome

/-- The racks that a job goes through, which its distribution gives. -/
def Enumerates (distribution : Racks.LetterDistribution) : ConfigRow → Prop
  | .openingRack row => ∃ index, Racks.RackIndex.new distribution row.rackSize.toNat = .ok index ∧
    row.totalRacks = OpeningRack.Requests.totalRacks index
  | .leave _ => ∃ index, Racks.RackIndex.new distribution Racks.rackSize = .ok index
  | _ => True

def loadsOf : ConfigRow → PlayerConfig → List ℕ
  | .leave _, player => [player.kwgId]
  | _, player => filesOf player

def loadedFiles (reads : Reads) (job : Job) : List ℕ :=
  [job.row.letterdistId, job.row.layoutId] ++
    ((playersOf job.config).filterMap reads.players).flatMap (loadsOf job.config)

def OneName (reads : Reads) (job : Job) : Prop :=
  ∀ id ∈ loadedFiles reads job, ∀ id' ∈ loadedFiles reads job, ∀ file file',
    reads.files id = some file →
    reads.files id' = some file' → file.role = file'.role → file.name = file'.name →
    file.sha256 = file'.sha256

def Wordless (reads : Reads) (config : ConfigRow) : Prop :=
  ∀ id ∈ playersOf config, ∀ player, reads.players id = some player →
    player.useWordmap = false ∧ player.useRit = false

def Simulates (reads : Reads) (config : ConfigRow) : Prop :=
  ∀ id ∈ playersOf config, ∀ player, reads.players id = some player →
    (0 < player.numPlies → player.winpctId.isSome) ∧
    ∀ fileId ∈ player.winpctId, ∃ file, reads.files fileId = some file ∧ file.role = .winpct

/-- A job whose tasks every worker can load and play. -/
structure Dispatchable (reads : Reads) (job : Job) : Prop where
  jobType : job.config.jobType = job.row.jobType
  usable : ∃ letterdist distribution,
    Usable reads.files job.row.letterdistId job.row.layoutId letterdist distribution ∧
      Enumerates distribution job.config ∧ ConfigLoads reads letterdist.name.toList job.config ∧
      (magpieMaxWordmapBlanks < blanksOf distribution → Wordless reads job.config)
  winpct : Simulates reads job.config
  oneName : OneName reads job

structure JobOk (reads : Reads) (job : Job) : Prop extends Dispatchable reads job where
  rowChecks : ∀ t ∈ job.row.checks, Sql.check t
  configChecks : ∀ t ∈ job.config.checks, Sql.check t

end Facts

section Grows

structure Grows (reads reads' : Reads) : Prop where
  players : ∀ id player, reads.players id = some player → reads'.players id = some player
  files : ∀ id file, reads.files id = some file → reads'.files id = some file

variable {reads reads' : Reads} {files files' : ℕ → Option InputData} {letterdistId layoutId : ℕ}
  {letterdist : InputData} {distribution : Racks.LetterDistribution} {row : PlayerConfig}
  {checked : CheckedJob} {request : Request} {pool : Pool}

theorem Usable.of_files (h : Usable files letterdistId layoutId letterdist distribution)
    (hletterdist : ∀ file, files letterdistId = some file → files' letterdistId = some file)
    (hlayout : ∀ file, files layoutId = some file → files' layoutId = some file) :
    Usable files' letterdistId layoutId letterdist distribution := by
  obtain ⟨layout, hfile, hrest⟩ := h.board
  exact ⟨hletterdist _ h.found, h.role, h.parsed, layout, hlayout _ hfile, hrest⟩

theorem PlayerOk.grow (h : PlayerOk files row)
    (hgrow : ∀ id file, files id = some file → files' id = some file) :
    PlayerOk files' row := by
  obtain ⟨kwg, klv, hkwg, hkwgRole, hklv, hrest⟩ := h.pinned
  refine ⟨⟨kwg, klv, hgrow _ _ hkwg, hkwgRole, hgrow _ _ hklv, hrest⟩, fun id hid ↦ ?_, h.checks⟩
  obtain ⟨file, hfile, hrole⟩ := h.winpct id hid
  exact ⟨file, hgrow _ _ hfile, hrole⟩

theorem Accepted.grow (h : Accepted reads checked) (hgrow : Grows reads reads') :
    Accepted reads' checked := by
  obtain ⟨letterdist, distribution, husable, hrest⟩ := h.usable
  refine ⟨h.valid, h.floor, ⟨letterdist, distribution, ?_, hrest⟩, fun plan hplan pair hpair ↦
    ?_, h.pairs⟩
  · exact husable.of_files (hgrow.files _) (hgrow.files _)
  · have hkeeps := Keeps.of_le hgrow.players hgrow.files [pair.1, pair.2]
    exact (h.meet plan hplan pair hpair).keep hkeeps List.mem_cons_self
      (List.mem_cons_of_mem _ List.mem_cons_self)

theorem RequestOk.grow (h : RequestOk reads request) (hgrow : Grows reads reads') :
    RequestOk reads' request := by
  cases request with
  | player row => exact PlayerOk.grow h hgrow.files
  | pool body =>
    obtain ⟨hname, hvariant, letterdist, distribution, husable⟩ := h
    exact ⟨hname, hvariant, letterdist, distribution,
      husable.of_files (hgrow.files _) (hgrow.files _)⟩
  | jobs checked => exact Accepted.grow h hgrow

end Grows

section Checks

variable {reads : Reads} {files : ℕ → Option InputData} {quoted : Quoted} {serverFloor : Text}
  {playerBody : Players.CreatePlayerConfigBody} {poolBody : CreatePoolBody} {body : CreateJobBody}
  {row : PlayerConfig} {checked : CheckedJob} {plan : PlannedJob} {letterdist : InputData}
  {check : ℕ × ℕ → Except BadRequest Unit}

theorem playerOk_of_createPlayerConfig (h : createPlayerConfig files quoted playerBody = .ok row) :
    PlayerOk files row := by
  have hchecks := check_of_createPlayerConfig h
  have haccepted := accepted_of_createPlayerConfig h
  obtain ⟨solver, -, rfl⟩ := haccepted.solver
  exact ⟨haccepted.pinned, haccepted.winpct, hchecks⟩

theorem length_of_poolNameFields {name : Text} (h : poolNameFields name = []) :
    (trim name).length ≤ 100 := by
  rw [poolNameFields] at h
  split_ifs at h
  apply length_of_nameProblem
  cases hproblem : nameProblem (trim name) with
  | none => rfl
  | some problem =>
    rw [hproblem] at h
    cases h

theorem requestOk_of_createPool (h : createPool quoted reads.files poolBody = .ok ()) :
    RequestOk reads (.pool poolBody) := by
  rw [createPool] at h
  obtain ⟨⟨⟩, hfields, h⟩ := bind_eq_ok h
  obtain ⟨letterdist, hletterdist, h⟩ := bind_eq_ok h
  obtain ⟨layout, hlayout, h⟩ := bind_eq_ok h
  obtain ⟨distribution, hparse, h⟩ := bind_eq_ok h
  rw [refuseFields_eq_ok, List.append_eq_nil_iff, List.append_eq_nil_iff, refuse_eq_nil,
    not_not] at hfields
  rw [requireRole_eq_ok] at hletterdist hlayout
  split at h
  · cases h
  next hproblem =>
  exact ⟨length_of_poolNameFields hfields.1.1, hfields.1.2, letterdist, distribution, hletterdist.1,
    hletterdist.2, of_mapError_eq_ok hparse, layout, hlayout.1, hlayout.2, hproblem⟩

theorem of_qualified (h : qualified plan check = .ok ()) :
    ∀ pair ∈ plan.pair, check pair = .ok () := by
  intro pair hpair
  rw [qualified, Option.mem_def.1 hpair] at h
  exact of_mapError_eq_ok h

theorem pairs_of_planJobs {names : ℕ → Option Text} {planned : List PlannedJob}
    (h : planJobs names body = .ok planned) : ∀ plan ∈ planned, plan.pair.isSome →
    body.config.playerConfigIds.isSome := by
  intro plan hplan hpair
  cases hids : body.config.playerConfigIds with
  | some ids => rfl
  | none =>
    rw [planJobs, pairings, hids, if_pos rfl] at h
    cases h
    rw [List.mem_singleton.1 hplan] at hpair
    cases hpair

theorem accepted_of_checkJob (h : checkJob reads quoted serverFloor body = .ok checked) :
    Accepted reads checked := by
  rw [checkJob] at h
  obtain ⟨⟨⟩, hfields, h⟩ := bind_eq_ok h
  obtain ⟨letterdist, hletterdist, h⟩ := bind_eq_ok h
  obtain ⟨layout, hlayout, h⟩ := bind_eq_ok h
  rw [requireRole_eq_ok] at hletterdist hlayout
  split at h
  · cases h
  next hproblem =>
  obtain ⟨distribution, hparse, h⟩ := bind_eq_ok h
  obtain ⟨planned, hplanned, h⟩ := bind_eq_ok h
  obtain ⟨⟨⟩, heach, h⟩ := bind_eq_ok h
  cases h
  refine ⟨validBody_of_validate (refuseFields_eq_ok.1 hfields),
    Version.parseOrZero_nonneg _, ?_, ?_, pairs_of_planJobs hplanned⟩
  · exact ⟨letterdist, distribution,
      ⟨hletterdist.1, hletterdist.2, of_mapError_eq_ok hparse, layout, hlayout.1,
      hlayout.2, hproblem⟩, rfl, rfl⟩
  · intro plan hplan pair hpair
    exact meet_of_validatePairing (of_qualified (each_eq_ok.1 heach plan hplan) pair hpair)

end Checks

section References

variable {collation : Derived.Cache.Collation} {s t : State} {j id p : ℕ} {job : Job} {pool : Pool}
  {player : PlayerConfig} {unseen : List ℕ}

theorem grows_view : Grows (s.view unseen) s.written :=
  ⟨fun _ _ h ↦ Registry.log_of_view h, fun _ _ h ↦ Registry.log_of_view h⟩

def Pinned (s : State) (id : ℕ) : Prop :=
  (∃ j job, s.jobs.get j = some job ∧ (id = job.row.letterdistId ∨ id = job.row.layoutId)) ∨
  (∃ p player, s.players.get p = some player ∧ id ∈ filesOf player) ∨
  ∃ p pool, s.pools.get p = some pool ∧ (id = pool.letterdistId ∨ id = pool.layoutId)

theorem pinned_of_job (hj : s.jobs.get j = some job)
    (hid : id = job.row.letterdistId ∨ id = job.row.layoutId) :
    Pinned s id := .inl ⟨j, job, hj, hid⟩

theorem pinned_of_player (hp : s.players.get p = some player) (hid : id ∈ filesOf player) :
    Pinned s id :=
  .inr (.inl ⟨p, player, hp, hid⟩)

theorem pinned_of_pool (hp : s.pools.get p = some pool)
    (hid : id = pool.letterdistId ∨ id = pool.layoutId) :
    Pinned s id := .inr (.inr ⟨p, pool, hp, hid⟩)

theorem pins_iff : Derived.Cache.pins (catalog collation s) id = true ↔ Pinned s id := by
  rw [Derived.Cache.pins, decide_eq_true_eq, List.any_eq_true, List.any_eq_true,
    List.any_eq_true, Pinned]
  refine or_congr ⟨?_, ?_⟩ (or_congr ⟨?_, ?_⟩ ⟨?_, ?_⟩)
  · rintro ⟨⟨j, cached⟩, hmem, hid⟩
    rw [Table.mem_rows, catalog, Table.get_select, Option.map_eq_some_iff] at hmem
    obtain ⟨job, hjob, rfl⟩ := hmem
    exact ⟨j, job, hjob, (of_decide_eq_true hid).imp Eq.symm Eq.symm⟩
  · rintro ⟨j, job, hjob, hid⟩
    refine ⟨(j, job.cached), ?_, decide_eq_true (hid.imp Eq.symm Eq.symm)⟩
    rw [Table.mem_rows, catalog, Table.get_select, hjob]
    rfl
  · rintro ⟨⟨p, cached⟩, hmem, hid⟩
    rw [Table.mem_rows, catalog, Table.get_select, Option.map_eq_some_iff] at hmem
    obtain ⟨player, hplayer, rfl⟩ := hmem
    refine ⟨p, player, hplayer, ?_⟩
    have hfile := of_decide_eq_true hid
    simpa [filesOf, cachedPlayer, or_assoc, eq_comm] using hfile
  · rintro ⟨p, player, hplayer, hid⟩
    refine ⟨(p, cachedPlayer player), ?_, ?_⟩
    · rw [Table.mem_rows, catalog, Table.get_select]
      exact congrArg (Option.map cachedPlayer) hplayer
    · rw [decide_eq_true_eq]
      simpa [filesOf, cachedPlayer, or_assoc, eq_comm] using hid
  · rintro ⟨cached, hmem, hid⟩
    obtain ⟨⟨p, pool⟩, hpool, rfl⟩ := List.mem_map.1 hmem
    exact ⟨p, pool, Table.mem_rows.1 hpool, (of_decide_eq_true hid).imp Eq.symm Eq.symm⟩
  · rintro ⟨p, pool, hpool, hid⟩
    exact ⟨⟨pool.letterdistId, pool.layoutId⟩,
      List.mem_map.2 ⟨(p, pool), Table.mem_rows.2 hpool, rfl⟩,
      decide_eq_true (hid.imp Eq.symm Eq.symm)⟩

theorem references_of_job (hj : s.jobs.get j = some job) (hid : id ∈ playersOf job.config) :
    references s id = true := by
  rw [references, Bool.or_eq_true, Bool.or_eq_true]
  exact .inl (.inl (List.any_eq_true.2 ⟨(j, job), Table.mem_rows.2 hj, decide_eq_true hid⟩))

theorem references_of_pool (hp : s.pools.get p = some pool) (hid : id ∈ pool.members) :
    references s id = true := by
  rw [references, Bool.or_eq_true, Bool.or_eq_true]
  exact .inl (.inr (List.any_eq_true.2 ⟨(p, pool), Table.mem_rows.2 hp, decide_eq_true (.inr hid)⟩))

theorem found_of_configLoads {reads : Reads} {ldName : Text} {row : ConfigRow}
    (h : ConfigLoads reads ldName row) :
    ∀ id ∈ playersOf row, (reads.players id).isSome := by
  have hmeet {capture : Bool} {id₁ id₂ : ℕ} (h : Meet reads ldName capture id₁ id₂) :
      ∀ id ∈ [id₁, id₂], (reads.players id).isSome := by
    obtain ⟨player₁, player₂, h₁, h₂, -⟩ := h
    simp [h₁.found, h₂.found]
  cases row with
  | openingRack row =>
    obtain ⟨player, hplayer, -⟩ := h
    simp [playersOf, hplayer.found]
  | game row => exact hmeet h.1
  | gamePair row => exact hmeet h
  | leave row =>
    obtain ⟨player, kwg, hplayer, -⟩ := h
    simp [playersOf, hplayer]

end References

section Retains

variable {s t : State} {reads reads' : Reads} {job : Job}

structure Same (reads reads' : Reads) (job : Job) : Prop where
  players : ∀ id ∈ playersOf job.config, reads'.players id = reads.players id
  files : ∀ id ∈ loadedFiles reads job, reads'.files id = reads.files id
  pinned : ∀ id ∈ playersOf job.config, ∀ player, reads.players id = some player →
    ∀ fileId ∈ filesOf player, reads'.files fileId = reads.files fileId

theorem mem_filesOf_of_winpct {player : PlayerConfig} {fileId : ℕ} (h : fileId ∈ player.winpctId) :
    fileId ∈ filesOf player :=
  List.mem_append_right _ (Option.mem_toList.2 h)

theorem Same.loadedFiles_eq (h : Same reads reads' job) :
    loadedFiles reads' job = loadedFiles reads job := by
  rw [loadedFiles, loadedFiles, List.filterMap_congr h.players]

theorem JobOk.same (h : JobOk reads job) (hsame : Same reads reads' job) : JobOk reads' job := by
  obtain ⟨letterdist, distribution, husable, hracks, hloads, hwordless⟩ := h.usable
  refine ⟨⟨h.jobType, ⟨letterdist, distribution, ?_, hracks, ?_,
    fun hblanks id hid player hplayer ↦ ?_⟩, fun id hid player hplayer ↦ ?_, ?_⟩, h.rowChecks,
    h.configChecks⟩
  · refine husable.of_files (fun file hfile ↦ ?_) fun file hfile ↦ ?_
    · rwa [hsame.files _ (by simp [loadedFiles])]
    · rwa [hsame.files _ (by simp [loadedFiles])]
  · refine hloads.keep fun id hid player hplayer ↦
      ⟨(hsame.players id hid).trans hplayer, fun fileId hfile file h ↦ ?_⟩
    exact (hsame.pinned id hid player hplayer fileId hfile).trans h
  · exact hwordless hblanks id hid player ((hsame.players id hid).symm.trans hplayer)
  · have hbefore := (hsame.players id hid).symm.trans hplayer
    obtain ⟨hstated, hfiles⟩ := h.winpct id hid player hbefore
    refine ⟨hstated, fun fileId hfile ↦ ?_⟩
    obtain ⟨file, hfound, hrole⟩ := hfiles fileId hfile
    exact ⟨file,
      (hsame.pinned id hid player hbefore fileId (mem_filesOf_of_winpct hfile)).trans hfound,
      hrole⟩
  · intro id hid id' hid' file file' hfile hfile'
    rw [hsame.loadedFiles_eq] at hid hid'
    rw [hsame.files id hid] at hfile
    rw [hsame.files id' hid'] at hfile'
    exact h.oneName id hid id' hid' file file' hfile hfile'

/-- What holds of every store that requests can leave, however they interleave. -/
structure Inv (s : State) : Prop where
  name {id : ℕ} {file : InputData} : s.inputs.log.get id = some file →
    file.name.toList.all nameByte = true
  unique {id id' : ℕ} {file file' : InputData} : s.inputs.get id = some file →
    s.inputs.get id' = some file' →
    file.toInputFile = file'.toInputFile → id = id'
  player {id : ℕ} {row : PlayerConfig} : s.players.log.get id = some row →
    PlayerOk s.written.files row
  pinned {id : ℕ} {row : PlayerConfig} : s.players.get id = some row →
    ∀ fileId ∈ filesOf row, (s.inputs.get fileId).isSome
  request {call : ℕ} {request : Request} : s.requests call = some request →
    RequestOk s.written request
  pool {id : ℕ} {pool : Pool} : s.pools.get id = some pool → PoolOk s.reads pool
  job {j : ℕ} {job : Job} : s.jobs.get j = some job → JobOk s.reads job

/-- Nothing is taken away that something refers to, and nothing that was written is written over. -/
structure Retains (s t : State) : Prop where
  files {id : ℕ} {file : InputData} : Pinned s id → s.inputs.get id = some file →
    t.inputs.get id = some file
  players {id : ℕ} {player : PlayerConfig} : references s id = true →
    s.players.get id = some player →
    t.players.get id = some player
  written : Grows s.written t.written

variable {j id : ℕ} {pool : Pool}

theorem mem_filesOf_of_loadsOf {config : ConfigRow} {player : PlayerConfig}
    (h : id ∈ loadsOf config player) :
    id ∈ filesOf player := by
  cases config with
  | leave row =>
    rw [List.mem_singleton.1 h]
    exact List.mem_cons_self
  | _ => exact h

theorem mem_loadedFiles : id ∈ loadedFiles reads job ↔
    (id = job.row.letterdistId ∨ id = job.row.layoutId) ∨
    ∃ playerId ∈ playersOf job.config, ∃ player, reads.players playerId = some player ∧
      id ∈ loadsOf job.config player := by
  simp only [loadedFiles, List.mem_append, List.mem_cons, List.not_mem_nil, or_false,
    List.mem_flatMap, List.mem_filterMap]
  refine or_congr Iff.rfl ⟨?_, ?_⟩
  · rintro ⟨player, ⟨playerId, hid, hplayer⟩, hfile⟩
    exact ⟨playerId, hid, player, hplayer, hfile⟩
  · rintro ⟨playerId, hid, player, hplayer, hfile⟩
    exact ⟨player, ⟨playerId, hid, hplayer⟩, hfile⟩

theorem Retains.files_eq (hr : Retains s t) (hpins : Pinned s id)
    (hlive : (s.inputs.get id).isSome) : t.inputs.get id = s.inputs.get id := by
  obtain ⟨file, hfile⟩ := Option.isSome_iff_exists.1 hlive
  rw [hfile, hr.files hpins hfile]

theorem Inv.same (h : Inv s) (hr : Retains s t) (hj : s.jobs.get j = some job) :
    Same s.reads t.reads job := by
  obtain ⟨letterdist, distribution, husable, -, hloads, -⟩ := (h.job hj).usable
  obtain ⟨layout, hlayout, -⟩ := husable.board
  have hpinned (id : ℕ) (hid : id ∈ playersOf job.config) (player : PlayerConfig)
      (hplayer : s.reads.players id = some player) (fileId : ℕ) (hfile : fileId ∈ filesOf player) :
      t.reads.files fileId = s.reads.files fileId :=
    hr.files_eq (pinned_of_player hplayer hfile) (h.pinned hplayer fileId hfile)
  refine ⟨fun id hid ↦ ?_, fun id hid ↦ ?_, hpinned⟩
  · obtain ⟨player, hplayer⟩ := Option.isSome_iff_exists.1 (found_of_configLoads hloads id hid)
    exact (hr.players (references_of_job hj hid) hplayer).trans hplayer.symm
  · obtain hown | ⟨playerId, hplayerId, player, hplayer, hfile⟩ := mem_loadedFiles.1 hid
    · refine hr.files_eq (pinned_of_job hj hown) ?_
      rcases hown with rfl | rfl
      · exact Option.isSome_of_eq_some husable.found
      · exact Option.isSome_of_eq_some hlayout
    · exact hpinned playerId hplayerId player hplayer id (mem_filesOf_of_loadsOf hfile)

theorem Inv.poolOk (h : Inv s) (hr : Retains s t) (hp : s.pools.get id = some pool) :
    PoolOk t.reads pool := by
  have hpool := h.pool hp
  obtain ⟨letterdist, distribution, husable⟩ := hpool.usable
  refine ⟨hpool.name, hpool.variant, ⟨letterdist, distribution, ?_⟩, hpool.anchor,
    fun member hmember ↦ ?_⟩
  · exact husable.of_files (fun file ↦ hr.files (pinned_of_pool hp (.inl rfl)))
      fun file ↦ hr.files (pinned_of_pool hp (.inr rfl))
  · obtain ⟨player, hplayer⟩ := Option.isSome_iff_exists.1 (hpool.members member hmember)
    exact Option.isSome_of_eq_some (hr.players (references_of_pool hp hmember) hplayer)

theorem Inv.retain (h : Inv s) (hr : Retains s t)
    (hname : ∀ id file, t.inputs.log.get id = some file → file.name.toList.all nameByte = true)
    (hunique : ∀ id id' file file', t.inputs.get id = some file → t.inputs.get id' = some file' →
      file.toInputFile = file'.toInputFile → id = id')
    (hplayer : ∀ id row, t.players.log.get id = some row → PlayerOk t.written.files row)
    (hpinned : ∀ id row, t.players.get id = some row → ∀ fileId ∈ filesOf row,
      (t.inputs.get fileId).isSome)
    (hrequests : t.requests = s.requests) (hpools : t.pools = s.pools) (hjobs : t.jobs = s.jobs) :
    Inv t where
  name := hname _ _
  unique := hunique _ _ _ _
  player := hplayer _ _
  pinned := hpinned _ _
  request hrequest := (h.request (hrequests ▸ hrequest)).grow hr.written
  pool hpool := h.poolOk hr (hpools ▸ hpool)
  job hjob := (h.job (hjobs ▸ hjob)).same (h.same hr (hjobs ▸ hjob))

theorem Inv.change (h : Inv s) (hinputs : t.inputs = s.inputs) (hplayers : t.players = s.players)
    (hrequest : ∀ call request, t.requests call = some request → RequestOk s.written request)
    (hpool : ∀ id pool, t.pools.get id = some pool → PoolOk s.reads pool)
    (hjob : ∀ j job, t.jobs.get j = some job → JobOk s.reads job) : Inv t := by
  obtain ⟨inputs, players, pools, jobs, requests⟩ := t
  cases hinputs
  cases hplayers
  exact ⟨h.name, h.unique, h.player, h.pinned, hrequest _ _, hpool _ _, hjob _ _⟩

end Retains

section Steps

variable {collation : Derived.Cache.Collation} {quoted : Quoted} {s t : State} {id call : ℕ}
  {file : InputData} {row : PlayerConfig} {request : Request} {checked : CheckedJob}
  {plan : PlannedJob} {pool : Pool} {body : CreatePoolBody} {job : Job}

theorem Inv.importFile (h : Inv s) (hfresh : s.inputs.log.get id = none)
    (himport : importable s file = true) :
    Inv { s with inputs := s.inputs.insert id file } := by
  obtain ⟨hname, -, hnew⟩ := of_decide_eq_true himport
  have hwritten : s.inputs.Extends (s.inputs.insert id file) := Registry.extends_insert hfresh
  have hr : Retains s { s with inputs := s.inputs.insert id file } :=
    ⟨fun _ hfile ↦ Registry.get_insert_of_get hfresh hfile, fun _ hplayer ↦ hplayer,
      fun _ _ hplayer ↦ hplayer, hwritten⟩
  have hnot (id' : ℕ) (file' : InputData) (hfile' : s.inputs.get id' = some file') :
      file'.toInputFile ≠ file.toInputFile := hnew (id', file') (Table.mem_rows.2 hfile')
  refine h.retain hr (fun id' file' hfile' ↦ ?_) (fun id₁ id₂ file₁ file₂ h₁ h₂ heq ↦ ?_)
    (fun _ _ hrow ↦ (h.player hrow).grow hwritten) (fun _ _ hrow fileId hfile ↦ ?_) rfl rfl rfl
  · by_cases hid : id' = id
    · subst hid
      cases Table.get_put_self.symm.trans hfile'
      exact hname
    · exact h.name ((Table.get_put_of_ne hid).symm.trans hfile')
  · obtain ⟨hid₁, hfile₁⟩ | h₁ := Registry.of_get_insert h₁
    · obtain ⟨hid₂, -⟩ | h₂ := Registry.of_get_insert h₂
      · exact hid₁.trans hid₂.symm
      · exact absurd (heq.symm.trans (congrArg InputData.toInputFile hfile₁)) (hnot id₂ file₂ h₂)
    · obtain ⟨-, hfile₂⟩ | h₂ := Registry.of_get_insert h₂
      · exact absurd (heq.trans (congrArg InputData.toInputFile hfile₂)) (hnot id₁ file₁ h₁)
      · exact h.unique h₁ h₂ heq
  · obtain ⟨found, hfound⟩ := Option.isSome_iff_exists.1 (h.pinned hrow fileId hfile)
    exact Option.isSome_of_eq_some (Registry.get_insert_of_get hfresh hfound)

theorem Inv.deleteInputData (h : Inv s) (hpins : ¬ Pinned s id) :
    Inv { s with inputs := s.inputs.delete id } := by
  have hkept {fileId : ℕ} (hfile : Pinned s fileId) :
      (s.inputs.delete id).get fileId = s.inputs.get fileId :=
    Registry.get_delete_of_ne fun heq ↦ hpins (heq ▸ hfile)
  have hr : Retains s { s with inputs := s.inputs.delete id } :=
    ⟨fun hfile hget ↦ (hkept hfile).trans hget, fun _ hplayer ↦ hplayer, fun _ _ hplayer ↦ hplayer,
      Registry.extends_delete⟩
  refine h.retain hr (fun _ _ ↦ h.name) (fun _ _ _ _ h₁ h₂ ↦ ?_) (fun _ _ ↦ h.player)
    (fun _ _ hrow fileId hfile ↦ ?_) rfl rfl rfl
  · exact h.unique (Registry.of_get_delete h₁).2 (Registry.of_get_delete h₂).2
  · rw [hkept (pinned_of_player hrow hfile)]
    exact h.pinned hrow fileId hfile

theorem Inv.insertPlayerConfig (h : Inv s) (hfresh : s.players.log.get id = none)
    (hrow : PlayerOk s.written.files row)
    (hlive : ∀ fileId ∈ filesOf row, (s.inputs.get fileId).isSome) :
    Inv { s with players := s.players.insert id row } := by
  have hr : Retains s { s with players := s.players.insert id row } :=
    ⟨fun _ hfile ↦ hfile, fun _ hplayer ↦ Registry.get_insert_of_get hfresh hplayer,
      Registry.extends_insert hfresh, fun _ _ hfile ↦ hfile⟩
  refine h.retain hr (fun _ _ ↦ h.name) (fun _ _ _ _ ↦ h.unique) (fun id' row' hrow' ↦ ?_)
    (fun id' row' hrow' ↦ ?_) rfl rfl rfl
  · by_cases hid : id' = id
    · subst hid
      cases Table.get_put_self.symm.trans hrow'
      exact hrow
    · exact h.player ((Table.get_put_of_ne hid).symm.trans hrow')
  · obtain ⟨-, rfl⟩ | hrow' := Registry.of_get_insert hrow'
    · exact hlive
    · exact h.pinned hrow'

theorem Inv.deletePlayerConfig (h : Inv s) (hreferences : ¬ references s id = true) :
    Inv { s with players := s.players.delete id } := by
  have hr : Retains s { s with players := s.players.delete id } :=
    ⟨fun _ hfile ↦ hfile,
      fun {id'} _ hplayer hget ↦ by
        have hne : id' ≠ id := fun heq ↦ hreferences (heq ▸ hplayer)
        exact (Registry.get_delete_of_ne hne).trans hget,
      Registry.extends_delete, fun _ _ hfile ↦ hfile⟩
  exact h.retain hr (fun _ _ ↦ h.name) (fun _ _ _ _ ↦ h.unique) (fun _ _ ↦ h.player)
    (fun _ _ hrow ↦ h.pinned (Registry.of_get_delete hrow).2) rfl rfl rfl

theorem Inv.setRequest (h : Inv s) (hrequest : RequestOk s.written request) :
    Inv { s with requests := Function.update s.requests call (some request) } := by
  refine h.change rfl rfl (fun call' request' hcall ↦ ?_) (fun _ _ ↦ h.pool) fun _ _ ↦ h.job
  obtain ⟨-, rfl⟩ | ⟨-, hcall⟩ := of_update_eq_some hcall
  · exact hrequest
  · exact h.request hcall

theorem Inv.drop (h : Inv s) : Inv (drop s call) := by
  refine h.change rfl rfl (fun call' request' hcall ↦ ?_) (fun _ _ ↦ h.pool) fun _ _ ↦ h.job
  rw [Creation.drop] at hcall
  dsimp only at hcall
  by_cases heq : call' = call
  · rw [heq, Function.update_self] at hcall
    cases hcall
  · rw [Function.update_of_ne heq] at hcall
    exact h.request hcall

theorem Inv.putPool (h : Inv s) (hpool : PoolOk s.reads pool) :
    Inv { s with pools := s.pools.put id pool } := by
  refine h.change rfl rfl (fun _ _ ↦ h.request) (fun id' pool' hget ↦ ?_) fun _ _ ↦ h.job
  dsimp only at hget
  by_cases hid : id' = id
  · subst hid
    cases Table.get_put_self.symm.trans hget
    exact hpool
  · exact h.pool ((Table.get_put_of_ne hid).symm.trans hget)

theorem Inv.putJob (h : Inv s) (hjob : JobOk s.reads job) :
    Inv { s with jobs := s.jobs.put id job } := by
  refine h.change rfl rfl (fun _ _ ↦ h.request) (fun _ _ ↦ h.pool) fun id' job' hget ↦ ?_
  dsimp only at hget
  by_cases hid : id' = id
  · subst hid
    cases Table.get_put_self.symm.trans hget
    exact hjob
  · exact h.job ((Table.get_put_of_ne hid).symm.trans hget)

end Steps

section Inserted

variable {collation : Derived.Cache.Collation} {quoted : Quoted} {s t : State} {id playerId : ℕ}
  {file other : InputData} {files : List InputData} {job : Job} {config row : ConfigRow}
  {player : PlayerConfig} {checked : CheckedJob} {plan : PlannedJob} {letterdist : InputData}
  {distribution : Racks.LetterDistribution} {pair : Option (ℕ × ℕ)} {reads : Reads}

theorem sha256_of_clash (h : clash file other = false) (hrole : file.role = other.role)
    (hname : file.name = other.name) :
    file.sha256 = other.sha256 := by
  by_contra hne
  exact absurd (decide_eq_true ⟨hrole.symm, hname.symm, Ne.symm hne⟩) (ne_true_of_eq_false h)

theorem of_refuseOneName (h : refuseOneName quoted files = .ok ()) :
    ∀ file ∈ files, ∀ other ∈ files,
    file.role = other.role → file.name = other.name → file.sha256 = other.sha256 := by
  induction files with
  | nil =>
    intro file hfile
    cases hfile
  | cons first rest ih =>
    rw [refuseOneName] at h
    split at h
    · cases h
    next hfind =>
    rw [List.find?_eq_none] at hfind
    have hfirst (other : InputData) (hother : other ∈ rest) : clash first other = false :=
      Bool.eq_false_of_not_eq_true (hfind other hother)
    intro file hfile other hother hrole hname
    obtain rfl | hfile := List.mem_cons.1 hfile
    · obtain rfl | hother := List.mem_cons.1 hother
      · rfl
      · exact sha256_of_clash (hfirst other hother) hrole hname
    · obtain heq | hother := List.mem_cons.1 hother
      · rw [heq] at hrole hname ⊢
        exact (sha256_of_clash (hfirst file hfile) hrole.symm hname.symm).symm
      · exact ih h file hfile other hother hrole hname

theorem players_catalog : (catalog collation s).players.get playerId =
    (s.players.get playerId).map cachedPlayer :=
  Table.get_select

theorem mem_flatMap_catalog {ids : List ℕ} {f : Derived.Cache.PlayerConfig → List ℕ} :
    id ∈ (ids.filterMap (catalog collation s).players.get).flatMap f ↔
      ∃ playerId ∈ ids, ∃ player, s.players.get playerId = some player ∧
      id ∈ f (cachedPlayer player) := by
  simp only [List.mem_flatMap, List.mem_filterMap, players_catalog, Option.map_eq_some_iff]
  constructor
  · rintro ⟨cached, ⟨playerId, hid, player, hplayer, rfl⟩, hfile⟩
    exact ⟨playerId, hid, player, hplayer, hfile⟩
  · rintro ⟨playerId, hid, player, hplayer, hfile⟩
    exact ⟨_, ⟨playerId, hid, player, hplayer, rfl⟩, hfile⟩

theorem mem_filesOf_cached {player : PlayerConfig} :
    id ∈ [(cachedPlayer player).kwgId, (cachedPlayer player).klvId] ++
    (cachedPlayer player).winpctId.toList ↔
      id ∈ filesOf player := Iff.rfl

theorem mem_expectedData : id ∈ Derived.Cache.expectedData (catalog collation s) job.cached ↔
    id ∈ loadedFiles s.reads job := by
  rw [mem_loadedFiles, Derived.Cache.expectedData, List.mem_append, List.mem_append, or_assoc,
    mem_flatMap_catalog, List.map_eq_flatMap, mem_flatMap_catalog]
  refine or_congr (by simp [Job.cached]) ?_
  simp only [mem_filesOf_cached, Job.cached, State.reads]
  cases job.config with
  | leave row =>
    simp [cachedConfig, Derived.Cache.JobConfig.leavePlayer, Derived.Cache.JobConfig.players,
      playersOf, loadsOf, cachedPlayer]
  | openingRack row =>
    simp [cachedConfig, Derived.Cache.JobConfig.leavePlayer, Derived.Cache.JobConfig.players,
      playersOf, loadsOf]
  | game row =>
    simp [cachedConfig, Derived.Cache.JobConfig.leavePlayer, Derived.Cache.JobConfig.players,
      playersOf, loadsOf]
  | gamePair row =>
    simp [cachedConfig, Derived.Cache.JobConfig.leavePlayer, Derived.Cache.JobConfig.players,
      playersOf, loadsOf]

theorem oneName_of_refuse (h : refuseOneName quoted (expectedData collation s job) = .ok ()) :
    OneName s.reads job := by
  have hmem (id : ℕ) (hid : id ∈ loadedFiles s.reads job) (file : InputData)
      (hfile : s.reads.files id = some file) :
      file ∈ expectedData collation s job := by
    rw [expectedData, List.mem_insertionSort, List.mem_filterMap]
    exact ⟨id, List.mem_dedup.2 (mem_expectedData.2 hid), hfile⟩
  intro id hid id' hid' file file' hfile hfile'
  exact of_refuseOneName h file (hmem id hid file hfile) file' (hmem id' hid' file' hfile')

theorem exists_want (hid : playerId ∈ playersOf config)
    (hplayer : s.players.get playerId = some player) :
    ∃ want ∈ Derived.Cache.wants (catalog collation s) (cachedConfig config),
    want.kwgId = player.kwgId ∧
      want.useWordmap = player.useWordmap ∧
      (want.useRit = player.useRit ∨ ∃ row, config = .leave row) := by
  have hcached : (catalog collation s).players.get playerId = some (cachedPlayer player) := by
    rw [players_catalog, hplayer]
    rfl
  have hplayed (hmem : playerId ∈ (cachedConfig config).players) :
      (cachedPlayer player).want ∈ Derived.Cache.wants (catalog collation s)
      (cachedConfig config) :=
    List.mem_append_left _ (List.mem_filterMap.2 ⟨playerId, hmem, by rw [hcached]; rfl⟩)
  cases config with
  | leave row =>
    rw [playersOf, List.mem_singleton] at hid
    subst hid
    refine ⟨(cachedPlayer player).leaveWant, List.mem_append_right _ ?_, rfl, rfl, .inr ⟨row, rfl⟩⟩
    exact List.mem_filterMap.2 ⟨row.playerConfigId, Option.mem_toList.2 rfl, by rw [hcached]; rfl⟩
  | openingRack row => exact ⟨_, hplayed hid, rfl, rfl, .inl rfl⟩
  | game row => exact ⟨_, hplayed (List.mem_dedup.2 hid), rfl, rfl, .inl rfl⟩
  | gamePair row => exact ⟨_, hplayed (List.mem_dedup.2 hid), rfl, rfl, .inl rfl⟩

theorem wordless_of_needs {ldName : Text} (h : needsWordmap collation s job = false)
    (hloads : ConfigLoads s.reads ldName job.config)
    (hpinned : ∀ id row, s.players.get id = some row → ∀ fileId ∈ filesOf row,
      (s.inputs.get fileId).isSome) :
    Wordless s.reads job.config := by
  intro playerId hid player hplayer
  obtain ⟨want, hwant, hkwg, hwordmap, hrit⟩ := exists_want hid hplayer
  have hneither : ¬(want.useWordmap = true ∨ want.useRit = true) := by
    intro hbuilds
    obtain ⟨kwg, hfile⟩ :=
      Option.isSome_iff_exists.1 (hpinned playerId player hplayer player.kwgId List.mem_cons_self)
    have hneed : Derived.Cache.wmpNeed (inputFiles s) want =
        some ⟨.wmp, kwg.name, want.kwgId, none⟩ := by
      rw [Derived.Cache.wmpNeed, if_pos hbuilds, hkwg, inputFiles, Table.get_select]
      exact congrArg (Option.map _) (congrArg (Option.map InputData.toInputFile) hfile)
    rw [needsWordmap, List.any_eq_false] at h
    refine h ⟨.wmp, kwg.name, want.kwgId, none⟩ (List.mem_dedup.2 ?_)
      (decide_eq_true (show Derived.Role.wmp ≠ .wit by decide))
    exact List.mem_append_left _
      (List.mem_append_left _ (List.mem_filterMap.2 ⟨want, hwant, hneed⟩))
  rw [not_or, Bool.not_eq_true, Bool.not_eq_true] at hneither
  refine ⟨hwordmap.symm.trans hneither.1, ?_⟩
  obtain hrit | ⟨row, hleave⟩ := hrit
  · exact hrit.symm.trans hneither.2
  · rw [hleave] at hloads hid
    obtain ⟨leaver, kwg, hleaver, hproblems, -⟩ := hloads
    rw [playersOf, List.mem_singleton] at hid
    rw [hid, State.reads] at hplayer
    cases hplayer.symm.trans hleaver
    simp only [leaveProblems, List.append_eq_nil_iff, ite_eq_right_iff, List.cons_ne_nil,
      imp_false] at hproblems
    exact Bool.eq_false_of_not_eq_true hproblems.1.2

theorem of_rackIndex {size : ℕ} {index : Racks.RackIndex}
    (h : rackIndex quoted letterdist size = .ok index)
    (hparse : Racks.parse (bytesOf letterdist) letterdist.name = .ok distribution) :
    Racks.RackIndex.new distribution size = .ok index := by
  rw [rackIndex] at h
  obtain ⟨distribution', hparse', h⟩ := bind_eq_ok h
  rw [parseLetterdist, hparse] at hparse'
  cases hparse'
  exact of_mapError_eq_ok h

theorem enumerates_of_jobConfig
    (hparse : Racks.parse (bytesOf letterdist) letterdist.name = .ok distribution)
    (hrow : jobConfig reads quoted checked letterdist pair = .ok row) :
    Enumerates distribution row := by
  rw [jobConfig] at hrow
  split at hrow
  · rw [openingRackRow] at hrow
    obtain ⟨⟨⟩, -, hrow⟩ := bind_eq_ok hrow
    obtain ⟨⟨⟩, -, hrow⟩ := bind_eq_ok hrow
    obtain ⟨index, hindex, hrow⟩ := bind_eq_ok hrow
    cases hrow
    have hnew := of_rackIndex hindex hparse
    refine ⟨index, hnew, ?_⟩
    dsimp only
  · obtain _ | ⟨player1, player2⟩ := pair
    · cases hrow
    · cases hrow
      trivial
  · obtain _ | ⟨player1, player2⟩ := pair
    · cases hrow
    · cases hrow
      trivial
  · rw [leaveRow] at hrow
    obtain ⟨⟨⟩, -, hrow⟩ := bind_eq_ok hrow
    obtain ⟨index, hindex, hrow⟩ := bind_eq_ok hrow
    cases hrow
    have hnew := of_rackIndex hindex hparse
    exact ⟨index, hnew⟩
  · cases hrow

structure Insertable (collation : Derived.Cache.Collation) (quoted : Quoted) (s : State)
    (checked : CheckedJob) (plan : PlannedJob) (config : ConfigRow) : Prop where
  letterdist : ∃ letterdist, s.inputs.get checked.body.letterdistId = some letterdist ∧
    jobConfig s.reads quoted checked letterdist plan.pair = .ok config
  layout : (s.inputs.get checked.body.layoutId).isSome
  players : ∀ player ∈ playersOf config, (s.players.get player).isSome
  oneName : refuseOneName quoted (expectedData collation s ⟨jobRow checked, config⟩) = .ok ()
  wordmap : ¬(magpieMaxWordmapBlanks < checked.blanks ∧
    needsWordmap collation s ⟨jobRow checked, config⟩ = true)

theorem of_insertJob (h : insertJob collation quoted s checked plan id = .ok t) : ∃ config,
    Insertable collation quoted s checked plan config ∧
    t = { s with jobs := s.jobs.put id ⟨jobRow checked, config⟩ } := by
  rw [insertJob] at h
  split at h
  · next letterdist layout hletterdist hlayout =>
    obtain ⟨config, hconfig, h⟩ := bind_eq_ok h
    rw [ensure_bind_eq_ok] at h
    obtain ⟨hplayers, h⟩ := h
    obtain ⟨⟨⟩, honeName, h⟩ := bind_eq_ok h
    rw [ensure_bind_eq_ok] at h
    obtain ⟨hwordmap, h⟩ := h
    cases h
    exact ⟨config,
      ⟨⟨letterdist, hletterdist, of_mapError_eq_ok hconfig⟩,
        Option.isSome_of_eq_some hlayout, hplayers, of_mapError_eq_ok honeName, hwordmap⟩, rfl⟩
  · cases h

theorem winpct_of_checks (h : ∀ t ∈ checks player, Sql.check t) (hplies : 0 < player.numPlies) :
    player.winpctId.isSome := by
  have hsettings : Sql.check (simulationSettingsCheck player) := h _ (by simp [checks])
  rw [simulationSettingsCheck, Sql.check_or, Sql.check_and, Sql.check_and,
    Sql.check_all] at hsettings
  obtain ⟨-, hstated⟩ | ⟨hzero, -⟩ := hsettings
  · exact Sql.check_some.1 (hstated _ (by simp [simulationColumns]))
  · rw [isZero, Sql.check_compare, decide_eq_true_eq] at hzero
    omega

theorem Inv.simulates (h : Inv s) (hplayer : s.players.get playerId = some player) :
    (0 < player.numPlies → player.winpctId.isSome) ∧
      ∀ fileId ∈ player.winpctId, ∃ file, s.inputs.get fileId = some file ∧
      file.role = .winpct := by
  have hok := h.player (Registry.log_of_get hplayer)
  refine ⟨winpct_of_checks hok.checks, fun fileId hfile ↦ ?_⟩
  obtain ⟨file, hfound, hrole⟩ := hok.winpct fileId hfile
  exact ⟨file, Registry.get_of_log (h.pinned hplayer fileId (mem_filesOf_of_winpct hfile)) hfound,
    hrole⟩

theorem Inv.jobOk (h : Inv s) (hchecked : Accepted s.written checked)
    (hplan : plan ∈ checked.planned) (hinsert : Insertable collation quoted s checked plan config) :
    JobOk s.reads ⟨jobRow checked, config⟩ := by
  obtain ⟨letterdist, distribution, husable, hname, hblanks⟩ := hchecked.usable
  obtain ⟨found, hfound, hconfig⟩ := hinsert.letterdist
  cases (Registry.log_of_get hfound).symm.trans husable.found
  have hkeeps : Keeps s.written s.reads (playersOf config) := by
    intro playerId hid player hplayer
    have hlive := Registry.get_of_log (hinsert.players playerId hid) hplayer
    exact ⟨hlive, fun fileId hfile file ↦ Registry.get_of_log (h.pinned hlive fileId hfile)⟩
  have hloads : ConfigLoads s.reads checked.letterdistName config := by
    refine configLoads_of_jobConfig hchecked.valid.config (fun pair hpair hplayers ↦ ?_) hconfig
    rw [hplayers] at hkeeps
    exact (hchecked.meet plan hplan pair hpair).keep hkeeps List.mem_cons_self
      (List.mem_cons_of_mem _ List.mem_cons_self)
  refine ⟨⟨jobType_of_jobConfig hconfig, ⟨letterdist, distribution, ?_, ?_, hname ▸ hloads,
    fun hmany ↦ ?_⟩, fun playerId hid player hplayer ↦ h.simulates hplayer, ?_⟩, ?_, ?_⟩
  · refine husable.of_files (fun file hfile ↦ ?_) fun file ↦ Registry.get_of_log hinsert.layout
    exact Registry.get_of_log (Option.isSome_of_eq_some hfound) hfile
  · exact enumerates_of_jobConfig husable.parsed hconfig
  · have hneeds : needsWordmap collation s ⟨jobRow checked, config⟩ = false :=
      Bool.eq_false_of_not_eq_true fun hneeds ↦ hinsert.wordmap ⟨hblanks ▸ hmany, hneeds⟩
    exact wordless_of_needs hneeds hloads fun _ _ ↦ h.pinned
  · exact oneName_of_refuse hinsert.oneName
  · exact check_jobRow hchecked.valid hchecked.floor
  · exact check_jobConfig hchecked.valid hconfig

end Inserted

end Birdtest.Admin.Catalog
