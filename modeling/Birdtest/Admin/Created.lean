import Birdtest.Admin.Catalog

namespace Birdtest.Admin.Catalog

open Birdtest.Base Birdtest.Base.Checked Birdtest.Base.Runs Birdtest.Base.Tables
  Birdtest.Base.Registries
open Birdtest.Admin.Solvers hiding CreatePlayerConfigBody
open Birdtest.Admin.Players hiding Accepted
open Birdtest.Admin.Jobs Birdtest.Admin.Loadable Birdtest.Admin.Creation
open Birdtest.Jobs
open Birdtest.Jobs.Racks (Quoted Text)

section Changed

variable {s t : State} {job : Job} {row : OpeningRackRow} {new : OpeningRackRow}
  {config : ConfigRow} {body : ConsensusBody} {seconds : ℤ} {reads : Reads} {progress : JobProgress}

theorem of_consensusRequest (h : consensusRequest s body config = .ok (row, new)) :
    config = .openingRack row ∧ new = body.apply row ∧
    consensusFields new.consensusPct new.minResultsPerRack new.maxResultsPerRack = [] ∧
    validateOpeningRackPlayer s.reads row.playerConfigId new.maxResultsPerRack = .ok () := by
  cases config with
  | openingRack row =>
    rw [consensusRequest] at h
    obtain ⟨⟨⟩, hfields, h⟩ := bind_eq_ok h
    obtain ⟨⟨⟩, hplayer, h⟩ := bind_eq_ok h
    cases h
    exact ⟨rfl, rfl, refuseFields_eq_ok.1 hfields, hplayer⟩
  | game row => cases h
  | gamePair row => cases h
  | leave row => cases h

theorem check_apply (h : ∀ t ∈ row.checks, Sql.check t)
    (hfields : consensusFields (body.apply row).consensusPct (body.apply row).minResultsPerRack
      (body.apply row).maxResultsPerRack = []) : ∀ t ∈ (body.apply row).checks, Sql.check t := by
  simp only [OpeningRackRow.checks, List.forall_mem_cons, List.not_mem_nil, false_implies,
    implies_true, and_true] at h ⊢
  exact ⟨h.1, h.2.1, h.2.2.1, check_consensus hfields⟩

theorem check_same_some {a b : Bool} : Sql.check (same (some a) (some b)) ↔ a = b := by
  rw [same, Sql.check_compare, decide_eq_true_eq]

theorem check_restate {settled withoutConsensus unsettled : ℕ}
    (h : ∀ t ∈ progress.checks, Sql.check t) :
    ∀ t ∈ (restate settled withoutConsensus unsettled progress).checks, Sql.check t := by
  simp only [restate, JobProgress.checks, JobProgress.counts, List.forall_mem_append,
    List.forall_mem_cons, List.not_mem_nil, false_implies, implies_true, and_true, List.map_cons,
    List.map_nil, check_atLeast_some, allocationIsStatus, check_same_some] at h ⊢
  obtain ⟨⟨hallocation, hstatus, htest⟩, hissued, hdeclines, hstreak, hgames, hracks, -,
      -, hrest⟩ := h
  refine ⟨⟨hallocation, ?_, htest⟩, hissued, hdeclines, hstreak, hgames, hracks, by omega, by omega,
    hrest⟩
  split_ifs with hreopened
  · have hpaused : decide (0 < progress.allocation) = false := by
      rw [← hstatus, hreopened.1]
      rfl
    exact hpaused.symm
  · exact hstatus

theorem check_setProgress {row : JobRow} (h : ∀ t ∈ row.checks, Sql.check t)
    (hprogress : ∀ t ∈ progress.checks, Sql.check t) :
    ∀ t ∈ (setProgress row progress).checks, Sql.check t := by
  rw [JobRow.checks, List.forall_mem_append] at h ⊢
  exact ⟨h.1, hprogress⟩

theorem JobOk.apply {settled withoutConsensus unsettled : ℕ} (h : JobOk reads job)
    (hconfig : job.config = .openingRack row)
    (hfields : consensusFields (body.apply row).consensusPct (body.apply row).minResultsPerRack
      (body.apply row).maxResultsPerRack = [])
    (hplayer : validateOpeningRackPlayer reads row.playerConfigId
      (body.apply row).maxResultsPerRack = .ok ()) :
    JobOk reads
      ⟨setProgress job.row (restate settled withoutConsensus unsettled job.row.progress),
        .openingRack (body.apply row)⟩ := by
  obtain ⟨jobRow, config⟩ := job
  subst hconfig
  obtain ⟨letterdist, distribution, husable, hracks, ⟨player, hplays, -⟩, hwordless⟩ := h.usable
  obtain ⟨found, hfound, hranks⟩ := ranks_of_validate hplayer
  cases hplays.found.symm.trans hfound
  have hprogress := (List.forall_mem_append.1 h.rowChecks).2
  exact ⟨⟨h.jobType,
    ⟨letterdist, distribution, husable, hracks, ⟨player, hplays, hranks⟩, hwordless⟩,
    h.winpct, h.oneName⟩, check_setProgress h.rowChecks (check_restate hprogress),
    check_apply h.configChecks hfields⟩

theorem JobOk.serve (h : JobOk reads job) (hprogress : ∀ t ∈ progress.checks, Sql.check t) :
    JobOk reads ⟨setProgress job.row progress, job.config⟩ :=
  ⟨⟨h.jobType, h.usable, h.winpct, h.oneName⟩, check_setProgress h.rowChecks hprogress,
    h.configChecks⟩

theorem JobOk.setTimeLimit (h : JobOk reads job) (hseconds : timeLimitProblem seconds = none) :
    JobOk reads { job with row := { job.row with maxTaskSeconds := seconds } } := by
  refine ⟨⟨h.jobType, h.usable, h.winpct, h.oneName⟩, ?_, h.configChecks⟩
  have hchecks := h.rowChecks
  have hbounds : 600 ≤ seconds ∧ seconds ≤ 86400 := by
    rw [timeLimitProblem] at hseconds
    simpa [minTaskSeconds, maxTaskSeconds] using hseconds
  rw [JobRow.checks, List.forall_mem_append] at hchecks ⊢
  refine ⟨?_, hchecks.2⟩
  simp only [List.forall_mem_cons, List.not_mem_nil, false_implies, implies_true, and_true,
    check_within] at hchecks ⊢
  obtain ⟨⟨htitle, hbonus, hcutoff, hmajor, hminor, hpatch, -⟩, -⟩ := hchecks
  exact ⟨htitle, hbonus, hcutoff, hmajor, hminor, hpatch, hbounds⟩

end Changed

section Pools

variable {reads : Reads} {pool : Pool} {player : ℕ}

theorem mem_addMember {id : ℕ} : id ∈ (addMember pool player).members ↔ id ∈ pool.members ∨
    id = player := by
  rw [addMember]
  split_ifs with hmem
  · exact ⟨.inl, fun h ↦ h.elim (fun hid ↦ hid) fun heq ↦ heq ▸ hmem⟩
  · simp

theorem PoolOk.addMember (h : PoolOk reads pool) (hplayer : (reads.players player).isSome) :
    PoolOk reads (addMember pool player) := by
  have hmembers (id : ℕ) (hid : id ∈ (Creation.addMember pool player).members) :
      (reads.players id).isSome := by
    obtain hid | rfl := mem_addMember.1 hid
    · exact h.members id hid
    · exact hplayer
  have hrest : (Creation.addMember pool player).name = pool.name ∧
      (Creation.addMember pool player).variant = pool.variant ∧
      (Creation.addMember pool player).letterdistId = pool.letterdistId ∧
      (Creation.addMember pool player).layoutId = pool.layoutId ∧
      (Creation.addMember pool player).anchorPlayerConfigId = pool.anchorPlayerConfigId := by
    rw [Creation.addMember]
    split_ifs <;> exact ⟨rfl, rfl, rfl, rfl, rfl⟩
  obtain ⟨hname, hvariant, hletterdist, hlayout, hanchor⟩ := hrest
  refine ⟨hname ▸ h.name, hvariant ▸ h.variant, ?_, mem_addMember.2 (.inl (hanchor ▸ h.anchor)),
    hmembers⟩
  rw [hletterdist, hlayout]
  exact h.usable

end Pools

section Runs

variable {collation : Derived.Cache.Collation} {quoted : Quoted} {serverFloor : Text}
  {s t : State} {id : ℕ} {checked : CheckedJob} {row : PlayerConfig} {body : CreatePoolBody}
  {request : Request} {ids : List ℕ} {jobs : List (PlannedJob × ℕ)} {result : Except Refusal State}

theorem Inv.insertJobs (h : Inv s) (hchecked : Accepted s.written checked)
    (hplanned : ∀ job ∈ jobs, job.1 ∈ checked.planned)
    (hinsert : Creation.insertJobs collation quoted s checked jobs = .ok t) : Inv t := by
  induction jobs generalizing s with
  | nil =>
    cases hinsert
    exact h
  | cons job jobs ih =>
    rw [Creation.insertJobs, List.foldlM_cons] at hinsert
    obtain ⟨u, hfirst, hrest⟩ := bind_eq_ok hinsert
    obtain ⟨config, hinsertable, rfl⟩ := of_insertJob hfirst
    have hjob := h.jobOk hchecked (hplanned job List.mem_cons_self) hinsertable
    exact ih (h.putJob hjob) hchecked
      (fun later hlater ↦ hplanned later (List.mem_cons_of_mem _ hlater)) hrest

theorem Inv.insertPlayer (h : Inv s) (hfresh : s.players.log.get id = none)
    (hrow : PlayerOk s.written.files row) (hinsert : Creation.insertPlayerConfig s id row = .ok t) :
    Inv t := by
  rw [Creation.insertPlayerConfig] at hinsert
  split_ifs at hinsert with hname hlive
  split at hinsert
  · cases hinsert
  cases hinsert
  refine h.insertPlayerConfig hfresh hrow fun fileId hfile ↦ ?_
  rw [Bool.not_eq_true, List.any_eq_false] at hlive
  exact Option.isNone_eq_false_iff.1 (Bool.eq_false_of_not_eq_true (hlive fileId hfile))

theorem Inv.insertPool (h : Inv s) (hbody : RequestOk s.written (.pool body))
    (hinsert : Creation.insertPool s id body = .ok t) : Inv t := by
  rw [Creation.insertPool] at hinsert
  split_ifs at hinsert with hname hfiles hanchor
  cases hinsert
  simp only [not_or, Bool.not_eq_true, Option.isNone_eq_false_iff] at hfiles hanchor
  obtain ⟨hlength, hvariant, letterdist, distribution, husable⟩ := hbody
  apply h.putPool
  refine ⟨hlength, hvariant, ⟨letterdist, distribution, ?_⟩, List.mem_singleton_self _,
    fun member hmember ↦ ?_⟩
  · exact husable.of_files (fun file ↦ Registry.get_of_log hfiles.1) fun file ↦
      Registry.get_of_log hfiles.2
  · rw [List.mem_singleton.1 hmember]
    exact hanchor

theorem Inv.transaction (h : Inv s) (hrequest : RequestOk s.written request)
    (hresult : transaction collation quoted s request ids = some result) :
    Inv (result.toOption.getD s) := by
  cases result with
  | error refusal => exact h
  | ok t =>
    rw [Creation.transaction.eq_def] at hresult
    split at hresult
    · obtain ⟨hfresh, hresult⟩ := Option.ite_none_right_eq_some.1 hresult
      exact h.insertPlayer (Option.isNone_iff_eq_none.1 hfresh) hrequest (Option.some.inj hresult)
    · obtain ⟨-, hresult⟩ := Option.ite_none_right_eq_some.1 hresult
      exact h.insertPool hrequest (Option.some.inj hresult)
    · obtain ⟨-, hresult⟩ := Option.ite_none_right_eq_some.1 hresult
      exact h.insertJobs hrequest (fun job hjob ↦ (List.of_mem_zip hjob).1)
        (Option.some.inj hresult)
    · cases hresult

theorem Inv.hold {call : ℕ} (h : Inv s) (hrequest : RequestOk s.written request)
    (hs : hold s call request = some t) : Inv t := by
  rw [Creation.hold] at hs
  obtain ⟨-, hs⟩ := Option.ite_none_left_eq_some.1 hs
  cases hs
  exact h.setRequest hrequest

theorem of_toOption_eq_some {α ε : Type} {x : Except ε α} {a : α} (h : x.toOption = some a) :
    x = .ok a := by
  cases x with
  | error e => cases h
  | ok b => rw [Option.some.inj h]

theorem of_toOption_bind {α β ε : Type} {x : Except ε α} {f : α → Option β} {b : β}
    (h : x.toOption.bind f = some b) : ∃ a, x = .ok a ∧ f a = some b := by
  obtain ⟨a, ha, hf⟩ := Option.bind_eq_some_iff.1 h
  exact ⟨a, of_toOption_eq_some ha, hf⟩

theorem Inv.next {a : Action} (h : Inv s) (hs : next collation quoted serverFloor s a = some t) :
    Inv t := by
  cases a with
  | importFile id file =>
    obtain ⟨⟨hfresh, himport⟩, hs⟩ := Option.ite_none_right_eq_some.1 hs
    cases hs
    exact h.importFile (Option.isNone_iff_eq_none.1 hfresh) himport
  | deleteInputData id =>
    obtain ⟨⟨-, hpins⟩, hs⟩ := Option.ite_none_right_eq_some.1 hs
    cases hs
    exact h.deleteInputData fun hpinned ↦ hpins (pins_iff.2 hpinned)
  | checkPlayerConfig call unseen body =>
    rw [Creation.next] at hs
    obtain ⟨row, hrow, hs⟩ := of_toOption_bind hs
    have hok : RequestOk (s.view unseen) (.player row) := playerOk_of_createPlayerConfig hrow
    exact h.hold (hok.grow grows_view) hs
  | checkPool call unseen body =>
    rw [Creation.next] at hs
    obtain ⟨⟨⟩, hbody, hs⟩ := of_toOption_bind hs
    have hok : RequestOk (s.view unseen) (.pool body) := requestOk_of_createPool hbody
    exact h.hold (hok.grow grows_view) hs
  | checkJob call unseen body =>
    rw [Creation.next] at hs
    obtain ⟨checked, hchecked, hs⟩ := of_toOption_bind hs
    have hok : RequestOk (s.view unseen) (.jobs checked) := accepted_of_checkJob hchecked
    exact h.hold (hok.grow grows_view) hs
  | insert call ids =>
    obtain ⟨request, hrequest, hs⟩ := Option.bind_eq_some_iff.1 hs
    obtain ⟨result, hresult, rfl⟩ := Option.map_eq_some_iff.1 hs
    exact (h.transaction (h.request hrequest) hresult).drop
  | deletePlayerConfig id =>
    obtain ⟨⟨-, hreferences⟩, hs⟩ := Option.ite_none_right_eq_some.1 hs
    cases hs
    exact h.deletePlayerConfig hreferences
  | addMember pool player =>
    obtain ⟨hplayer, hs⟩ := Option.ite_none_right_eq_some.1 hs
    obtain ⟨row, hrow, rfl⟩ := Option.map_eq_some_iff.1 hs
    exact h.putPool ((h.pool hrow).addMember hplayer)
  | removeMember pool player =>
    obtain ⟨row, hrow, hs⟩ := Option.bind_eq_some_iff.1 hs
    obtain ⟨hanchor, hs⟩ := Option.ite_none_left_eq_some.1 hs
    cases hs
    have hpool := h.pool hrow
    refine h.putPool ⟨hpool.name, hpool.variant, hpool.usable, ?_,
      fun id hid ↦ hpool.members id (List.mem_filter.1 hid).1⟩
    exact List.mem_filter.2 ⟨hpool.anchor, decide_eq_true hanchor⟩
  | updatePool pool anchor rating =>
    obtain ⟨row, hrow, hs⟩ := Option.bind_eq_some_iff.1 hs
    obtain ⟨-, hs⟩ := Option.ite_none_left_eq_some.1 hs
    obtain ⟨⟨-, hplayer⟩, hs⟩ := Option.ite_none_right_eq_some.1 hs
    cases hs
    have hpool := (h.pool hrow).addMember hplayer
    exact h.putPool ⟨hpool.name, hpool.variant, hpool.usable, mem_addMember.2 (.inr rfl),
      hpool.members⟩
  | deletePool pool =>
    cases hs
    refine h.change rfl rfl (fun _ _ ↦ h.request) (fun id row hrow ↦ ?_) fun _ _ ↦ h.job
    rw [Table.get_filter] at hrow
    exact h.pool (Option.ite_none_right_eq_some.1 hrow).2
  | updateTimeLimit j seconds =>
    obtain ⟨hseconds, hs⟩ := Option.ite_none_right_eq_some.1 hs
    obtain ⟨job, hjob, rfl⟩ := Option.map_eq_some_iff.1 hs
    exact h.putJob ((h.job hjob).setTimeLimit hseconds)
  | updateConsensus j body settled withoutConsensus unsettled =>
    obtain ⟨job, hjob, hs⟩ := Option.bind_eq_some_iff.1 hs
    obtain ⟨⟨row, new⟩, hnew, rfl⟩ := Option.map_eq_some_iff.1 hs
    have hrequest := of_toOption_eq_some hnew
    obtain ⟨hconfig, rfl, hfields, hplayer⟩ := of_consensusRequest hrequest
    split
    · exact h
    · exact h.putJob ((h.job hjob).apply hconfig hfields hplayer)
  | serve j progress =>
    obtain ⟨hprogress, hs⟩ := Option.ite_none_right_eq_some.1 hs
    obtain ⟨job, hjob, rfl⟩ := Option.map_eq_some_iff.1 hs
    exact h.putJob ((h.job hjob).serve hprogress)
  | deleteJob j =>
    cases hs
    refine h.change rfl rfl (fun _ _ ↦ h.request) (fun _ _ ↦ h.pool) fun id job hjob ↦ ?_
    rw [Table.get_filter] at hjob
    exact h.job (Option.ite_none_right_eq_some.1 hjob).2

theorem inv_of_reachable (h : (machine collation quoted serverFloor).Reachable s) : Inv s := by
  apply h.invariant
  · intro s hs
    cases hs
    exact ⟨nofun, nofun, nofun, nofun, nofun, nofun, nofun⟩
  · exact fun s a t h _ hs ↦ h.next hs

end Runs

section Answers

variable {collation : Derived.Cache.Collation} {quoted : Quoted} {serverFloor : Text} {s t : State}
  {j id call : ℕ} {job : Job} {checked : CheckedJob} {plan : PlannedJob} {ids : List ℕ}
  {jobs : List (PlannedJob × ℕ)} {config : ConfigRow} {letterdist : InputData} {reads : Reads}

/-- Every job that there is can be dispatched: its files are of the roles that it has them in and
can be read, its players can play each other, and no two of its files share a name. -/
theorem jobs_dispatchable (h : (machine collation quoted serverFloor).Reachable s)
    (hj : s.jobs.get j = some job) : Dispatchable s.reads job :=
  ((inv_of_reachable h).job hj).toDispatchable

/-- A pool's anchor is always one of its members, and a job can be created on what it rates. -/
theorem pools_usable (h : (machine collation quoted serverFloor).Reachable s) {pool : Pool}
    (hpool : s.pools.get id = some pool) : PoolOk s.reads pool :=
  (inv_of_reachable h).pool hpool

theorem of_get_catalog {player : Derived.Cache.PlayerConfig}
    (h : (catalog collation s).players.get id = some player) :
    ∃ row, s.players.get id = some row ∧ cachedPlayer row = player := by
  rw [players_catalog] at h
  exact Option.map_eq_some_iff.1 h

theorem of_get_inputFiles {file : Derived.Cache.InputFile} (h : (inputFiles s).get id = some file) :
    ∃ row, s.inputs.get id = some row ∧ row.toInputFile = file := by
  rw [inputFiles, Table.get_select] at h
  exact Option.map_eq_some_iff.1 h

theorem eq_found {fileId : ℕ} {file found : InputData}
    (hlog : s.inputs.log.get fileId = some found) (hfile : s.inputs.get fileId = some file) :
    file = found :=
  Option.some.inj ((Registry.log_of_get hfile).symm.trans hlog)

theorem valid_of_inv (h : Inv s) : Derived.Cache.Valid (catalog collation s) (inputFiles s) := by
  constructor
  · intro id hpins
    rw [inputFiles, Table.get_select, Option.isSome_map]
    obtain ⟨j, job, hj, hid⟩ | ⟨p, player, hplayer, hid⟩ | ⟨p, pool, hpool, hid⟩ := pins_iff.1 hpins
    · obtain ⟨letterdist, distribution, husable, -⟩ := (h.job hj).usable
      obtain ⟨layout, hlayout, -⟩ := husable.board
      rcases hid with rfl | rfl
      · exact Option.isSome_of_eq_some husable.found
      · exact Option.isSome_of_eq_some hlayout
    · exact h.pinned hplayer id hid
    · obtain ⟨letterdist, distribution, husable⟩ := (h.pool hpool).usable
      obtain ⟨layout, hlayout, -⟩ := husable.board
      rcases hid with rfl | rfl
      · exact Option.isSome_of_eq_some husable.found
      · exact Option.isSome_of_eq_some hlayout
  · intro p player file hplayer hfile
    obtain ⟨row, hrow, rfl⟩ := of_get_catalog hplayer
    obtain ⟨found, hfound, rfl⟩ := of_get_inputFiles hfile
    obtain ⟨kwg, klv, hkwg, hkwgRole, -⟩ := (h.player (Registry.log_of_get hrow)).pinned
    rw [eq_found hkwg hfound]
    exact hkwgRole
  · intro p player file hplayer hfile
    obtain ⟨row, hrow, rfl⟩ := of_get_catalog hplayer
    obtain ⟨found, hfound, rfl⟩ := of_get_inputFiles hfile
    obtain ⟨kwg, klv, -, -, hklv, hklvRole, -⟩ := (h.player (Registry.log_of_get hrow)).pinned
    rw [eq_found hklv hfound]
    exact hklvRole
  · intro id file hfile
    obtain ⟨row, hrow, rfl⟩ := of_get_inputFiles hfile
    exact h.name (Registry.log_of_get hrow)
  · intro id id' file hfile hfile'
    obtain ⟨row, hrow, rfl⟩ := of_get_inputFiles hfile
    obtain ⟨row', hrow', heq⟩ := of_get_inputFiles hfile'
    exact h.unique hrow hrow' heq.symm
  · intro j id id' job file file' hj hid hid' hfile hfile'
    rw [catalog, Table.get_select, Option.map_eq_some_iff] at hj
    obtain ⟨job, hj, rfl⟩ := hj
    obtain ⟨row, hrow, rfl⟩ := of_get_inputFiles hfile
    obtain ⟨row', hrow', rfl⟩ := of_get_inputFiles hfile'
    exact (h.job hj).oneName id (mem_expectedData.1 hid) id'
      (mem_expectedData.1 hid') row row' hrow hrow'

/-- What the cache of derived files takes for granted of the store is what requests leave. -/
theorem catalog_valid (h : (machine collation quoted serverFloor).Reachable s) :
    Derived.Cache.Valid (catalog collation s) (inputFiles s) ∧
    ∀ p player fileId file, (catalog collation s).players.get p = some player →
      fileId ∈ player.winpctId → (inputFiles s).get fileId = some file → file.role = .winpct := by
  have hinv := inv_of_reachable h
  refine ⟨valid_of_inv hinv, fun p player fileId file hplayer hid hfile ↦ ?_⟩
  obtain ⟨row, hrow, rfl⟩ := of_get_catalog hplayer
  obtain ⟨found, hfound, rfl⟩ := of_get_inputFiles hfile
  obtain ⟨winpct, hwinpct, hrole⟩ := (hinv.player (Registry.log_of_get hrow)).winpct fileId hid
  rw [eq_found hwinpct hfound]
  exact hrole

/-- A job whose planned pairing is `plan.pair` seats it. -/
theorem playersOf_of_jobConfig (hchecked : Accepted s.written checked)
    (hplan : plan ∈ checked.planned)
    (hrow : jobConfig reads quoted checked letterdist plan.pair = .ok config) :
    ∀ pair ∈ plan.pair, playersOf config = [pair.1, pair.2] := by
  intro pair hpair
  have hids := hchecked.pairs plan hplan (Option.isSome_of_eq_some hpair)
  rw [jobConfig, Option.mem_def.1 hpair] at hrow
  split at hrow
  · next hconfig =>
    rw [hconfig] at hids
    cases hids
  · cases hrow
    rfl
  · cases hrow
    rfl
  · next hconfig =>
    rw [hconfig] at hids
    cases hids
  · cases hrow

def CreatedAs (checked : CheckedJob) (plan : PlannedJob) (job : Job) : Prop :=
  job.row = jobRow checked ∧ ∀ pair ∈ plan.pair, playersOf job.config = [pair.1, pair.2]

theorem get_of_insertJobs (hchecked : Accepted s.written checked)
    (hplanned : ∀ job ∈ jobs, job.1 ∈ checked.planned)
    (hnodup : (jobs.map Prod.snd).Nodup) (h : insertJobs collation quoted s checked jobs = .ok t) :
    (∀ id ∉ jobs.map Prod.snd, t.jobs.get id = s.jobs.get id) ∧
    ∀ entry ∈ jobs, ∃ job, t.jobs.get entry.2 = some job ∧ CreatedAs checked entry.1 job := by
  induction jobs generalizing s with
  | nil =>
    cases h
    exact ⟨fun _ _ ↦ rfl, nofun⟩
  | cons first jobs ih =>
    rw [insertJobs, List.foldlM_cons] at h
    obtain ⟨u, hfirst, hrest⟩ := bind_eq_ok h
    obtain ⟨config, hinsertable, rfl⟩ := of_insertJob hfirst
    obtain ⟨letterdist, -, hconfig⟩ := hinsertable.letterdist
    have hplan := hplanned first List.mem_cons_self
    rw [List.map_cons, List.nodup_cons] at hnodup
    obtain ⟨hother, hcreated⟩ :=
      ih (s := { s with jobs := s.jobs.put first.2 ⟨jobRow checked, config⟩ }) hchecked
      (fun later hlater ↦ hplanned later (List.mem_cons_of_mem _ hlater)) hnodup.2 hrest
    constructor
    · intro id hid
      rw [List.map_cons, List.mem_cons, not_or] at hid
      exact (hother id hid.2).trans (Table.get_put_of_ne hid.1)
    · intro entry hentry
      obtain rfl | hentry := List.mem_cons.1 hentry
      · exact ⟨_, (hother _ hnodup.1).trans Table.get_put_self, rfl,
          playersOf_of_jobConfig hchecked hplan hconfig⟩
      · exact hcreated entry hentry

/-- A request creates every job that it planned, seated as planned, or none. -/
theorem jobs_created_together (h : (machine collation quoted serverFloor).Reachable s)
    (hcall : s.requests call = some (.jobs checked))
    (hs : next collation quoted serverFloor s (.insert call ids) = some t) :
    t.jobs = s.jobs ∨
      ids.length = checked.planned.length ∧ ids.Nodup ∧
      (∀ id ∈ ids, s.jobs.get id = none) ∧ (∀ id ∉ ids, t.jobs.get id = s.jobs.get id) ∧
      List.Forall₂ (fun plan id ↦ ∃ job, t.jobs.get id = some job ∧ CreatedAs checked plan job ∧
        Dispatchable t.reads job) checked.planned ids := by
  have ht : (machine collation quoted serverFloor).Reachable t :=
    .step (a := .insert call ids) h trivial hs
  have hchecked : Accepted s.written checked := (inv_of_reachable h).request hcall
  rw [Creation.next, hcall, Option.bind_some] at hs
  obtain ⟨result, hresult, rfl⟩ := Option.map_eq_some_iff.1 hs
  obtain ⟨⟨hlength, hnodup, hfresh⟩, hresult⟩ := Option.ite_none_right_eq_some.1 hresult
  cases Option.some.inj hresult
  cases hinsert : insertJobs collation quoted s checked (checked.planned.zip ids) with
  | error refusal => exact .inl rfl
  | ok u =>
    rw [hinsert] at ht
    have hids : (checked.planned.zip ids).map Prod.snd = ids := List.map_snd_zip hlength.le
    obtain ⟨hother, hcreated⟩ :=
      get_of_insertJobs hchecked (fun job hjob ↦ (List.of_mem_zip hjob).1)
      (hids.symm ▸ hnodup) hinsert
    rw [hids] at hother
    refine .inr ⟨hlength, hnodup, fun id hid ↦ Option.isNone_iff_eq_none.1 (hfresh id hid), hother,
      ?_⟩
    rw [List.forall₂_iff_zip]
    refine ⟨hlength.symm, fun {plan id} hentry ↦ ?_⟩
    obtain ⟨job, hjob, has⟩ := hcreated (plan, id) hentry
    exact ⟨job, hjob, has, jobs_dispatchable ht hjob⟩

end Answers

section Example

def plainBoard : ByteArray :=
  ⟨(55 :: 44 :: 55 :: 10 :: (List.replicate 15 (List.replicate 15 32 ++ [10])).flatten).toArray⟩

def releasedFiles : List InputData :=
  [⟨⟨.kwg, "CSW24", "a0"⟩, "20241001", none⟩, ⟨⟨.klv, "CSW24", "a1"⟩, "20241001", none⟩,
    ⟨⟨.letterdist, "english", "a2"⟩, "20241001", some Racks.twoLetters.toUTF8⟩,
    ⟨⟨.layout, "standard15", "a3"⟩, "20241001", some plainBoard⟩,
    ⟨⟨.kwg, "CSW21", "a4"⟩, "20241001", none⟩]

def staticPlayer (name : String) : Players.CreatePlayerConfigBody where
  toCreatePlayerConfigBody := ⟨some 0, some 0, none, none, none, none, none, none, none⟩
  name := name.toList
  recorderType := "equity"
  sortStrategy := none
  kwgId := 0
  klvId := 1
  winpctId := none
  clonedFromId := none
  maxIterations := none
  numPlies := none
  numPliesRecorded := none
  numPlays := none
  numPlaysRecorded := 5
  stoppingPct := none
  useInference := none
  timeLimitSecs := none
  movegensPerMove := none
  useWordmap := none
  useRit := none
  useWit := none
  minPlayIterations := none
  threshold := none
  samplingRule := none
  inferenceMargin := none
  utilityWWinpct := none
  utilityWSpread := none
  utilitySpreadScale := none
  movegenMargin := none

def roundRobin : CreateJobBody where
  title := some "October".toList
  jobType := .gamePairs
  variant := "classic"
  letterdistId := 2
  layoutId := 3
  config := .gamePair { playerConfigIds := [0, 1, 2], maxPairs := 500 }

def october : CreatePoolBody := ⟨"October".toList, "classic", 2, 3, 0, 2000⟩

abbrev server : Machine State Action :=
  machine Derived.Cache.oneJob.collation ⟨String.ofList, Char.toString⟩ "0.1.1".toList

def beforeJobs : List Action :=
  releasedFiles.zipIdx.map (fun file ↦ .importFile file.2 file.1) ++
    [.checkPlayerConfig 0 [] (staticPlayer "A"), .deleteInputData 4, .insert 0 [0],
      .checkPlayerConfig 0 [] (staticPlayer "B"), .checkPlayerConfig 1 [] (staticPlayer "C"),
      .insert 1 [2], .insert 0 [1], .checkPool 0 [] october, .insert 0 [0], .addMember 0 2,
      .updatePool 0 (some 1) none, .removeMember 0 0, .checkJob 0 [] roundRobin]

theorem start_server : server.Reachable ⟨.empty, .empty, .empty, .empty, fun _ ↦ none⟩ := .start rfl

/-- Three players, a pool of two of them and a round robin of all three. -/
theorem exists_created : ∃ s job pool, server.Reachable s ∧ s.jobs.get 9 = some job ∧
    s.pools.get 0 = some pool ∧
    pool.anchorPlayerConfigId = 1 := by
  obtain ⟨s, hs, hp⟩ := start_server.follow_any (beforeJobs ++ [.insert 0 [7, 8, 9],
    .serve 9 { status := .active, allocation := 50, claimsIssued := 3 }, .updateTimeLimit 9 600])
    (fun s : State ↦ (s.jobs.get 9).isSome && (s.pools.get 0).any (·.anchorPlayerConfigId = 1))
    (by decide +kernel)
  rw [Bool.and_eq_true, Option.isSome_iff_exists, Option.any_eq_true] at hp
  obtain ⟨⟨job, hjob⟩, pool, hpool, hanchor⟩ := hp
  exact ⟨s, job, pool, hs, hjob, hpool, of_decide_eq_true hanchor⟩

theorem exists_jobs_dispatchable : ∃ s job, server.Reachable s ∧ s.jobs.get 9 = some job ∧
    Dispatchable s.reads job := by
  obtain ⟨s, job, pool, hs, hjob, -⟩ := exists_created
  exact ⟨s, job, hs, hjob, jobs_dispatchable hs hjob⟩

theorem exists_pools_usable : ∃ s pool, server.Reachable s ∧ s.pools.get 0 = some pool ∧
    pool.anchorPlayerConfigId = 1 ∧ PoolOk s.reads pool := by
  obtain ⟨s, job, pool, hs, -, hpool, hanchor⟩ := exists_created
  exact ⟨s, pool, hs, hpool, hanchor, pools_usable hs hpool⟩

theorem exists_catalog_valid : ∃ s job, server.Reachable s ∧ s.jobs.get 9 = some job ∧
    Derived.Cache.Valid (catalog Derived.Cache.oneJob.collation s) (inputFiles s) := by
  obtain ⟨s, job, pool, hs, hjob, -⟩ := exists_created
  exact ⟨s, job, hs, hjob, (catalog_valid hs).1⟩

theorem exists_jobs_created_together : ∃ s t checked, server.Reachable s ∧
    s.requests 0 = some (.jobs checked) ∧
    server.next s (.insert 0 [7, 8, 9]) = some t ∧ checked.planned.length = 3 ∧
    (t.jobs.get 9).isSome ∧
    (t.jobs = s.jobs ∨
      List.Forall₂ (fun plan id ↦ ∃ job, t.jobs.get id = some job ∧ CreatedAs checked plan job ∧
      Dispatchable t.reads job) checked.planned [7, 8, 9]) := by
  obtain ⟨s, hs, hp⟩ := start_server.follow_any beforeJobs
    (fun s : State ↦ (match s.requests 0 with
      | some (.jobs checked) => checked.planned.length = 3
      | some (.pool _) => false
      | some (.player _) => false
      | none => false) && (server.next s (.insert 0 [7, 8, 9])).any fun t ↦
        (t.jobs.get 9).isSome) (by decide +kernel)
  rw [Bool.and_eq_true, Option.any_eq_true] at hp
  obtain ⟨hplanned, t, ht, hjob⟩ := hp
  split at hplanned
  · next checked hcall =>
    refine ⟨s, t, checked, hs, hcall, ht, of_decide_eq_true hplanned, hjob, ?_⟩
    exact (jobs_created_together hs hcall ht).imp_right fun h ↦ h.2.2.2.2
  all_goals cases hplanned

end Example

end Birdtest.Admin.Catalog
