import Birdtest.Admin.Jobs

namespace Birdtest.Admin.Loadable

open Birdtest.Base.Checked Birdtest.Admin.Solvers Birdtest.Admin.Players Birdtest.Admin.Jobs
open Birdtest.Compat (LdType OfType ldTypeFromDistribution ldTypeFromLexicon lexLdCompat)
open Birdtest.Jobs.Racks (Quoted Text)

section Facts

def filesOf (player : PlayerConfig) : List ℕ :=
  [player.kwgId, player.klvId] ++ player.winpctId.toList

structure PlaysOn (reads : Reads) (ldName : Text) (id : ℕ) (player : PlayerConfig) : Prop where
  found : reads.players id = some player
  known : ldTypeFromDistribution ldName ≠ .unknown
  files : ∃ kwg klv, reads.files player.kwgId = some kwg ∧ reads.files player.klvId = some klv ∧
    ldTypeFromLexicon kwg.name.toList = ldTypeFromDistribution ldName ∧
    ldTypeFromLexicon klv.name.toList = ldTypeFromDistribution ldName

def Meet (reads : Reads) (ldName : Text) (capture : Bool) (id₁ id₂ : ℕ) : Prop :=
  ∃ player₁ player₂, PlaysOn reads ldName id₁ player₁ ∧ PlaysOn reads ldName id₂ player₂ ∧
    (∀ w₁ ∈ player₁.winpctId, ∀ w₂ ∈ player₂.winpctId, w₁ = w₂) ∧
    (capture = true → capturesShort player₁ = false ∧ capturesShort player₂ = false)

/-- A player whose analyses of a rack list as many moves as it records, and of which more than one
can differ where more than one is asked for. -/
structure Ranks (player : PlayerConfig) (maxResultsPerRack : ℤ) : Prop where
  lists : ¬(player.recorderType = "best" ∧ 1 < player.numPlaysRecorded ∧ player.numPlies = 0)
  recorded : player.numPlaysRecorded ≤ player.numPlays
  differs : ¬(player.numPlies = 0 ∧ 1 < maxResultsPerRack)

def GeneratesLeaves (reads : Reads) (ldName : Text) (id : ℕ) : Prop :=
  ∃ player kwg, reads.players id = some player ∧ leaveProblems player = [] ∧
    reads.files player.kwgId = some kwg ∧ kwg.role = .kwg ∧
    lexLdCompat kwg.name.toList ldName = true

def ConfigLoads (reads : Reads) (ldName : Text) : ConfigRow → Prop
  | .openingRack row => ∃ player, PlaysOn reads ldName row.playerConfigId player ∧
    Ranks player row.maxResultsPerRack
  | .game row =>
    Meet reads ldName row.capturePositions row.player1ConfigId row.player2ConfigId ∧
      row.gamesPerBatch % 2 = 0
  | .gamePair row => Meet reads ldName row.capturePositions row.player1ConfigId row.player2ConfigId
  | .leave row => GeneratesLeaves reads ldName row.playerConfigId

def playersOf : ConfigRow → List ℕ
  | .openingRack row => [row.playerConfigId]
  | .game row => [row.player1ConfigId, row.player2ConfigId]
  | .gamePair row => [row.player1ConfigId, row.player2ConfigId]
  | .leave row => [row.playerConfigId]

end Facts

section Keeps

def Keeps (reads reads' : Reads) (players : List ℕ) : Prop :=
  ∀ id ∈ players, ∀ player, reads.players id = some player → reads'.players id = some player ∧
    ∀ fileId ∈ filesOf player, ∀ file, reads.files fileId = some file →
    reads'.files fileId = some file

variable {reads reads' : Reads} {ldName : Text} {players : List ℕ} {id id₁ id₂ : ℕ}
  {player : PlayerConfig} {capture : Bool} {row : ConfigRow}

theorem PlaysOn.keep (h : PlaysOn reads ldName id player) (hkeeps : Keeps reads reads' players)
    (hid : id ∈ players) :
    PlaysOn reads' ldName id player := by
  obtain ⟨hplayer, hfiles⟩ := hkeeps id hid player h.found
  obtain ⟨kwg, klv, hkwg, hklv, htypes⟩ := h.files
  have hkwg := hfiles _ (by simp [filesOf]) kwg hkwg
  have hklv := hfiles _ (by simp [filesOf]) klv hklv
  exact ⟨hplayer, h.known, kwg, klv, hkwg, hklv, htypes⟩

theorem Meet.keep (h : Meet reads ldName capture id₁ id₂) (hkeeps : Keeps reads reads' players)
    (h₁ : id₁ ∈ players) (h₂ : id₂ ∈ players) : Meet reads' ldName capture id₁ id₂ := by
  obtain ⟨player₁, player₂, hplayer₁, hplayer₂, hrest⟩ := h
  exact ⟨player₁, player₂, hplayer₁.keep hkeeps h₁, hplayer₂.keep hkeeps h₂, hrest⟩

theorem GeneratesLeaves.keep (h : GeneratesLeaves reads ldName id)
    (hkeeps : Keeps reads reads' players) (hid : id ∈ players) :
    GeneratesLeaves reads' ldName id := by
  obtain ⟨player, kwg, hplayer, hproblems, hkwg, hrole⟩ := h
  obtain ⟨hplayer, hfiles⟩ := hkeeps id hid player hplayer
  exact ⟨player, kwg, hplayer, hproblems, hfiles _ (by simp [filesOf]) kwg hkwg, hrole⟩

theorem ConfigLoads.keep (h : ConfigLoads reads ldName row)
    (hkeeps : Keeps reads reads' (playersOf row)) :
    ConfigLoads reads' ldName row := by
  cases row with
  | openingRack row =>
    obtain ⟨player, hplayer, hranks⟩ := h
    exact ⟨player, hplayer.keep hkeeps List.mem_cons_self, hranks⟩
  | game row =>
    exact ⟨h.1.keep hkeeps List.mem_cons_self (List.mem_cons_of_mem _ List.mem_cons_self), h.2⟩
  | gamePair row =>
    exact Meet.keep h hkeeps List.mem_cons_self (List.mem_cons_of_mem _ List.mem_cons_self)
  | leave row => exact GeneratesLeaves.keep h hkeeps List.mem_cons_self

theorem Keeps.of_le
    (hplayers : ∀ id player, reads.players id = some player → reads'.players id = some player)
    (hfiles : ∀ id file, reads.files id = some file → reads'.files id = some file)
    (players : List ℕ) :
    Keeps reads reads' players :=
  fun id _ player hplayer ↦ ⟨hplayers id player hplayer, fun fileId _ file ↦ hfiles fileId file⟩

end Keeps

section Validations

variable {reads : Reads} {quoted : Quoted} {ldName : Text} {id : ℕ} {capture : Bool} {pair : ℕ × ℕ}
  {players : List (String × ℕ)} {files : List Compat.PlayerFiles} {label : String} {maxResults : ℤ}
  {row : ConfigRow} {checked : CheckedJob} {letterdist : InputData}

theorem of_playerFileNames {lexicon leaves : Text}
    (h : reads.playerFileNames id = some (lexicon, leaves)) :
    ∃ player kwg klv, reads.players id = some player ∧ reads.files player.kwgId = some kwg ∧
      reads.files player.klvId = some klv ∧ kwg.name.toList = lexicon ∧
      klv.name.toList = leaves := by
  simp only [Reads.playerFileNames, Option.bind_eq_bind, Option.bind_eq_some_iff, Option.some.injEq,
    Prod.mk.injEq] at h
  obtain ⟨player, hplayer, kwg, hkwg, klv, hklv, hnames⟩ := h
  exact ⟨player, kwg, klv, hplayer, hkwg, hklv, hnames⟩

theorem of_playerFiles (h : playerFiles reads players = .ok files)
    (hentry : (label, id) ∈ players) :
    ∃ lexicon leaves, reads.playerFileNames id = some (lexicon, leaves) ∧
    ⟨label, lexicon, leaves⟩ ∈ files := by
  induction players generalizing files with
  | nil => cases hentry
  | cons entry players ih =>
    obtain ⟨label', id'⟩ := entry
    rw [playerFiles] at h
    split at h
    · cases h
    next lexicon leaves hnames =>
    cases hrest : playerFiles reads players with
    | error e =>
      rw [hrest] at h
      cases h
    | ok rest =>
      rw [hrest] at h
      cases h
      obtain heq | hentry := List.mem_cons.1 hentry
      · cases heq
        exact ⟨lexicon, leaves, hnames, List.mem_cons_self⟩
      · obtain ⟨lexicon', leaves', hnames', hmem⟩ := ih hrest hentry
        exact ⟨lexicon', leaves', hnames', List.mem_cons_of_mem _ hmem⟩

theorem playsOn_of_compatibility
    (h : validatePlayerCompatibility reads quoted ldName players = .ok ())
    (hentry : (label, id) ∈ players) : ∃ player, PlaysOn reads ldName id player := by
  rw [validatePlayerCompatibility] at h
  obtain ⟨files, hfiles, h⟩ := bind_eq_ok h
  obtain ⟨lexicon, leaves, hnames, hmem⟩ := of_playerFiles hfiles hentry
  obtain ⟨player, kwg, klv, hplayer, hkwg, hklv, rfl, rfl⟩ := of_playerFileNames hnames
  have htype := Compat.validateJobFiles_eq_ok.1 (of_mapError_eq_ok h) _ hmem
  exact ⟨player, hplayer, htype.known, kwg, klv, hkwg, hklv, htype.lexicon, htype.leaves⟩

theorem agree_of_sharedOptions {id₁ id₂ : ℕ}
    (h : validateSharedPlayerOptions reads id₁ id₂ = .ok ())
    {player₁ player₂ : PlayerConfig} (h₁ : reads.players id₁ = some player₁)
    (h₂ : reads.players id₂ = some player₂) :
    ∀ w₁ ∈ player₁.winpctId, ∀ w₂ ∈ player₂.winpctId, w₁ = w₂ := by
  intro w₁ hw₁ w₂ hw₂
  rw [validateSharedPlayerOptions] at h
  split_ifs at h with hsame
  · subst hsame
    rw [h₁] at h₂
    cases h₂
    exact Option.some.inj (hw₁.symm.trans hw₂)
  · rw [h₁, h₂] at h
    rw [Option.mem_def] at hw₁ hw₂
    have hagree := of_ensure_eq_ok h
    simp only [hw₁, hw₂] at hagree
    simpa using hagree

theorem captures_of_cap {id₁ id₂ : ℕ} (h : validateCapturePlayCap reads id₁ id₂ = .ok ())
    {player : PlayerConfig} (hid : id = id₁ ∨ id = id₂) (hplayer : reads.players id = some player) :
    capturesShort player = false := by
  rw [validateCapturePlayCap, each_eq_ok] at h
  refine of_ensure_eq_ok (h player (List.mem_filterMap.2 ⟨id, ?_, hplayer⟩))
  rw [List.mem_dedup]
  simpa using hid

theorem meet_of_validatePairing (h : validatePairing reads quoted ldName capture pair = .ok ()) :
    Meet reads ldName capture pair.1 pair.2 := by
  rw [validatePairing] at h
  obtain ⟨⟨⟩, hshared, h⟩ := bind_eq_ok h
  obtain ⟨⟨⟩, hcompat, h⟩ := bind_eq_ok h
  obtain ⟨player₁, h₁⟩ := playsOn_of_compatibility hcompat List.mem_cons_self
  obtain ⟨player₂, h₂⟩ :=
    playsOn_of_compatibility hcompat (List.mem_cons_of_mem _ List.mem_cons_self)
  refine ⟨player₁, player₂, h₁, h₂, agree_of_sharedOptions hshared h₁.found h₂.found,
    fun hcapture ↦ ?_⟩
  rw [if_pos hcapture] at h
  exact ⟨captures_of_cap h (.inl rfl) h₁.found, captures_of_cap h (.inr rfl) h₂.found⟩

theorem requirePlayer_eq_ok {message : String} {player : PlayerConfig}
    (h : requirePlayer reads id message = .ok player) : reads.players id = some player := by
  rw [requirePlayer] at h
  split at h
  · next found hfound =>
    cases h
    exact hfound
  · cases h

theorem ranks_of_validate (h : validateOpeningRackPlayer reads id maxResults = .ok ()) :
    ∃ player, reads.players id = some player ∧ Ranks player maxResults := by
  rw [validateOpeningRackPlayer] at h
  obtain ⟨player, hplayer, h⟩ := bind_eq_ok h
  simp only [ensure_bind_eq_ok, ensure_eq_ok] at h
  exact ⟨player, requirePlayer_eq_ok hplayer, h.1, h.2.1, h.2.2⟩

theorem generatesLeaves_of_validate (h : validateLeavePlayer reads quoted ldName id = .ok ()) :
    GeneratesLeaves reads ldName id := by
  rw [validateLeavePlayer] at h
  obtain ⟨player, hplayer, h⟩ := bind_eq_ok h
  split at h
  · cases h
  next kwg hkwg =>
  simp only [ensure_bind_eq_ok, ensure_eq_ok] at h
  exact ⟨player, kwg, requirePlayer_eq_ok hplayer, h.1, hkwg, h.2.1, h.2.2⟩

theorem even_of_fields {config : GameConfig} (h : config.fields = []) :
    config.gamesPerBatch % 2 = 0 := by
  simp only [GameConfig.fields, matchTestFields, List.append_eq_nil_iff, refuse_eq_nil,
    not_lt, not_and, not_not] at h
  exact h.2 h.1.1.1.2.1.1

theorem configLoads_of_jobConfig {pair : Option (ℕ × ℕ)} (hvalid : checked.body.config.fields = [])
    (hmeet : ∀ p ∈ pair, playersOf row = [p.1, p.2] →
      Meet reads checked.letterdistName (capturesPositions checked.body.config) p.1 p.2)
    (hrow : jobConfig reads quoted checked letterdist pair = .ok row) :
    ConfigLoads reads checked.letterdistName row := by
  rw [jobConfig] at hrow
  split at hrow
  · next config htype hconfig =>
    rw [openingRackRow] at hrow
    obtain ⟨⟨⟩, hcompat, hrow⟩ := bind_eq_ok hrow
    obtain ⟨⟨⟩, hranks, hrow⟩ := bind_eq_ok hrow
    obtain ⟨index, -, hrow⟩ := bind_eq_ok hrow
    cases hrow
    obtain ⟨player, hplayer⟩ := playsOn_of_compatibility hcompat List.mem_cons_self
    obtain ⟨found, hfound, hranks⟩ := ranks_of_validate hranks
    rw [hplayer.found] at hfound
    cases hfound
    exact ⟨player, hplayer, hranks⟩
  · next config htype hconfig =>
    obtain _ | ⟨player1, player2⟩ := pair
    · cases hrow
    cases hrow
    rw [hconfig] at hvalid hmeet
    exact ⟨hmeet _ rfl rfl, even_of_fields hvalid⟩
  · next config htype hconfig =>
    obtain _ | ⟨player1, player2⟩ := pair
    · cases hrow
    cases hrow
    rw [hconfig] at hmeet
    exact hmeet _ rfl rfl
  · next config htype hconfig =>
    rw [leaveRow] at hrow
    obtain ⟨⟨⟩, hleave, hrow⟩ := bind_eq_ok hrow
    obtain ⟨index, -, hrow⟩ := bind_eq_ok hrow
    cases hrow
    exact generatesLeaves_of_validate hleave
  · cases hrow

end Validations

end Birdtest.Admin.Loadable
