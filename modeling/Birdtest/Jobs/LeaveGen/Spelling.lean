import Birdtest.Jobs.Racks.Canonical
import Birdtest.Jobs.Racks.Index

namespace Birdtest.Jobs.LeaveGen.Spelling

open Birdtest.Base.Bags Birdtest.Base.Checked Birdtest.Jobs.Racks

variable {E : Type}

structure RackOccurrence (E : Type) where
  rack : Text
  count : ℤ
  mean : E

def maxTileChars : ℕ := 8

/-- The longest a full rack's string can be: seven letters of up to four bytes. -/
def maxRackBytes : ℕ := 7 * 4

inductive Refusal (E : Type)
  | noRacks
  | malformed (rack : Text)
  | empty
  | tooMany (rack : Text) (tiles : ℕ)
  | notFull (rack : Text) (tiles : ℕ)
  | notOccurred (rack : Text) (count : ℤ)
  | notFinite (rack : Text) (mean : E)
  | farOff (rack : Text) (mean : E)
  | duplicate (rack : Text)

def Refusal.message (quoted : Text → String) (shown : E → String) : Refusal E → String
  | .noRacks => "leave result carried no rack occurrences"
  | .malformed rack =>
    "leave result: rack " ++ quoted rack ++
      " has a malformed bracketed tile (unclosed, stray, nested, empty or over " ++
      toString maxTileChars ++ " characters)"
  | .empty => "leave result: empty rack"
  | .tooMany rack tiles =>
    "leave result: rack " ++ quoted rack ++ " has " ++ toString tiles ++
      " tiles, more than a rack holds"
  | .notFull rack tiles =>
    "leave result: rack " ++ quoted rack ++ " has " ++ toString tiles ++
      " tiles; leave generation reports full racks of " ++ toString rackSize
  | .notOccurred rack count =>
    "leave result: rack " ++ quoted rack ++ " reports " ++ toString count ++
      " occurrences; a rack that did not occur should not be reported"
  | .notFinite rack mean =>
    "leave result: mean equity of " ++ quoted rack ++ " is not a finite number (" ++ shown mean ++
      ") — the client sent uninitialised or corrupted data"
  | .farOff rack mean =>
    "leave result: rack " ++ quoted rack ++ " has an implausible mean equity " ++ shown mean
  | .duplicate rack =>
    "leave result: rack " ++ quoted rack ++ " appears more than once; occurrences are summed on " ++
      "receipt, so a duplicate would inflate the generation's coverage"

/-- What is asked of a mean equity: whether it is finite, and whether it is further from zero
than `MAX_ABS_RACK_MEAN`. -/
structure Means (E : Type) where
  isFinite : E → Bool
  isFarOff : E → Bool

def scanTiles : Option ℕ → ℕ → Text → Option ℕ
  | none, tiles, [] => some tiles
  | some _, _, [] => none
  | none, tiles, c :: rest =>
    if c = '[' then scanTiles (some 0) tiles rest
    else if c = ']' then none
    else scanTiles none (tiles + 1) rest
  | some letterChars, tiles, c :: rest =>
    if c = ']' then
      if letterChars = 0 ∨ maxTileChars < letterChars then none
      else scanTiles none (tiles + 1) rest
    else if c = '[' then none
    else scanTiles (some (letterChars + 1)) tiles rest

def rackTiles (rack : Text) : Option ℕ := scanTiles none 0 rack

def checkRack (rack : Text) : Except (Refusal E) Unit :=
  match rackTiles rack with
  | none => .error (.malformed rack)
  | some tiles => do
    ensure (tiles ≠ 0) .empty
    ensure (tiles ≤ rackSize) (.tooMany rack tiles)

section Responses

variable (means : Means E)

def checkOccurrence (o : RackOccurrence E) : Except (Refusal E) Unit := do
  checkRack o.rack
  let tiles := (rackTiles o.rack).getD 0
  ensure (tiles = rackSize) (.notFull o.rack tiles)
  ensure (1 ≤ o.count) (.notOccurred o.rack o.count)
  ensure (means.isFinite o.mean) (.notFinite o.rack o.mean)
  ensure (means.isFarOff o.mean = false) (.farOff o.rack o.mean)

def checkFrom (seen : List Text) : List (RackOccurrence E) → Except (Refusal E) Unit
  | [] => .ok ()
  | o :: racks => do
    checkOccurrence means o
    ensure (o.rack ∉ seen) (.duplicate o.rack)
    checkFrom (o.rack :: seen) racks

def checkRackOccurrences (racks : List (RackOccurrence E)) : Except (Refusal E) Unit :=
  checkFrom means [] racks

def spellAsTheUniverse (rack : Text) : Text :=
  if maxRackBytes < byteLength rack ∨ rack.any fun c ↦ c = '[' ∨ c = ']' then rack
  else rack.insertionSort (· ≤ ·)

def spell (o : RackOccurrence E) : RackOccurrence E := { o with rack := spellAsTheUniverse o.rack }

def processResponse (racks : List (RackOccurrence E)) :
    Except (Refusal E) (List (RackOccurrence E)) := do
  ensure (racks ≠ []) .noRacks
  -- after spelling: one rack under two spellings is a duplicate too
  checkRackOccurrences means (racks.map spell)
  .ok (racks.map spell)

end Responses

section Refusing

variable {means : Means E} {seen : List Text} {racks record : List (RackOccurrence E)}
  {o : RackOccurrence E}

theorem checkFrom_eq_ok : checkFrom means seen racks = .ok () ↔
    (∀ o ∈ racks, checkOccurrence means o = .ok ()) ∧ (racks.map (·.rack)).Nodup ∧
      ∀ o ∈ racks, o.rack ∉ seen := by
  induction racks generalizing seen with
  | nil => simp [checkFrom]
  | cons o racks ih =>
    cases hcheck : checkOccurrence means o with
    | error e => simp [checkFrom, hcheck, bind, Except.bind]
    | ok u =>
      rw [checkFrom, hcheck, ok_bind, ensure_bind_eq_ok, ih, List.forall_mem_cons,
        List.forall_mem_cons, List.map_cons, List.nodup_cons]
      simp only [hcheck, true_and, List.mem_cons, not_or, List.mem_map, not_exists, not_and]
      refine ⟨fun ⟨hseen, hchecks, hnodup, hne⟩ ↦ ?_,
        fun ⟨hchecks, ⟨hne, hnodup⟩, hseen, hold⟩ ↦ ?_⟩
      · exact ⟨hchecks, ⟨fun o' ho' ↦ (hne o' ho').1, hnodup⟩, hseen, fun o' ho' ↦ (hne o' ho').2⟩
      · exact ⟨hseen, hchecks, hnodup, fun o' ho' ↦ ⟨hne o' ho', hold o' ho'⟩⟩

theorem checkRackOccurrences_eq_ok : checkRackOccurrences means racks = .ok () ↔
    (∀ o ∈ racks, checkOccurrence means o = .ok ()) ∧ (racks.map (·.rack)).Nodup := by
  simp [checkRackOccurrences, checkFrom_eq_ok]

theorem of_processResponse (h : processResponse means racks = .ok record) :
    checkRackOccurrences means (racks.map spell) = .ok () ∧ record = racks.map spell := by
  rw [processResponse, ensure_bind_eq_ok] at h
  obtain ⟨⟨⟩, hcheck, h⟩ := bind_eq_ok h.2
  exact ⟨hcheck, (Except.ok.inj h).symm⟩

end Refusing

section Universe

variable {distribution : LetterDistribution} {index : RackIndex} {rack t : Text}
  {means : Means E} {racks record : List (RackOccurrence E)}

theorem spellAsTheUniverse_of_perm (hlen : rack.length = rackSize) (hsorted : rack.Pairwise (· ≤ ·))
    (hplain : ∀ c ∈ rack, c ≠ '[' ∧ c ≠ ']') (h : t.Perm rack) : spellAsTheUniverse t = rack := by
  have hbytes : byteLength t ≤ maxRackBytes := by
    have hle := List.sum_le_card_nsmul (t.map Char.utf8Size) 4 fun n hn ↦ by
      obtain ⟨c, -, rfl⟩ := List.mem_map.1 hn
      exact Char.utf8Size_le_four c
    rw [List.length_map, h.length_eq, hlen] at hle
    exact hle
  have hbrackets : ¬t.any fun c ↦ c = '[' ∨ c = ']' := by
    simp only [List.any_eq_true, decide_eq_true_eq, not_exists, not_and, not_or]
    exact fun c hc ↦ hplain c (h.mem_iff.1 hc)
  rw [spellAsTheUniverse, if_neg (not_or.2 ⟨Nat.not_lt.2 hbytes, hbrackets⟩)]
  exact ((List.perm_insertionSort _ _).trans h).eq_of_pairwise' (List.pairwise_insertionSort _ _)
    hsorted

theorem of_seedGeneration {chunk : ℕ} {hchunk : 0 < chunk} {all : List Text}
    (hlt : chunk < 2 ^ 64) (h : seedGeneration distribution chunk hchunk = .ok (.ok all)) :
    ∃ index, RackIndex.new distribution rackSize = .ok index ∧ all = index.racks := by
  cases hnew : RackIndex.new distribution rackSize with
  | error e =>
    rw [seedGeneration, hnew] at h
    cases h
  | ok index =>
    rw [seedGeneration_eq hnew hchunk hlt] at h
    cases h
    exact ⟨index, rfl, rfl⟩

theorem of_mem_racks (hnew : RackIndex.new distribution rackSize = .ok index)
    (hrack : rack ∈ index.racks) : rack.length = rackSize ∧ rack.Pairwise (· ≤ ·) ∧
      ∀ c ∈ rack, ∃ tile ∈ distribution.tiles, tile.letter = c := by
  obtain ⟨htiles, hsize⟩ := of_new hnew
  have hsorted := index.sorted
  rw [RackIndex.racks, htiles, hsize] at hrack
  rw [htiles] at hsorted
  refine ⟨length_of_mem_draws hrack, pairwise_of_mem_draws le_refl ?_ hrack, fun c hc ↦ ?_⟩
  · rw [bag, List.map_map]
    exact hsorted.imp fun h ↦ h.le
  · have hmem := mem_of_mem_draws hrack hc
    rw [bag, List.map_map] at hmem
    obtain ⟨tile, htile, hletter⟩ := List.mem_map.1 hmem
    exact ⟨tile, htile, hletter⟩

theorem checkRackOccurrences_ne_ok (means : Means E)
    (hrack : ∀ t : Text, t.Perm rack → spellAsTheUniverse t = rack)
    {i j : ℕ} {o o' : RackOccurrence E} (hij : i < j) (hi : racks[i]? = some o)
    (hj : racks[j]? = some o') (ho : o.rack.Perm rack) (ho' : o'.rack.Perm rack) :
    checkRackOccurrences means (racks.map spell) ≠ .ok () := by
  intro h
  have hnodup := (checkRackOccurrences_eq_ok.1 h).2
  have hi' : ((racks.map spell).map (·.rack))[i]? = some rack := by
    simp [hi, spell, hrack o.rack ho]
  have hj' : ((racks.map spell).map (·.rack))[j]? = some rack := by
    simp [hj, spell, hrack o'.rack ho']
  obtain ⟨hlt, hi'⟩ := List.getElem?_eq_some_iff.1 hi'
  obtain ⟨hlt', hj'⟩ := List.getElem?_eq_some_iff.1 hj'
  exact hij.ne ((hnodup.getElem_inj_iff).1 (hi'.trans hj'.symm))

/-- A rack of a generation's universe is what every order of its letters is spelled as, so a
result that is accepted has it once at most, and one with two spellings of it is refused. A rack
looked for among positions is found from any order of its tiles and from MAGPIE's own, exactly
where no letter of several characters is a run of letters of one. -/
theorem spellings_meet {bytes : ByteArray} {origin : String} {upper : Char → Text}
    (hparse : parse bytes origin = .ok distribution) (hopen : upper '[' = ['['])
    (hclose : upper ']' = [']']) :
    (∀ {chunk : ℕ} {hchunk : 0 < chunk} {all : List Text}, chunk < 2 ^ 64 →
      seedGeneration distribution chunk hchunk = .ok (.ok all) →
      (∀ tile ∈ distribution.tiles, tile.letter ≠ '[' ∧ tile.letter ≠ ']') → ∀ rack ∈ all,
      (∀ t : Text, t.Perm rack → spellAsTheUniverse t = rack) ∧
      ∀ {E : Type} (means : Means E) (racks : List (RackOccurrence E)),
        (∀ record, processResponse means racks = .ok record →
          (record.map (·.rack)).count rack ≤ 1) ∧
        ∀ {i j : ℕ} {o o' : RackOccurrence E}, i < j → racks[i]? = some o → racks[j]? = some o' →
          o.rack.Perm rack → o'.rack.Perm rack →
          ∃ e, checkRackOccurrences means (racks.map spell) = .error e) ∧
    (Plain upper distribution.letters →
      (distribution.ReadsBack upper ↔ Unambiguous distribution.letters)) := by
  refine ⟨fun {chunk hchunk all} hlt hseed hplain rack hrack ↦ ?_, fun hp ↦ ?_⟩
  · obtain ⟨index, hnew, rfl⟩ := of_seedGeneration hlt hseed
    obtain ⟨hlen, hsorted, hletters⟩ := of_mem_racks hnew hrack
    have hplain' : ∀ c ∈ rack, c ≠ '[' ∧ c ≠ ']' := by
      intro c hc
      obtain ⟨tile, htile, rfl⟩ := hletters c hc
      exact hplain tile htile
    have hspell : ∀ t : Text, t.Perm rack → spellAsTheUniverse t = rack :=
      fun t ht ↦ spellAsTheUniverse_of_perm hlen hsorted hplain' ht
    refine ⟨hspell, fun {E} means racks ↦ ⟨fun record hrecord ↦ ?_, ?_⟩⟩
    · obtain ⟨hcheck, rfl⟩ := of_processResponse hrecord
      exact List.nodup_iff_count_le_one.1 (checkRackOccurrences_eq_ok.1 hcheck).2 rack
    · intro i j o o' hij hi hj ho ho'
      have hne := checkRackOccurrences_ne_ok means hspell hij hi hj ho ho'
      cases hcheck : checkRackOccurrences means (racks.map spell) with
      | error e => exact ⟨e, rfl⟩
      | ok u => exact absurd hcheck hne
  · have hlen := letter_ne_nil_of_parse hparse
    exact ⟨unambiguous_of_readsBack hp hlen hopen hclose,
      readsBack_of_unambiguous hp hlen hopen hclose⟩

def shortLetters : String := "?,?,2,0,0\nN,n,6,1,0\nY,y,2,4,0"

theorem exists_parse_shortLetters : ∃ distribution,
    parse shortLetters.toUTF8 "short" = .ok distribution ∧
    distribution.tiles = [⟨'?', 2⟩, ⟨'N', 6⟩, ⟨'Y', 2⟩] ∧ distribution.unenumerable = none ∧
    distribution.letters = [⟨['?'], ['?'], 0⟩, ⟨['N'], ['n'], 1⟩, ⟨['Y'], ['y'], 4⟩] := by
  obtain ⟨rows, hrows, htiles, hletters, hnone, htokens⟩ : ∃ rows,
      (shortLetters.toList.splitOn '\n').foldlM Rows.addLine Rows.empty = .ok rows ∧
      rows.tiles = [⟨'?', 2⟩, ⟨'N', 6⟩, ⟨'Y', 2⟩] ∧ rows.machineLetters = ['?', 'N', 'Y'] ∧
      rows.unenumerable = none ∧
      rows.letters = [⟨['?'], ['?'], 0⟩, ⟨['N'], ['n'], 1⟩, ⟨['Y'], ['y'], 4⟩] :=
    ⟨_, rfl, rfl, rfl, rfl, rfl⟩
  obtain ⟨distribution, hparse, hsorted, hnone'⟩ := exists_parse hrows
    (by simp [htiles]) (by rw [hletters]; decide)
  refine ⟨distribution, hparse, ?_, hnone'.trans hnone,
    (letters_of_parse hparse hrows).trans htokens⟩
  rw [hsorted, htiles]
  decide

theorem exists_spellings_meet : ∃ distribution all,
    parse shortLetters.toUTF8 "short" = .ok distribution ∧
    seedGeneration distribution 3 (by decide) = .ok (.ok all) ∧
    spellAsTheUniverse ['N', 'N', 'Y', 'N', 'N', 'N', '?'] ∈ all ∧
    distribution.canonicalRack (fun c ↦ [c.toUpper]) ['?', 'Y', 'N'] = some ['N', 'Y', '?'] := by
  obtain ⟨distribution, hparse, htiles, hnone, hletters⟩ := exists_parse_shortLetters
  obtain ⟨index, hnew⟩ := exists_new rackSize hnone
  have hseed := seedGeneration_eq hnew (by decide : 0 < 3) (by decide)
  obtain ⟨ha, hb⟩ := @spellings_meet distribution _ _ (fun c ↦ [c.toUpper]) hparse
    (by decide) (by decide)
  have hrack : ['?', 'N', 'N', 'N', 'N', 'N', 'Y'] ∈ index.racks := by
    obtain ⟨hindex, hsize⟩ := of_new hnew
    rw [RackIndex.racks, hindex, htiles, hsize]
    decide
  have hspelled := (ha (by decide) hseed (by rw [htiles]; decide) _ hrack).1
    ['N', 'N', 'Y', 'N', 'N', 'N', '?'] (by decide)
  have hplain : Plain (fun c ↦ [c.toUpper]) distribution.letters := by
    rw [hletters]
    exact ⟨by decide, by decide, by simp; decide⟩
  have hreads := (hb hplain).2 (by rw [hletters]; unfold Unambiguous; decide)
  refine ⟨distribution, index.racks, hparse, hseed, hspelled ▸ hrack, ?_⟩
  have hanswer := (hreads [0, 2, 1] (by rw [hletters]; decide)).1
  rw [hletters] at hanswer
  rwa [show magpieSpelling [⟨['?'], ['?'], 0⟩, ⟨['N'], ['n'], 1⟩, ⟨['Y'], ['y'], 4⟩]
    ([0, 2, 1] : List ℕ) = ['N', 'Y', '?'] by rw [magpieSpelling_coe]; decide] at hanswer

def longLetters : String := "?,?,2,0,0\nN,n,6,1,0\nY,y,2,4,0\nNY,ny,1,10,0"

theorem not_readsBack : ∃ distribution,
    parse longLetters.toUTF8 "long" = .ok distribution ∧
    Plain (fun c ↦ [c.toUpper]) distribution.letters ∧
    magpieSpelling distribution.letters ([1, 2] : List ℕ) = ['N', 'Y'] ∧
    distribution.canonicalRack (fun c ↦ [c.toUpper]) ['N', 'Y'] = some ['[', 'N', 'Y', ']'] := by
  obtain ⟨rows, hrows, htiles, hmachine, hletters⟩ : ∃ rows,
      (longLetters.toList.splitOn '\n').foldlM Rows.addLine Rows.empty = .ok rows ∧
      rows.tiles = [⟨'?', 2⟩, ⟨'N', 6⟩, ⟨'Y', 2⟩, ⟨'N', 1⟩] ∧
      rows.machineLetters = ['?', 'N', 'Y', 'N'] ∧
      rows.letters = [⟨['?'], ['?'], 0⟩, ⟨['N'], ['n'], 1⟩, ⟨['Y'], ['y'], 4⟩,
        ⟨['N', 'Y'], ['n', 'y'], 10⟩] := ⟨_, rfl, rfl, rfl, rfl⟩
  obtain ⟨distribution, hparse, -, -⟩ := @exists_parse _ "long" _ hrows
    (by simp [htiles]) (by rw [hmachine]; decide)
  have hletters := (letters_of_parse hparse hrows).trans hletters
  have hplain : Plain (fun c ↦ [c.toUpper]) distribution.letters := by
    rw [hletters]
    exact ⟨by decide, by decide, by simp; decide⟩
  have hml : distribution.letters[3]? = some ⟨['N', 'Y'], ['n', 'y'], 10⟩ := by rw [hletters]; rfl
  have hself : readTile distribution.letters (['N', 'Y'] ++ []) = some (3, 2) :=
    readTile_self hplain hml
  have hread := readTiles_append hself (List.cons_ne_nil _ _)
  have hanswer : distribution.canonicalRack (fun c ↦ [c.toUpper]) _ = _ :=
    canonicalRack_flatMap hplain (by decide) (by decide) [1, 2]
  refine ⟨distribution, hparse, hplain, ?_, ?_⟩
  · rw [magpieSpelling_coe, hletters]
    decide
  · have hspelled : [1, 2].flatMap (spelled distribution.letters) = ['N', 'Y'] := by
      rw [hletters]
      decide
    rw [List.append_nil, readTiles] at hread
    rw [hspelled, hread] at hanswer
    rw [hanswer, Option.map_some, Option.map_some, magpieSpelling_coe, hletters]
    decide

end Universe

end Birdtest.Jobs.LeaveGen.Spelling
