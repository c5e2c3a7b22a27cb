import Birdtest.Cgp.Letters
import Mathlib.Data.List.SplitBy

namespace Birdtest.Cgp

open Birdtest.Jobs.Racks (Text)

structure Tile where
  letter : Text
  blank : Bool
  deriving DecidableEq

/-- A position as CGP states it, its numbers of a type `N`; `none` is an empty square. -/
structure Position (N : Type) where
  board : List (List (Option Tile))
  racks : List Tile × List Tile
  scores : N × N
  zeros : N

section Reading

variable {N : Type} (upper : Char → Text) (number : ℤ → N)

def tile (letter : Text) : Tile where
  letter := letter.flatMap upper
  blank := letter = ['?'] ∨ letter ≠ letter.flatMap upper

/-- `match(/\d+|[^\d]+/g)` -/
def runs (rowText : Text) : List Text := rowText.splitBy fun a b ↦ a.isDigit = b.isDigit

def readRun (run : Text) : Option (List (Option Tile)) :=
  if isNatural run then
    if natural run = 0 then none else some (List.replicate (natural run) none)
  else (splitLetters run).map fun letters ↦ letters.map fun letter ↦ some (tile upper letter)

def readRow (rowText : Text) : Option (List (Option Tile)) :=
  ((runs rowText).mapM (readRun upper)).map List.flatten

def readBoard (boardText : Text) : Option (List (List (Option Tile))) :=
  let rows := boardText.splitOn '/'
  rows.mapM fun rowText ↦ (readRow upper rowText).filter (·.length = rows.length)

def readRacks (racksText : Text) : Option (List Tile × List Tile) :=
  match racksText.splitOn '/' with
  | [rack₁, rack₂] => do
    let rack₁ ← splitLetters rack₁
    let rack₂ ← splitLetters rack₂
    some (rack₁.map (tile upper), rack₂.map (tile upper))
  | _ => none

def readScores (scoresText : Text) : Option (N × N) :=
  match scoresText.splitOn '/' with
  | [score₁, score₂] => do
    let score₁ ← integer score₁
    let score₂ ← integer score₂
    some (number score₁, number score₂)
  | _ => none

def parseCgp (cgp : Text) : Option (Position N) :=
  match fields cgp with
  | boardText :: racksText :: scoresText :: zerosText :: _ => do
    let board ← readBoard upper boardText
    let racks ← readRacks upper racksText
    let scores ← readScores number scoresText
    let zeros ← integer zerosText
    some ⟨board, racks, scores, number zeros⟩
  | _ => none

end Reading

section Writing

variable (lower : Text → Text)

/-- A tile's letter as it is written: in lower case where it is a blank that has been played. -/
def written (t : Tile) : Text := if t.blank ∧ t.letter ≠ ['?'] then lower t.letter else t.letter

def runText (run : List (Option Tile)) : Text :=
  if run.all (·.isNone) then Nat.toDigits 10 run.length
  else run.flatMap fun square ↦ square.elim [] fun t ↦ letterText (written lower t)

def rowText (row : List (Option Tile)) : Text :=
  (row.splitBy fun a b ↦ a.isNone = b.isNone).flatMap (runText lower)

def rackText (rack : List Tile) : Text := rack.flatMap fun t ↦ letterText (written lower t)

def cgpText (p : Position ℤ) (options : Text) : Text :=
  ['/'].intercalate (p.board.map (rowText lower)) ++ ' ' ::
    ((rackText lower p.racks.1 ++ '/' :: rackText lower p.racks.2) ++ ' ' ::
      ((decimal p.scores.1 ++ '/' :: decimal p.scores.2) ++ ' ' :: (decimal p.zeros ++ options)))

/-- A tile that says what its letter is: a letter in upper case, or, of a blank, one that has a
lower case; `?` is a blank that has not been played. -/
structure Tile.Valid (upper : Char → Text) (t : Tile) : Prop where
  isLetter : IsLetter (written lower t)
  upper_letter : t.letter.flatMap upper = t.letter
  question : t.letter = ['?'] → t.blank = true
  lower_letter : t.blank = true → t.letter ≠ ['?'] →
    (lower t.letter).flatMap upper = t.letter ∧ lower t.letter ≠ t.letter

structure Position.Valid {N : Type} (upper : Char → Text) (p : Position N) : Prop where
  board_ne_nil : p.board ≠ []
  square : ∀ row ∈ p.board, row.length = p.board.length
  tiles : ∀ row ∈ p.board, ∀ t, some t ∈ row → t.Valid lower upper
  racks : (∀ t ∈ p.racks.1, t.Valid lower upper) ∧ ∀ t ∈ p.racks.2, t.Valid lower upper

end Writing

def Position.map {M N : Type} (number : M → N) (p : Position M) : Position N where
  board := p.board
  racks := p.racks
  scores := (number p.scores.1, number p.scores.2)
  zeros := number p.zeros

section ReadBack

variable {N : Type} {upper : Char → Text} {number : ℤ → N} {lower : Text → Text} {t : Tile}
  {rack : List Tile} {run row : List (Option Tile)} {p : Position ℤ}

theorem tile_written (h : t.Valid lower upper) : tile upper (written lower t) = t := by
  obtain ⟨letter, blank⟩ := t
  have hupper := h.upper_letter
  have hquestion := h.question
  have hlower := h.lower_letter
  simp only at hupper hquestion hlower
  simp only [tile, written]
  split
  · next hblank =>
    obtain ⟨hflat, hne⟩ := hlower hblank.1 hblank.2
    simp [hflat, hne, hblank.1]
  · next hblank =>
    simp only [hupper, ne_eq, not_true_eq_false, or_false, Tile.mk.injEq, true_and]
    cases blank <;> simp_all

theorem splitLetters_rackText (h : ∀ t ∈ rack, t.Valid lower upper) :
    splitLetters (rackText lower rack) = some (rack.map (written lower)) := by
  have hletters : ∀ letter ∈ rack.map (written lower), IsLetter letter := by
    intro letter hletter
    obtain ⟨t, ht, rfl⟩ := List.mem_map.1 hletter
    exact (h t ht).isLetter
  rw [← splitLetters_flatMap hletters, List.flatMap_map]
  rfl

theorem map_tile_written (h : ∀ t ∈ rack, t.Valid lower upper) :
    (rack.map (written lower)).map (tile upper) = rack := by
  rw [List.map_map]
  exact (List.map_congr_left fun t ht ↦ tile_written (h t ht)).trans (List.map_id _)

theorem mapM_map_eq_some {α β : Type} {f : α → Option β} {g : β → α} {l : List β}
    (h : ∀ b ∈ l, f (g b) = some b) : (l.map g).mapM f = some l := by
  induction l with
  | nil => rfl
  | cons b l ih =>
    rw [List.map_cons, List.mapM_cons, h b (by simp), ih fun b hb ↦ h b (by simp [hb])]
    rfl

theorem of_mapM_eq_some {α β : Type} {f : α → Option β} {l : List α} {l' : List β}
    (h : l.mapM f = some l') : l'.length = l.length ∧ ∀ b ∈ l', ∃ a ∈ l, f a = some b := by
  induction l generalizing l' with
  | nil =>
    cases h
    simp
  | cons a l ih =>
    simp only [List.mapM_cons, Option.bind_eq_bind, Option.bind_eq_some_iff] at h
    obtain ⟨b, hb, bs, hbs, h⟩ := h
    cases h
    obtain ⟨hlength, hmem⟩ := ih hbs
    refine ⟨congrArg Nat.succ hlength, fun b' hb' ↦ ?_⟩
    obtain rfl | hb' := List.mem_cons.1 hb'
    · exact ⟨a, by simp, hb⟩
    · obtain ⟨a', ha', heq⟩ := hmem b' hb'
      exact ⟨a', by simp [ha'], heq⟩

theorem eq_of_isChain {α β : Type} {f : α → β} {a : α} {l : List α}
    (h : (a :: l).IsChain fun a b ↦ f a = f b) : ∀ b ∈ a :: l, f b = f a := by
  induction l generalizing a with
  | nil => simp
  | cons b l ih =>
    rw [List.isChain_cons_cons] at h
    intro c hc
    obtain rfl | hc := List.mem_cons.1 hc
    · rfl
    · exact (ih h.2 c hc).trans h.1.symm

theorem isChain_of_eq {α β : Type} {f : α → β} {b : β} {l : List α} (h : ∀ a ∈ l, f a = b) :
    l.IsChain fun a a' ↦ f a = f a' := by
  induction l with
  | nil => exact .nil
  | cons a l ih =>
    cases l with
    | nil => exact .singleton _
    | cons a' l =>
      rw [List.isChain_cons_cons]
      exact ⟨(h a (by simp)).trans (h a' (by simp)).symm, ih fun a ha ↦ h a (by simp [ha])⟩

theorem of_mem_rackText {c : Char} (h : ∀ t ∈ rack, t.Valid lower upper)
    (hc : c ∈ rackText lower rack) : c.isDigit = false ∧ c ≠ '/' ∧ isSpace c = false := by
  obtain ⟨t, ht, hc⟩ := List.mem_flatMap.1 hc
  exact of_mem_letterText (h t ht).isLetter hc

theorem rackText_ne_nil (hne : rack ≠ []) (h : ∀ t ∈ rack, t.Valid lower upper) :
    rackText lower rack ≠ [] := by
  obtain ⟨t, rack, rfl⟩ := List.exists_cons_of_ne_nil hne
  have htext := letterText_ne_nil (h t (by simp)).isLetter
  simp [rackText, htext]

theorem runText_map_some (hne : rack ≠ []) :
    runText lower (rack.map some) = rackText lower rack := by
  obtain ⟨t, rack, rfl⟩ := List.exists_cons_of_ne_nil hne
  simp [runText, rackText, List.flatMap_map]

theorem runText_replicate (n : ℕ) :
    runText lower (List.replicate n none) = Nat.toDigits 10 n := by
  simp [runText]

theorem exists_map_some (h : ∀ square ∈ run, square.isNone = false) :
    ∃ rack : List Tile, run = rack.map some := by
  induction run with
  | nil => exact ⟨[], rfl⟩
  | cons square run ih =>
    obtain ⟨rack, rfl⟩ := ih fun square hsquare ↦ h square (by simp [hsquare])
    cases square with
    | none => simpa using h none (by simp)
    | some t => exact ⟨t :: rack, rfl⟩

theorem readRun_runText (hne : run ≠ []) (hvalid : ∀ t, some t ∈ run → t.Valid lower upper)
    {empty : Bool} (hrun : ∀ square ∈ run, square.isNone = empty) :
    runText lower run ≠ [] ∧ (∀ c ∈ runText lower run, c.isDigit = empty) ∧
      readRun upper (runText lower run) = some run := by
  cases empty with
  | true =>
    have hreplicate : run = List.replicate run.length none :=
      List.eq_replicate_iff.2 ⟨rfl, fun square hsquare ↦ by simpa using hrun square hsquare⟩
    have hpos : run.length ≠ 0 := by simpa using hne
    rw [hreplicate, runText_replicate]
    refine ⟨Nat.toDigits_ne_nil, fun c hc ↦ isDigit_of_mem hc, ?_⟩
    rw [readRun, if_pos (isNatural_toDigits _), natural_toDigits, if_neg hpos]
  | false =>
    obtain ⟨rack, rfl⟩ := exists_map_some hrun
    have hrack : rack ≠ [] := by simpa using hne
    have hvalid' : ∀ t ∈ rack, t.Valid lower upper := fun t ht ↦ hvalid t (List.mem_map_of_mem ht)
    have hdigit : ∀ c ∈ rackText lower rack, c.isDigit = false :=
      fun c hc ↦ (of_mem_rackText hvalid' hc).1
    rw [runText_map_some hrack]
    refine ⟨rackText_ne_nil hrack hvalid', hdigit, ?_⟩
    have hnatural : ¬isNatural (rackText lower rack) = true := by
      obtain ⟨c, text, htext⟩ := List.exists_cons_of_ne_nil (rackText_ne_nil hrack hvalid')
      simp [isNatural, htext, hdigit c (by simp [htext])]
    rw [readRun, if_neg hnatural, splitLetters_rackText hvalid', Option.map_some]
    nth_rewrite 2 [← map_tile_written hvalid']
    simp

theorem of_mem_runText {c : Char} (hvalid : ∀ t, some t ∈ run → t.Valid lower upper)
    (hc : c ∈ runText lower run) : c ≠ '/' ∧ isSpace c = false := by
  unfold runText at hc
  split at hc
  · have hdigit := isDigit_of_mem hc
    exact ⟨by rintro rfl; exact absurd hdigit (by decide), isSpace_of_isDigit hdigit⟩
  · obtain ⟨_ | t, hsquare, hc⟩ := List.mem_flatMap.1 hc
    · simp at hc
    · exact (of_mem_letterText (hvalid t hsquare).isLetter hc).2

theorem of_mem_rowText {c : Char} (hvalid : ∀ t, some t ∈ row → t.Valid lower upper)
    (hc : c ∈ rowText lower row) : c ≠ '/' ∧ isSpace c = false := by
  obtain ⟨run, hrun, hc⟩ := List.mem_flatMap.1 hc
  refine of_mem_runText (fun t ht ↦ hvalid t ?_) hc
  rw [← List.flatten_splitBy (fun a b ↦ a.isNone = b.isNone) row]
  exact List.mem_flatten.2 ⟨run, hrun, ht⟩

theorem readRow_rowText (hvalid : ∀ t, some t ∈ row → t.Valid lower upper) :
    readRow upper (rowText lower row) = some row := by
  let groups := row.splitBy fun a b ↦ a.isNone = b.isNone
  have hgroup : ∀ run ∈ groups, ∃ empty : Bool, (∀ square ∈ run, square.isNone = empty) ∧
      runText lower run ≠ [] ∧ (∀ c ∈ runText lower run, c.isDigit = empty) ∧
      readRun upper (runText lower run) = some run := by
    intro run hrun
    obtain ⟨square, rest, rfl⟩ := List.exists_cons_of_ne_nil (List.ne_nil_of_mem_splitBy hrun)
    have hchain := List.isChain_of_mem_splitBy hrun
    simp only [decide_eq_true_eq] at hchain
    have hkind := eq_of_isChain (f := Option.isNone) hchain
    have hmem : ∀ t, some t ∈ square :: rest → t.Valid lower upper := by
      intro t ht
      refine hvalid t ?_
      rw [← List.flatten_splitBy (fun a b ↦ a.isNone = b.isNone) row]
      exact List.mem_flatten.2 ⟨_, hrun, ht⟩
    exact ⟨_, hkind, readRun_runText (List.cons_ne_nil _ _) hmem hkind⟩
  have hruns : runs (rowText lower row) = groups.map (runText lower) := by
    rw [rowText, List.flatMap_def]
    refine List.splitBy_flatten ?_ ?_ ?_
    · intro hnil
      obtain ⟨run, hrun, heq⟩ := List.mem_map.1 hnil
      obtain ⟨empty, -, hne, -⟩ := hgroup run hrun
      exact hne heq
    · intro text htext
      obtain ⟨run, hrun, rfl⟩ := List.mem_map.1 htext
      obtain ⟨empty, -, -, hdigit, -⟩ := hgroup run hrun
      simpa using isChain_of_eq hdigit
    · rw [List.isChain_map]
      refine (List.isChain_getLast_head_splitBy _ row).imp_of_mem_imp ?_
      rintro run run' hrun hrun' ⟨hne, hne', hkinds⟩
      obtain ⟨empty, hkind, htext, hdigit, -⟩ := hgroup run hrun
      obtain ⟨empty', hkind', htext', hdigit', -⟩ := hgroup run' hrun'
      refine ⟨htext, htext', ?_⟩
      rw [hkind _ (List.getLast_mem _), hkind' _ (List.head_mem _)] at hkinds
      rwa [hdigit _ (List.getLast_mem _), hdigit' _ (List.head_mem _)]
  have hread : (groups.map (runText lower)).mapM (readRun upper) = some groups :=
    mapM_map_eq_some fun run hrun ↦ (hgroup run hrun).choose_spec.2.2.2
  rw [readRow, hruns, hread, Option.map_some]
  exact congrArg some (List.flatten_splitBy _ _)

theorem readBoard_boardText {board : List (List (Option Tile))} (hne : board ≠ [])
    (hsquare : ∀ row ∈ board, row.length = board.length)
    (hvalid : ∀ row ∈ board, ∀ t, some t ∈ row → t.Valid lower upper) :
    readBoard upper (['/'].intercalate (board.map (rowText lower))) = some board := by
  have hrows : (['/'].intercalate (board.map (rowText lower))).splitOn '/' =
      board.map (rowText lower) := by
    refine List.splitOn_intercalate '/' (fun text htext ↦ ?_) (by simpa using hne)
    obtain ⟨row, hrow, rfl⟩ := List.mem_map.1 htext
    exact fun hmem ↦ (of_mem_rowText (hvalid row hrow) hmem).1 rfl
  simp only [readBoard, hrows, List.length_map]
  refine mapM_map_eq_some fun row hrow ↦ ?_
  rw [readRow_rowText (hvalid row hrow), Option.filter_some,
    if_pos (by simpa using hsquare row hrow)]

theorem readRacks_racksText {racks : List Tile × List Tile}
    (h₁ : ∀ t ∈ racks.1, t.Valid lower upper) (h₂ : ∀ t ∈ racks.2, t.Valid lower upper) :
    readRacks upper (rackText lower racks.1 ++ '/' :: rackText lower racks.2) = some racks := by
  have hsplit : (rackText lower racks.1 ++ '/' :: rackText lower racks.2).splitOn '/' =
      [rackText lower racks.1, rackText lower racks.2] :=
    splitOn_pair (fun h ↦ (of_mem_rackText h₁ h).2.1 rfl) fun h ↦ (of_mem_rackText h₂ h).2.1 rfl
  simp only [readRacks, hsplit, splitLetters_rackText h₁, splitLetters_rackText h₂,
    Option.bind_eq_bind, Option.bind_some, map_tile_written h₁, map_tile_written h₂]

theorem readScores_scoresText (number : ℤ → N) (scores : ℤ × ℤ) :
    readScores number (decimal scores.1 ++ '/' :: decimal scores.2) =
      some (number scores.1, number scores.2) := by
  have hsplit : (decimal scores.1 ++ '/' :: decimal scores.2).splitOn '/' =
      [decimal scores.1, decimal scores.2] :=
    splitOn_pair (fun h ↦ (of_mem_decimal h).1 rfl) fun h ↦ (of_mem_decimal h).1 rfl
  simp only [readScores, hsplit, integer_decimal, Option.bind_eq_bind, Option.bind_some]

theorem not_space_of_pair {a b : Text} (ha : ∀ c ∈ a, isSpace c = false)
    (hb : ∀ c ∈ b, isSpace c = false) : ∀ c ∈ a ++ '/' :: b, isSpace c = false := by
  intro c hc
  obtain hc | rfl | hc : c ∈ a ∨ c = '/' ∨ c ∈ b := by simpa using hc
  exacts [ha c hc, by decide, hb c hc]

theorem not_space_of_intercalate {texts : List Text}
    (h : ∀ text ∈ texts, ∀ c ∈ text, isSpace c = false) :
    ∀ c ∈ ['/'].intercalate texts, isSpace c = false := by
  induction texts with
  | nil => simp
  | cons text texts ih =>
    cases texts with
    | nil => simpa using h
    | cons text' texts =>
      rw [List.intercalate_cons_cons, List.append_assoc, List.singleton_append]
      exact not_space_of_pair (h text (by simp)) (ih fun text ht ↦ h text (by simp [ht]))

/-- A position on a square board is read back from the CGP of it, whatever options follow. -/
theorem parseCgp_cgpText (number : ℤ → N) (h : p.Valid lower upper) {options : Text}
    (hoptions : ∀ c ∈ options.head?, isSpace c = true) :
    parseCgp upper number (cgpText lower p options) = some (p.map number) := by
  have hboard : ∀ c ∈ ['/'].intercalate (p.board.map (rowText lower)), isSpace c = false := by
    refine not_space_of_intercalate fun text htext c hc ↦ ?_
    obtain ⟨row, hrow, rfl⟩ := List.mem_map.1 htext
    exact (of_mem_rowText (h.tiles row hrow) hc).2
  have hracks := not_space_of_pair (fun c hc ↦ (of_mem_rackText h.racks.1 hc).2.2)
    (fun c hc ↦ (of_mem_rackText h.racks.2 hc).2.2)
  have hscores := not_space_of_pair (fun c hc ↦ (of_mem_decimal (z := p.scores.1) hc).2)
    (fun c hc ↦ (of_mem_decimal (z := p.scores.2) hc).2)
  have hzeros : ∀ c ∈ decimal p.zeros, isSpace c = false := fun c hc ↦ (of_mem_decimal hc).2
  have hne : ['/'].intercalate (p.board.map (rowText lower)) ≠ [] := by
    intro hnil
    have hread := readBoard_boardText h.board_ne_nil h.square h.tiles
    rw [hnil] at hread
    exact absurd hread (by simp [readBoard, readRow, runs, Option.filter])
  have hrest : ∃ rest, fields (decimal p.zeros ++ options) = decimal p.zeros :: rest := by
    cases options with
    | nil =>
      rw [List.append_nil, fields_single (decimal_ne_nil _) hzeros]
      exact ⟨[], rfl⟩
    | cons c options => exact ⟨_, fields_cons (decimal_ne_nil _) hzeros (hoptions c rfl)⟩
  obtain ⟨rest, hrest⟩ := hrest
  rw [parseCgp, cgpText, fields_cons hne hboard (by decide),
    fields_cons (by simp) hracks (by decide), fields_cons (by simp) hscores (by decide), hrest]
  simp only [readBoard_boardText h.board_ne_nil h.square h.tiles,
    readRacks_racksText h.racks.1 h.racks.2, readScores_scoresText, integer_decimal,
    Option.bind_eq_bind, Option.bind_some]
  rfl

/-- Whatever the text, only a square board is a position's. -/
theorem square_of_parseCgp {cgp : Text} {q : Position N}
    (h : parseCgp upper number cgp = some q) :
    0 < q.board.length ∧ ∀ row ∈ q.board, row.length = q.board.length := by
  unfold parseCgp at h
  split at h
  · next boardText _ _ _ _ _ =>
    simp only [Option.bind_eq_bind, Option.bind_eq_some_iff] at h
    obtain ⟨board, hboard, racks, -, scores, -, zeros, -, h⟩ := h
    cases h
    obtain ⟨hlength, hrows⟩ := of_mapM_eq_some hboard
    refine ⟨?_, fun row hrow ↦ ?_⟩
    · rw [hlength]
      exact List.length_pos_iff.2 (List.splitOn_ne_nil _ _)
    · obtain ⟨text, -, hrow⟩ := hrows row hrow
      rw [hlength]
      simpa using (Option.filter_eq_some_iff.1 hrow).2
  · cases h

end ReadBack

end Birdtest.Cgp
