import Birdtest.Jobs.Racks.Distribution
import Mathlib.Data.Multiset.Sort

namespace Birdtest.Jobs.Racks

section Canonical

def position (letters : List Letter) (letter : Text) : Option ℕ :=
  letters.findIdx? (·.letter = letter)

def better {α : Type} (key : α → ℕ) (best : Option α) (a : α) : Option α :=
  best.elim (some a) fun b ↦ if key b ≤ key a then some a else some b

def maxByKey {α : Type} (key : α → ℕ) (l : List α) : Option α :=
  l.foldl (better key) none

def readTile (letters : List Letter) (rest : Text) : Option (ℕ × ℕ) :=
  match rest with
  | '[' :: inner =>
    if ']' ∈ inner then
      let letter := inner.takeWhile (· ≠ ']')
      (position letters letter).map fun ml ↦ (ml, letter.length + 2)
    else none
  | rest =>
    (maxByKey (fun l ↦ byteLength l.1.letter)
      (letters.zipIdx.filter fun l ↦ l.1.letter.isPrefixOf rest)).map fun l ↦
        (l.2, l.1.letter.length)

/-- No letter is empty, so each tile read takes the text further. -/
def readTiles (letters : List Letter) : Text → Option (List ℕ)
  | [] => some []
  | c :: cs => do
    let (ml, len) ← readTile letters (c :: cs)
    let tiles ← readTiles letters (cs.drop (len - 1))
    some (ml :: tiles)
termination_by rest => rest.length

def BlankLast (a b : ℕ) : Prop := b = 0 ∨ (a ≠ 0 ∧ a ≤ b)

instance : DecidableRel BlankLast := fun _ _ ↦ inferInstanceAs (Decidable (_ ∨ _))

def spelled (letters : List Letter) (ml : ℕ) : Text :=
  (letters[ml]?).elim [] fun l ↦
    if 1 < l.letter.length then '[' :: l.letter ++ [']'] else l.letter

def LetterDistribution.canonicalRack (distribution : LetterDistribution) (upper : Char → Text)
    (typed : Text) : Option Text := do
  let text := (typed.filter (!isWhitespace ·)).flatMap upper
  let tiles ← readTiles distribution.letters text
  some ((tiles.insertionSort BlankLast).flatMap (spelled distribution.letters))

end Canonical

def magpieSpelling (letters : List Letter) (rack : Multiset ℕ) : Text :=
  ((rack.filter (· ≠ 0)).sort (· ≤ ·) ++ List.replicate (rack.count 0) 0).flatMap (spelled letters)

/-- Letters that nothing but their boundaries is lost of in a spelling. -/
structure Plain (upper : Char → Text) (letters : List Letter) : Prop where
  nodup : (letters.map (·.letter)).Nodup
  upper : ∀ l ∈ letters, l.letter.flatMap upper = l.letter
  plain : ∀ l ∈ letters, ∀ c ∈ l.letter, isWhitespace c = false ∧ c ≠ '[' ∧ c ≠ ']'

/-- No letter of several characters is a run of letters of one. -/
def Unambiguous (letters : List Letter) : Prop :=
  ∀ l ∈ letters, 1 < l.letter.length → ∃ c ∈ l.letter, ∀ l' ∈ letters, l'.letter ≠ [c]

section Sorting

instance : IsTrans ℕ BlankLast where
  trans a b c h h' := by
    unfold BlankLast at *
    omega

instance : Std.Total BlankLast where
  total a b := by
    unfold BlankLast
    omega

instance : Std.Antisymm BlankLast where
  antisymm a b h h' := by
    unfold BlankLast at *
    omega

/-- Sorting by the keys puts the tiles in the order that MAGPIE spells them in. -/
theorem insertionSort_blankLast (tiles : List ℕ) : tiles.insertionSort BlankLast =
    ((tiles : Multiset ℕ).filter (· ≠ 0)).sort (· ≤ ·) ++
      List.replicate ((tiles : Multiset ℕ).count 0) 0 := by
  have hsort : (((tiles : Multiset ℕ).filter (· ≠ 0)).sort (· ≤ ·)).Pairwise BlankLast := by
    refine (Multiset.pairwise_sort _ _).imp_of_mem fun {a b} ha _ hle ↦ .inr ⟨?_, hle⟩
    exact (Multiset.mem_filter.1 ((Multiset.mem_sort _).1 ha)).2
  have hpairwise : (((tiles : Multiset ℕ).filter (· ≠ 0)).sort (· ≤ ·) ++
      List.replicate ((tiles : Multiset ℕ).count 0) 0).Pairwise BlankLast := by
    refine List.pairwise_append.2 ⟨hsort, List.pairwise_replicate.2 (.inr (.inl rfl)), ?_⟩
    exact fun a _ b hb ↦ .inl (List.eq_of_mem_replicate hb)
  have hperm : (tiles : Multiset ℕ) = ((((tiles : Multiset ℕ).filter (· ≠ 0)).sort (· ≤ ·) ++
      List.replicate ((tiles : Multiset ℕ).count 0) 0 : List ℕ) : Multiset ℕ) := by
    rw [← Multiset.coe_add, Multiset.sort_eq, Multiset.coe_replicate, ← Multiset.filter_eq',
      Multiset.add_comm]
    exact (Multiset.filter_add_not (· = 0) _).symm
  exact ((List.perm_insertionSort _ _).trans (Multiset.coe_eq_coe.1 hperm)).eq_of_pairwise
    (fun a b _ _ h h' ↦ antisymm_of BlankLast h h') (List.pairwise_insertionSort _ _) hpairwise

end Sorting

section Candidates

variable {α : Type} {key : α → ℕ} {a b : α} {l : List α}

theorem foldl_better (l : List α) (b : α) : ∃ a ∈ b :: l, l.foldl (better key) (some b) = some a ∧
    ∀ c ∈ b :: l, key c ≤ key a := by
  induction l generalizing b with
  | nil => exact ⟨b, by simp, rfl, by simp⟩
  | cons x l ih =>
    by_cases hle : key b ≤ key x
    · obtain ⟨a, ha, hfold, hmax⟩ := ih x
      refine ⟨a, List.mem_cons_of_mem _ ha, ?_, ?_⟩
      · simpa [better, hle] using hfold
      · rintro c (_ | ⟨_, hc⟩)
        · exact hle.trans (hmax x (by simp))
        · exact hmax c hc
    · obtain ⟨a, ha, hfold, hmax⟩ := ih b
      refine ⟨a, ?_, ?_, ?_⟩
      · obtain rfl | ha := List.mem_cons.1 ha
        · simp
        · simp [ha]
      · simpa [better, hle] using hfold
      · intro c hc
        obtain rfl | rfl | hc : c = b ∨ c = x ∨ c ∈ l := by simpa using hc
        · exact hmax c (by simp)
        · exact (Nat.le_of_not_le hle).trans (hmax b (by simp))
        · exact hmax c (by simp [hc])

theorem exists_maxByKey (key : α → ℕ) (ha : a ∈ l) :
    ∃ b ∈ l, maxByKey key l = some b ∧ ∀ c ∈ l, key c ≤ key b := by
  cases l with
  | nil => simp at ha
  | cons x l => exact foldl_better l x

end Candidates

section Reading

variable {letters : List Letter} {upper : Char → Text} {l : Letter} {c : Char} {ml : ℕ}
  {tiles : List ℕ} {rest t : Text}

theorem spelled_of_length_eq_one (hml : letters[ml]? = some l) (hl : l.letter = [c]) :
    spelled letters ml = [c] := by
  simp [spelled, hml, hl]

theorem spelled_of_one_lt_length (hml : letters[ml]? = some l) (hl : 1 < l.letter.length) :
    spelled letters ml = '[' :: (l.letter ++ [']']) := by
  simp [spelled, hml, hl]

theorem position_eq (hnodup : (letters.map (·.letter)).Nodup) (hml : letters[ml]? = some l) :
    position letters l.letter = some ml := by
  obtain ⟨hlt, rfl⟩ := List.getElem?_eq_some_iff.1 hml
  refine List.findIdx?_eq_some_iff_getElem.2 ⟨hlt, by simp, fun j hj ↦ ?_⟩
  have hne := (List.pairwise_iff_getElem.1 hnodup) j ml (by simp; omega) (by simpa using hlt) hj
  simpa using hne

theorem single_or_several (hlen : ∀ l ∈ letters, l.letter ≠ []) (hml : ml < letters.length) :
    ∃ l, letters[ml]? = some l ∧ ((∃ c, l.letter = [c]) ∨ 1 < l.letter.length) := by
  refine ⟨letters[ml], List.getElem?_eq_getElem hml, ?_⟩
  have hpos := List.length_pos_iff.2 (hlen _ (List.getElem_mem hml))
  obtain hone | hmore := Nat.eq_or_lt_of_le hpos
  · exact .inl (List.length_eq_one_iff.1 hone.symm)
  · exact .inr hmore

theorem exists_letter_of_isPrefix (hlen : ∀ l ∈ letters, l.letter ≠ [])
    (htiles : ∀ ml ∈ tiles, ml < letters.length) (ht : t <+: tiles.flatMap (spelled letters))
    (hbracket : '[' ∉ t) : ∀ c ∈ t, ∃ l ∈ letters, l.letter = [c] := by
  induction tiles generalizing t with
  | nil =>
    intro c hc
    simp [List.prefix_nil.1 ht] at hc
  | cons ml tiles ih =>
    cases t with
    | nil => simp
    | cons c' t =>
      obtain ⟨l, hml, ⟨c, hl⟩ | hmore⟩ := single_or_several hlen (htiles ml (by simp))
      · rw [List.flatMap_cons, spelled_of_length_eq_one hml hl, List.singleton_append] at ht
        obtain ⟨rfl, hrest⟩ := List.cons_prefix_cons.1 ht
        intro c'' hc''
        obtain rfl | hc'' := List.mem_cons.1 hc''
        · exact ⟨l, List.mem_of_getElem? hml, hl⟩
        · have htiles' : ∀ ml ∈ tiles, ml < letters.length := fun ml hml ↦ htiles ml (by simp [hml])
          exact ih htiles' hrest (fun h ↦ hbracket (by simp [h])) c'' hc''
      · rw [List.flatMap_cons, spelled_of_one_lt_length hml hmore] at ht
        obtain ⟨rfl, -⟩ := List.cons_prefix_cons.1 ht
        simp at hbracket

theorem readTile_bracketed (hp : Plain upper letters) (hml : letters[ml]? = some l) (rest : Text) :
    readTile letters ('[' :: (l.letter ++ ']' :: rest)) = some (ml, l.letter.length + 2) := by
  have hmem : l ∈ letters := List.mem_of_getElem? hml
  have htake : (l.letter ++ ']' :: rest).takeWhile (· ≠ ']') = l.letter := by
    rw [List.takeWhile_append_of_pos fun c hc ↦ by simpa using (hp.plain l hmem c hc).2.2]
    simp
  simp only [readTile]
  rw [if_pos (by simp), htake, position_eq hp.nodup hml]
  rfl

theorem readTile_single (hp : Plain upper letters) (hml : letters[ml]? = some l)
    (hl : l.letter = [c])
    (hone : ∀ l' ∈ letters, l'.letter <+: c :: rest → l'.letter = [c]) :
    readTile letters (c :: rest) = some (ml, 1) := by
  have hmem : l ∈ letters := List.mem_of_getElem? hml
  have hc : c ≠ '[' := (hp.plain l hmem c (by simp [hl])).2.1
  have hcandidate : (l, ml) ∈ letters.zipIdx.filter fun l ↦ l.1.letter.isPrefixOf (c :: rest) := by
    simp [List.mem_zipIdx_iff_getElem?, hml, hl]
  obtain ⟨⟨l', ml'⟩, hmem', hread, -⟩ :=
    exists_maxByKey (fun l : Letter × ℕ ↦ byteLength l.1.letter) hcandidate
  have hl' : l'.letter = [c] ∧ letters[ml']? = some l' := by
    simp only [List.mem_filter, List.mem_zipIdx_iff_getElem?, List.isPrefixOf_iff_prefix] at hmem'
    exact ⟨hone l' (List.mem_of_getElem? hmem'.1) hmem'.2, hmem'.1⟩
  have hml' : ml' = ml := by
    have hposition := position_eq hp.nodup hl'.2
    rw [hl'.1, ← hl, position_eq hp.nodup hml] at hposition
    exact (Option.some_inj.1 hposition).symm
  simp only [readTile]
  split
  · next h => exact absurd (List.cons.inj h).1 hc
  · rw [hread, Option.map_some, hl'.1, hml']
    rfl

theorem readTiles_append (hread : readTile letters (t ++ rest) = some (ml, t.length))
    (ht : t ≠ []) : readTiles letters (t ++ rest) = (readTiles letters rest).map (ml :: ·) := by
  obtain ⟨c, t, rfl⟩ := List.exists_cons_of_ne_nil ht
  rw [List.cons_append] at hread ⊢
  rw [readTiles, hread]
  have hdrop : (t ++ rest).drop ((c :: t).length - 1) = rest := by simp
  simp only [Option.bind_eq_bind, Option.bind_some, hdrop]
  cases readTiles letters rest <;> rfl

theorem readTiles_flatMap (hp : Plain upper letters) (hlen : ∀ l ∈ letters, l.letter ≠ [])
    (hu : Unambiguous letters) (htiles : ∀ ml ∈ tiles, ml < letters.length) :
    readTiles letters (tiles.flatMap (spelled letters)) = some tiles := by
  induction tiles with
  | nil => rw [List.flatMap_nil, readTiles]
  | cons ml tiles ih =>
    have htiles' : ∀ ml ∈ tiles, ml < letters.length := fun ml hml ↦ htiles ml (by simp [hml])
    obtain ⟨l, hml, ⟨c, hl⟩ | hmore⟩ := single_or_several hlen (htiles ml (by simp))
    · have hone : ∀ l' ∈ letters, l'.letter <+: c :: tiles.flatMap (spelled letters) →
          l'.letter = [c] := by
        intro l' hl' ht
        have hsingle := exists_letter_of_isPrefix hlen htiles
          (by rwa [List.flatMap_cons, spelled_of_length_eq_one hml hl])
          (fun h ↦ (hp.plain l' hl' _ h).2.1 rfl)
        have hshort : ¬1 < l'.letter.length := by
          intro hlong
          obtain ⟨c', hc', hnone⟩ := hu l' hl' hlong
          obtain ⟨l, hl, hc⟩ := hsingle c' hc'
          exact hnone l hl hc
        obtain ⟨c', t, hcons⟩ := List.exists_cons_of_ne_nil (hlen l' hl')
        rw [hcons] at ht hshort ⊢
        have : t = [] := List.length_eq_zero_iff.1 (by simpa using hshort)
        rw [(List.cons_prefix_cons.1 ht).1, this]
      have hread := readTile_single hp hml hl hone
      rw [List.flatMap_cons, spelled_of_length_eq_one hml hl,
        readTiles_append hread (List.cons_ne_nil _ _), ih htiles', Option.map_some]
    · have hread : readTile letters
          ('[' :: (l.letter ++ [']']) ++ tiles.flatMap (spelled letters)) =
            some (ml, ('[' :: (l.letter ++ [']'])).length) := by
        simpa using readTile_bracketed hp hml (tiles.flatMap (spelled letters))
      rw [List.flatMap_cons, spelled_of_one_lt_length hml hmore,
        readTiles_append hread (List.cons_ne_nil _ _), ih htiles', Option.map_some]

theorem plain_spelled (hp : Plain upper letters) (hopen : upper '[' = ['['])
    (hclose : upper ']' = [']']) (ml : ℕ) :
    (∀ c ∈ spelled letters ml, isWhitespace c = false) ∧
      (spelled letters ml).flatMap upper = spelled letters ml := by
  cases hml : letters[ml]? with
  | none => simp [spelled, hml]
  | some l =>
    have hmem : l ∈ letters := List.mem_of_getElem? hml
    have hupper := hp.upper l hmem
    have hplain : ∀ c ∈ l.letter, isWhitespace c = false := fun c hc ↦ (hp.plain l hmem c hc).1
    simp only [spelled, hml, Option.elim_some]
    split
    · have hbrackets : isWhitespace '[' = false ∧ isWhitespace ']' = false := by decide
      refine ⟨fun c hc ↦ ?_, ?_⟩
      · obtain rfl | hc | rfl : c = '[' ∨ c ∈ l.letter ∨ c = ']' := by simpa [or_assoc] using hc
        exacts [hbrackets.1, hplain c hc, hbrackets.2]
      · simp [hopen, hclose, hupper]
    · exact ⟨hplain, hupper⟩

theorem typed_flatMap (hp : Plain upper letters) (hopen : upper '[' = ['['])
    (hclose : upper ']' = [']']) (tiles : List ℕ) :
    ((tiles.flatMap (spelled letters)).filter (!isWhitespace ·)).flatMap upper =
      tiles.flatMap (spelled letters) := by
  have hfilter : (tiles.flatMap (spelled letters)).filter (!isWhitespace ·) =
      tiles.flatMap (spelled letters) := by
    refine List.filter_eq_self.2 fun c hc ↦ ?_
    obtain ⟨ml, -, hc⟩ := List.mem_flatMap.1 hc
    simpa using (plain_spelled hp hopen hclose ml).1 c hc
  rw [hfilter, List.flatMap_assoc]
  exact congrArg (tiles.flatMap ·) (funext fun ml ↦ (plain_spelled hp hopen hclose ml).2)

theorem magpieSpelling_coe (tiles : List ℕ) : magpieSpelling letters tiles =
    (tiles.insertionSort BlankLast).flatMap (spelled letters) := by
  rw [insertionSort_blankLast]
  rfl

theorem eq_of_isPrefix_of_byteLength_le {t' : Text} (ht : t <+: t')
    (hlen : byteLength t' ≤ byteLength t) : t = t' := by
  obtain ⟨s, rfl⟩ := ht
  cases s with
  | nil => simp
  | cons c s =>
    have := Char.utf8Size_pos c
    simp only [byteLength, List.map_append, List.sum_append, List.map_cons, List.sum_cons] at hlen
    omega

/-- A text that is a letter is read as that letter, though letters of one character spell it. -/
theorem readTile_self (hp : Plain upper letters)
    (hml : letters[ml]? = some l) : readTile letters l.letter = some (ml, l.letter.length) := by
  have hmem : l ∈ letters := List.mem_of_getElem? hml
  have hcandidate : (l, ml) ∈ letters.zipIdx.filter fun l' ↦ l'.1.letter.isPrefixOf l.letter := by
    simp [List.mem_zipIdx_iff_getElem?, hml]
  obtain ⟨⟨l', ml'⟩, hmem', hread, hmax⟩ :=
    exists_maxByKey (fun l : Letter × ℕ ↦ byteLength l.1.letter) hcandidate
  simp only [List.mem_filter, List.mem_zipIdx_iff_getElem?, List.isPrefixOf_iff_prefix] at hmem'
  have heq : l'.letter = l.letter := eq_of_isPrefix_of_byteLength_le hmem'.2 (hmax _ hcandidate)
  have hml' : ml' = ml := by
    have hposition := position_eq hp.nodup hmem'.1
    rw [heq, position_eq hp.nodup hml] at hposition
    exact (Option.some_inj.1 hposition).symm
  simp only [readTile]
  split
  · next h => exact absurd rfl (hp.plain l hmem '[' (by simp [h])).2.1
  · rw [hread, Option.map_some, heq, hml']

theorem exists_tiles_of_singles (h : ∀ c ∈ t, ∃ l ∈ letters, l.letter = [c]) :
    ∃ tiles : List ℕ, tiles.flatMap (spelled letters) = t ∧
      ∀ ml ∈ tiles, ml < letters.length ∧ ∃ c ∈ t, spelled letters ml = [c] := by
  induction t with
  | nil => exact ⟨[], rfl, by simp⟩
  | cons c t ih =>
    obtain ⟨tiles, hflat, htiles⟩ := ih fun c hc ↦ h c (by simp [hc])
    obtain ⟨l, hl, hc⟩ := h c (by simp)
    obtain ⟨ml, hml⟩ := List.mem_iff_getElem?.1 hl
    have hspelled := spelled_of_length_eq_one hml hc
    refine ⟨ml :: tiles, by rw [List.flatMap_cons, hspelled, hflat, List.singleton_append], ?_⟩
    intro ml' hml'
    obtain rfl | hml' := List.mem_cons.1 hml'
    · exact ⟨(List.getElem?_eq_some_iff.1 hml).1, c, by simp, hspelled⟩
    · obtain ⟨hlt, c', hc', heq⟩ := htiles ml' hml'
      exact ⟨hlt, c', by simp [hc'], heq⟩

end Reading

section Parsed

variable {line : Text} {row : Row} {rows rows' : Rows}

theorem token_ne_nil (h : readLine line = .ok row) : row.token ≠ [] := by
  unfold readLine at h
  split at h
  · split at h
    · cases h
    split at h
    · cases h
    split at h
    · cases h
    · repeat' split at h
      all_goals cases h
      simp
  · cases h

theorem letter_ne_nil_of_addLine (h : rows.addLine line = .ok rows')
    (hrows : ∀ l ∈ rows.letters, l.letter ≠ []) : ∀ l ∈ rows'.letters, l.letter ≠ [] := by
  unfold Rows.addLine at h
  split at h
  · cases h
    exact hrows
  · cases hread : readLine (stripSuffix '\r' line) with
    | error e =>
      rw [hread] at h
      cases h
    | ok row =>
      rw [hread] at h
      cases h
      intro l hl
      obtain hl | rfl := List.mem_append.1 hl |>.imp_right List.mem_singleton.1
      · exact hrows l hl
      · exact token_ne_nil hread

theorem letter_ne_nil_of_foldlM {lines : List Text} (h : lines.foldlM Rows.addLine rows = .ok rows')
    (hrows : ∀ l ∈ rows.letters, l.letter ≠ []) : ∀ l ∈ rows'.letters, l.letter ≠ [] := by
  induction lines generalizing rows with
  | nil =>
    cases h
    exact hrows
  | cons line lines ih =>
    rw [List.foldlM_cons] at h
    cases hadd : rows.addLine line with
    | error e =>
      rw [hadd] at h
      cases h
    | ok rows₁ =>
      rw [hadd] at h
      exact ih h (letter_ne_nil_of_addLine hadd hrows)

theorem letter_ne_nil_of_parse {bytes : ByteArray} {origin : String}
    {distribution : LetterDistribution} (h : parse bytes origin = .ok distribution) :
    ∀ l ∈ distribution.letters, l.letter ≠ [] := by
  unfold parse at h
  split at h
  · cases h
  · split at h
    · cases h
    · next hrows =>
      split at h
      · cases h
      split at h
      · cases h
      · cases h
        exact letter_ne_nil_of_foldlM hrows (by simp [Rows.empty])

theorem letters_of_parse {text origin : String} {distribution : LetterDistribution}
    (h : parse text.toUTF8 origin = .ok distribution)
    (hrows : (text.toList.splitOn '\n').foldlM Rows.addLine Rows.empty = .ok rows) :
    distribution.letters = rows.letters := by
  have htext : String.fromUTF8? text.toUTF8 = some text := dif_pos text.isValidUTF8
  unfold parse at h
  simp only [htext, hrows] at h
  split at h
  · cases h
  split at h
  · cases h
  · cases h
    rfl

end Parsed

section Spelling

variable {distribution : LetterDistribution} {upper : Char → Text}

/-- Every rack is found from a spelling of it, its tiles in any order, and from its own. -/
def LetterDistribution.ReadsBack (distribution : LetterDistribution) (upper : Char → Text) : Prop :=
  ∀ tiles : List ℕ, (∀ ml ∈ tiles, ml < distribution.letters.length) →
    distribution.canonicalRack upper (tiles.flatMap (spelled distribution.letters)) =
        some (magpieSpelling distribution.letters tiles) ∧
      distribution.canonicalRack upper (magpieSpelling distribution.letters tiles) =
        some (magpieSpelling distribution.letters tiles)

theorem canonicalRack_flatMap (hp : Plain upper distribution.letters) (hopen : upper '[' = ['['])
    (hclose : upper ']' = [']']) (tiles : List ℕ) :
    distribution.canonicalRack upper (tiles.flatMap (spelled distribution.letters)) =
      (readTiles distribution.letters (tiles.flatMap (spelled distribution.letters))).map
        fun tiles : List ℕ ↦ magpieSpelling distribution.letters tiles := by
  simp only [LetterDistribution.canonicalRack, typed_flatMap hp hopen hclose, magpieSpelling_coe]
  cases readTiles distribution.letters (tiles.flatMap (spelled distribution.letters)) <;> rfl

theorem readsBack_of_unambiguous (hp : Plain upper distribution.letters)
    (hlen : ∀ l ∈ distribution.letters, l.letter ≠ []) (hopen : upper '[' = ['['])
    (hclose : upper ']' = [']']) (hu : Unambiguous distribution.letters) :
    distribution.ReadsBack upper := by
  intro tiles htiles
  have hsorted : (tiles.insertionSort BlankLast).Perm tiles := List.perm_insertionSort _ _
  have htiles' : ∀ ml ∈ tiles.insertionSort BlankLast, ml < distribution.letters.length :=
    fun ml hml ↦ htiles ml (hsorted.mem_iff.1 hml)
  refine ⟨?_, ?_⟩
  · rw [canonicalRack_flatMap hp hopen hclose, readTiles_flatMap hp hlen hu htiles,
      Option.map_some]
  · rw [magpieSpelling_coe, canonicalRack_flatMap hp hopen hclose,
      readTiles_flatMap hp hlen hu htiles', Option.map_some, ← magpieSpelling_coe,
      Multiset.coe_eq_coe.2 hsorted]

theorem unambiguous_of_readsBack (hp : Plain upper distribution.letters)
    (hlen : ∀ l ∈ distribution.letters, l.letter ≠ []) (hopen : upper '[' = ['['])
    (hclose : upper ']' = [']']) (h : distribution.ReadsBack upper) :
    Unambiguous distribution.letters := by
  intro l hl hmore
  by_contra! hrun
  obtain ⟨ml, hml⟩ := List.mem_iff_getElem?.1 hl
  obtain ⟨tiles, hflat, htiles⟩ := exists_tiles_of_singles hrun
  have hread : readTiles distribution.letters l.letter = some [ml] := by
    have hself : readTile distribution.letters (l.letter ++ []) = some (ml, l.letter.length) := by
      simpa using readTile_self hp hml
    have hreads := readTiles_append hself (hlen l hl)
    rwa [List.append_nil, readTiles] at hreads
  have hanswer := (h tiles fun ml hml ↦ (htiles ml hml).1).1
  rw [canonicalRack_flatMap hp hopen hclose, hflat, hread, Option.map_some, Option.some_inj,
    magpieSpelling_coe, magpieSpelling_coe] at hanswer
  -- the answer is bracketed, and no tile asked for is
  have hbracket : '[' ∈ ([ml].insertionSort BlankLast).flatMap (spelled distribution.letters) := by
    simp [spelled_of_one_lt_length hml hmore]
  rw [hanswer] at hbracket
  obtain ⟨ml', hml', hmem⟩ := List.mem_flatMap.1 hbracket
  obtain ⟨-, c, hc, heq⟩ := htiles ml' ((List.mem_insertionSort _).1 hml')
  rw [heq, List.mem_singleton] at hmem
  exact (hp.plain l hl c hc).2.1 hmem.symm

end Spelling

end Birdtest.Jobs.Racks
