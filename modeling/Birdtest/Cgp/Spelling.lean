import Birdtest.Base.Utf16
import Birdtest.Cgp.Letters
import Birdtest.Jobs.Racks.Scatter

namespace Birdtest.Cgp

open Birdtest.Base.Utf16 Birdtest.Jobs.Racks

structure Uppercasing (upper : Char → Text) : Prop where
  upper_upper : ∀ c, ∀ d ∈ upper c, upper d = [d]
  upper_space : ∀ c, (isWhitespace c ∨ isSpace c) → upper c = [c]
  eq_of_space : ∀ c, ∀ d ∈ upper c, (isWhitespace d ∨ isSpace d) → d = c

def stripped (space : Char → Bool) (upper : Char → Text) (typed : Text) : Text :=
  (typed.filter (!space ·)).flatMap upper

def spelling (space : Char → Bool) (r : Char → Char → Prop) [DecidableRel r] (upper : Char → Text)
    (typed : Text) : Text :=
  (stripped space upper typed).insertionSort r

def rackSpelling : (upper : Char → Text) → Text → Text := spelling isSpace Before

def serverSpelling : (upper : Char → Text) → Text → Text := spelling isWhitespace (· ≤ ·)

/-- A text that the letters of a rack are typed in: in any order, each as something that is
upper-cased to it, with whitespace anywhere. -/
def Types (upper : Char → Text) (rack typed : Text) : Prop :=
  ∃ letters : List (Text × Char), (letters.map Prod.snd).Perm rack ∧
    (∀ l ∈ letters, l.1.flatMap upper = [l.2]) ∧
    typed.filter (!isWhitespace ·) = letters.flatMap Prod.fst

structure Agree (upper : Char → Text) (typed : Text) : Prop where
  eq : rackSpelling upper typed = serverSpelling upper typed
  idempotent : rackSpelling upper (rackSpelling upper typed) = rackSpelling upper typed ∧
    serverSpelling upper (serverSpelling upper typed) = serverSpelling upper typed
  perm : ∀ typed' : Text, typed'.Perm typed →
    rackSpelling upper typed' = rackSpelling upper typed ∧
      serverSpelling upper typed' = serverSpelling upper typed
  rack : ∀ {distribution : LetterDistribution} {size i : ℕ} {index : RackIndex} {rack : Text},
    RackIndex.new distribution size = .ok index → index.rackAt i = .ok (some rack) →
    (∀ tile ∈ distribution.tiles, upper tile.letter = [tile.letter] ∧
      isWhitespace tile.letter = false) →
    Types upper rack typed → rackSpelling upper typed = rack ∧ serverSpelling upper typed = rack

/-- No character that only one of the two takes for whitespace, and no two that they put in a
different order. -/
structure Common (upper : Char → Text) (typed : Text) : Prop where
  nextLine : '\u0085' ∉ typed
  byteOrderMark : '\uFEFF' ∉ typed
  order : ¬((∃ a ∈ stripped isWhitespace upper typed, Astral a) ∧
    ∃ b ∈ stripped isWhitespace upper typed, PastSurrogates b)

section Spelling

variable {space : Char → Bool} {r : Char → Char → Prop} [DecidableRel r] {upper : Char → Text}
  {typed typed' t : Text}

theorem perm_spelling : (spelling space r upper typed).Perm (stripped space upper typed) :=
  List.perm_insertionSort _ _

theorem stripped_eq_self (h : ∀ c ∈ t, upper c = [c] ∧ space c = false) :
    stripped space upper t = t := by
  have hfilter : t.filter (!space ·) = t := List.filter_eq_self.2 fun c hc ↦ by simp [(h c hc).2]
  rw [stripped, hfilter]
  induction t with
  | nil => rfl
  | cons c t ih =>
    have htail : ∀ c ∈ t, upper c = [c] ∧ space c = false := fun c hc ↦ h c (by simp [hc])
    have hfilter' : t.filter (!space ·) = t :=
      List.filter_eq_self.2 fun c hc ↦ by simp [(htail c hc).2]
    rw [List.flatMap_cons, (h c (by simp)).1, ih htail hfilter', List.singleton_append]

theorem of_mem_stripped (hu : Uppercasing upper)
    (hspace : ∀ c, space c = true → isWhitespace c = true ∨ isSpace c = true) {c : Char}
    (hc : c ∈ stripped space upper typed) : upper c = [c] ∧ space c = false := by
  obtain ⟨c', hc', hmem⟩ := List.mem_flatMap.1 hc
  refine ⟨hu.upper_upper c' c hmem, ?_⟩
  by_contra hne
  have heq := hu.eq_of_space c' c hmem (hspace c (by simpa using hne))
  simp [← heq, hne] at hc'

variable [IsTrans Char r] [Std.Total r]

theorem pairwise_spelling : (spelling space r upper typed).Pairwise r :=
  List.pairwise_insertionSort _ _

variable [Std.Antisymm r]

theorem spelling_eq (hperm : t.Perm (stripped space upper typed)) (hsorted : t.Pairwise r) :
    spelling space r upper typed = t :=
  (perm_spelling.trans hperm.symm).eq_of_pairwise (fun _ _ _ _ h h' ↦ antisymm_of r h h')
    pairwise_spelling hsorted

theorem spelling_perm (h : typed'.Perm typed) :
    spelling space r upper typed' = spelling space r upper typed :=
  spelling_eq (perm_spelling.trans ((h.symm.filter _).flatMap_right _)) pairwise_spelling

theorem spelling_spelling (hu : Uppercasing upper)
    (hspace : ∀ c, space c = true → isWhitespace c = true ∨ isSpace c = true) :
    spelling space r upper (spelling space r upper typed) = spelling space r upper typed := by
  refine spelling_eq ?_ pairwise_spelling
  rw [stripped_eq_self fun c hc ↦ of_mem_stripped hu hspace (perm_spelling.mem_iff.1 hc)]

end Spelling

section Lookups

variable {upper : Char → Text} {typed : Text}

theorem isSpace_eq {c : Char} (h : c ≠ '\u0085') (h' : c ≠ '\uFEFF') :
    isSpace c = isWhitespace c := by
  have hne : c.toNat ≠ 0x85 := fun heq ↦ h (Char.toNat_inj.1 heq)
  have hne' : c.toNat ≠ 0xFEFF := fun heq ↦ h' (Char.toNat_inj.1 heq)
  rw [Bool.eq_iff_iff]
  simp only [isSpace, isWhitespace, Bool.or_eq_true, Bool.and_eq_true, decide_eq_true_eq]
  omega

theorem mem_stripped_of_space (hu : Uppercasing upper) (space : Char → Bool) {c : Char}
    (hc : c ∈ typed) (hspace : space c = false)
    (hother : isWhitespace c = true ∨ isSpace c = true) :
    c ∈ stripped space upper typed := by
  refine List.mem_flatMap.2 ⟨c, List.mem_filter.2 ⟨hc, by simp [hspace]⟩, ?_⟩
  rw [hu.upper_space c hother]
  exact List.mem_singleton_self c

theorem stripped_eq (hline : '\u0085' ∉ typed) (hmark : '\uFEFF' ∉ typed) :
    stripped isSpace upper typed = stripped isWhitespace upper typed := by
  have hfilter : typed.filter (!isSpace ·) = typed.filter (!isWhitespace ·) := by
    refine List.filter_congr fun c hc ↦ ?_
    rw [isSpace_eq (fun h ↦ hline (h ▸ hc)) (fun h ↦ hmark (h ▸ hc))]
  rw [stripped, stripped, hfilter]

theorem rackSpelling_eq (h : Common upper typed) :
    rackSpelling upper typed = serverSpelling upper typed := by
  refine spelling_eq ?_ ?_
  · rw [stripped_eq h.nextLine h.byteOrderMark]
    exact perm_spelling
  · refine (pairwise_spelling (r := (· ≤ ·))).imp_of_mem fun {c d} hc hd hle ↦ ?_
    exact (before_iff_le h.order (perm_spelling.mem_iff.1 hc) (perm_spelling.mem_iff.1 hd)).2 hle

theorem common_of_eq (hu : Uppercasing upper)
    (h : rackSpelling upper typed = serverSpelling upper typed) : Common upper typed := by
  have hperm : (stripped isSpace upper typed).Perm (stripped isWhitespace upper typed) := by
    have hpage : (rackSpelling upper typed).Perm (stripped isSpace upper typed) := perm_spelling
    rw [h] at hpage
    exact hpage.symm.trans perm_spelling
  have hline : '\u0085' ∉ typed := by
    intro hmem
    have hpage := mem_stripped_of_space hu isSpace hmem (by decide) (by decide)
    exact absurd (of_mem_stripped hu (fun _ ↦ .inl) (hperm.mem_iff.1 hpage)).2 (by decide)
  have hmark : '\uFEFF' ∉ typed := by
    intro hmem
    have hserver := mem_stripped_of_space hu isWhitespace hmem (by decide) (by decide)
    exact absurd (of_mem_stripped hu (fun _ ↦ .inr) (hperm.mem_iff.2 hserver)).2 (by decide)
  refine ⟨hline, hmark, ?_⟩
  have hle : (serverSpelling upper typed).Pairwise (· ≤ ·) := pairwise_spelling
  have hbefore : (serverSpelling upper typed).Pairwise Before := by
    rw [← h]
    exact pairwise_spelling
  have hmem : ∀ c, c ∈ serverSpelling upper typed ↔ c ∈ stripped isWhitespace upper typed :=
    fun c ↦ perm_spelling.mem_iff
  simpa only [hmem] using not_astral_and_pastSurrogates hle hbefore

/-- The server spells what a rack's letters are typed in as that rack. -/
theorem serverSpelling_of_types {rack : Text} (hsorted : rack.Pairwise (· ≤ ·))
    (h : Types upper rack typed) : serverSpelling upper typed = rack := by
  obtain ⟨letters, hperm, hletters, hfilter⟩ := h
  have hstripped : stripped isWhitespace upper typed = letters.map Prod.snd := by
    rw [stripped, hfilter, List.flatMap_assoc]
    clear hfilter hperm
    induction letters with
    | nil => rfl
    | cons l letters ih =>
      rw [List.flatMap_cons, hletters l (by simp), ih fun l hl ↦ hletters l (by simp [hl])]
      rfl
  refine spelling_eq ?_ hsorted
  rw [hstripped]
  exact hperm.symm

/-- A rack's letters, in any order and with whitespace anywhere, are a way to type it. -/
theorem types_of_perm {rack : Text} (hrack : ∀ c ∈ rack, upper c = [c])
    (h : (typed.filter (!isWhitespace ·)).Perm rack) : Types upper rack typed := by
  refine ⟨(typed.filter (!isWhitespace ·)).map fun c ↦ ([c], c), ?_, ?_, ?_⟩
  · simpa [List.map_map, Function.comp_def] using h
  · intro l hl
    obtain ⟨c, hc, rfl⟩ := List.mem_map.1 hl
    simpa using hrack c (h.mem_iff.1 hc)
  · simp [List.flatMap_map]

/-- The two lookups of a text agree exactly where nothing in it is of the kinds that the two
runtimes take differently. -/
theorem agree_iff (hu : Uppercasing upper) (typed : Text) :
    Agree upper typed ↔ Common upper typed := by
  refine ⟨fun h ↦ common_of_eq hu h.eq, fun h ↦ ?_⟩
  have heq := rackSpelling_eq h
  refine ⟨heq, ⟨spelling_spelling hu fun _ ↦ .inr, spelling_spelling hu fun _ ↦ .inl⟩,
    fun typed' hperm ↦ ⟨spelling_perm hperm, spelling_perm hperm⟩, ?_⟩
  intro distribution size i index rack _ hrack _ htypes
  have hserver := serverSpelling_of_types (RackIndex.of_rackAt hrack).1 htypes
  exact ⟨heq.trans hserver, hserver⟩

def upperB (c : Char) : Text := if c = 'b' then ['B'] else [c]

theorem uppercasing_upperB : Uppercasing upperB where
  upper_upper c d hd := by
    unfold upperB at hd
    split at hd
    · rw [List.mem_singleton.1 hd]
      decide
    · next hc => rw [List.mem_singleton.1 hd, upperB, if_neg hc]
  upper_space c hc := by
    rw [upperB, if_neg]
    rintro rfl
    exact absurd hc (by decide)
  eq_of_space c d hd hspace := by
    unfold upperB at hd
    split at hd
    · rw [List.mem_singleton.1 hd] at hspace
      exact absurd hspace (by decide)
    · exact List.mem_singleton.1 hd

theorem agree_typed : Agree upperB ['b', ' ', '?', 'A'] := by
  have hstripped : stripped isWhitespace upperB ['b', ' ', '?', 'A'] = ['B', '?', 'A'] := by decide
  refine (agree_iff uppercasing_upperB _).2 ⟨by decide, by decide, ?_⟩
  rw [hstripped]
  simp [Astral]

/-- A mark that the page drops and the server keeps, and two letters that they sort differently. -/
theorem not_agree : ¬Agree upperB ['A', '\uFEFF'] ∧ ¬Agree upperB ['Ａ', '𐐀'] := by
  have hpage : rackSpelling upperB ['Ａ', '𐐀'] = ['𐐀', 'Ａ'] := by decide
  have hserver : serverSpelling upperB ['Ａ', '𐐀'] = ['Ａ', '𐐀'] := by decide
  refine ⟨fun h ↦ absurd h.eq (by decide), fun h ↦ ?_⟩
  exact absurd (hpage.symm.trans (h.eq.trans hserver)) (by decide)

end Lookups

end Birdtest.Cgp
