import Birdtest.Jobs.Racks.Index
import Mathlib.Data.Fintype.EquivFin
import Mathlib.Data.List.FinRange
import Mathlib.NumberTheory.LucasLehmer

namespace Birdtest.Jobs.Racks

open Birdtest.Base.Bags Birdtest.Base.Checked

section Multiplication

noncomputable def mulMod {m n : ℕ} (h : n.Coprime m) : Equiv.Perm (Fin n) :=
  Equiv.ofBijective (fun i ↦ ⟨i * m % n, Nat.mod_lt _ i.pos⟩) <| by
    rw [← Finite.injective_iff_bijective]
    intro i j hij
    have hmod : i * m ≡ j * m [MOD n] := Fin.mk.inj_iff.1 hij
    exact Fin.ext (Nat.ModEq.eq_of_lt_of_lt (hmod.cancel_right_of_coprime h) i.2 j.2)

theorem mulMod_mk {m n i : ℕ} (h : n.Coprime m) (hi : i < n) :
    (mulMod h ⟨i, hi⟩ : ℕ) = i * m % n := rfl

theorem exists_perm_mul_mod {α : Type} (l : List α) {m : ℕ} (h : l.length.Coprime m) :
    ∃ l' : List α, l'.Perm l ∧ ∀ i : ℕ, i < l.length → l'[i]? = l[i * m % l.length]? := by
  refine ⟨List.ofFn (l.get ∘ mulMod h), ?_, fun i hi ↦ ?_⟩
  · have := (mulMod h).ofFn_comp_perm l.get
    rwa [List.ofFn_get] at this
  · rw [List.getElem?_ofFn, dif_pos hi, Function.comp_apply, List.get_eq_getElem, ← mulMod_mk h hi,
      List.getElem?_eq_getElem (mulMod h ⟨i, hi⟩).2]

end Multiplication

def multiplier : ℕ := 2305843009213693951

theorem prime_multiplier : multiplier.Prime :=
  lucas_lehmer_sufficiency 61 (by norm_num) (by norm_num)

theorem coprime_multiplier {n : ℕ} (hpos : 0 < n) (h : n < multiplier) : n.Coprime multiplier :=
  (Nat.coprime_of_lt_prime hpos.ne' h prime_multiplier).symm

theorem lt_of_lt_multiplier {n : ℕ} (h : n < multiplier) : n < 2 ^ 64 :=
  h.trans (by norm_num [multiplier])

theorem mul_multiplier_lt {n : ℕ} (h : n < multiplier) : n * multiplier < 2 ^ 128 := by
  have hle := Nat.mul_le_mul_right multiplier h.le
  exact hle.trans_lt (by norm_num [multiplier])

namespace RackIndex

variable (index : RackIndex)

/-- `((index as u128 * MULTIPLIER) % self.total() as u128) as u64` -/
def scatter (i : ℕ) : Except Panic ℕ := do
  let product ← checkedMul 128 i multiplier
  let scattered ← checkedMod product index.total
  .ok (scattered % 2 ^ 64)

def rackAt (i : ℕ) : Except Panic (Option Text) :=
  if index.total ≤ i then .ok none
  else do
    let scattered ← index.scatter i
    index.rackAtEnumerationIndex scattered

def racksInRange (start count : ℕ) : Except Panic (List Text) :=
  mapWhile index.rackAt (List.range' start (saturatingAdd 64 start count - start))

variable {index}

theorem length_racks (h : index.total < multiplier) : index.racks.length = index.total := by
  have := index.total_eq
  simp only [multiplier] at h
  omega

theorem scatter_eq (h : index.total < multiplier) {i : ℕ} (hi : i < index.total) :
    index.scatter i = .ok (i * multiplier % index.total) := by
  have hpos := Nat.zero_lt_of_lt hi
  have hlt := lt_of_lt_multiplier ((Nat.mod_lt (i * multiplier) hpos).trans h)
  have hmod := checkedMod_eq_ok (a := i * multiplier) (Nat.ne_of_gt hpos)
  rw [scatter, checkedMul_eq_ok (mul_multiplier_lt (hi.trans h))]
  simp only [bind, Except.bind, hmod, Nat.mod_eq_of_lt hlt]

/-- `scatter` permutes the indices, without a panic. -/
theorem exists_perm_scatter (h : index.total < multiplier) :
    ∃ e : Equiv.Perm (Fin index.total), ∀ i : Fin index.total, index.scatter i = .ok (e i : ℕ) := by
  rcases Nat.eq_zero_or_pos index.total with h0 | hpos
  · exact ⟨Equiv.refl _, fun i ↦ absurd i.2 (by omega)⟩
  · exact ⟨mulMod (coprime_multiplier hpos h), fun i ↦ scatter_eq h i.2⟩

theorem length_racks_lt (h : index.total < multiplier) : index.racks.length < 2 ^ 64 :=
  lt_of_lt_multiplier ((length_racks h).trans_lt h)

theorem rackAt_eq (h : index.total < multiplier) {i : ℕ} (hi : i < index.total) :
    index.rackAt i = .ok index.racks[i * multiplier % index.total]? := by
  rw [rackAt, if_neg (Nat.not_le.2 hi), scatter_eq h hi]
  exact index.rackAtEnumerationIndex_eq (length_racks_lt h) _

/-- The order of the racks as `rack_at` has it. -/
theorem exists_scattered (h : index.total < multiplier) : ∃ racks : List Text,
    racks.Perm index.racks ∧ ∀ i : ℕ, index.rackAt i = .ok racks[i]? := by
  have hlength := length_racks h
  have hpast : ∀ racks : List Text, racks.Perm index.racks → ∀ i : ℕ, index.total ≤ i →
      index.rackAt i = .ok racks[i]? := by
    intro racks hperm i hi
    rw [rackAt, if_pos hi, List.getElem?_eq_none_iff.2]
    rwa [hperm.length_eq, hlength]
  rcases Nat.eq_zero_or_pos index.total with h0 | hpos
  · exact ⟨index.racks, .refl _, fun i ↦ hpast _ (.refl _) i (h0 ▸ Nat.zero_le i)⟩
  · have hcoprime : index.racks.length.Coprime multiplier := by
      rw [hlength]
      exact coprime_multiplier hpos h
    obtain ⟨racks, hperm, hracks⟩ := exists_perm_mul_mod index.racks hcoprime
    refine ⟨racks, hperm, fun i ↦ ?_⟩
    rcases Nat.lt_or_ge i index.total with hi | hi
    · rw [rackAt_eq h hi, hracks i (hi.trans_eq hlength.symm), hlength]
    · exact hpast racks hperm i hi

theorem racksInRange_eq (h : index.total < multiplier) {racks : List Text}
    (hperm : racks.Perm index.racks) (hracks : ∀ i : ℕ, index.rackAt i = .ok racks[i]?)
    {start : ℕ} (hstart : start < 2 ^ 64) (count : ℕ) :
    index.racksInRange start count = .ok ((racks.drop start).take count) := by
  refine mapWhile_saturatingAdd ?_ hracks hstart count
  rw [hperm.length_eq]
  exact length_racks_lt h

theorem of_unrank {counts : List (List ℕ)} {i k n : ℕ} {tiles : List Tile} {rack rack' : Text}
    (hsorted : (tiles.map (·.letter)).Pairwise (· < ·))
    (h : unrank counts i tiles k n rack = .ok rack') :
    ∃ x, rack' = rack ++ x ∧ x.Pairwise (· ≤ ·) ∧ ∀ c ∈ x, ∃ tile ∈ tiles, tile.letter = c := by
  induction tiles generalizing i k n rack with
  | nil =>
    cases h
    exact ⟨[], by simp, .nil, by simp⟩
  | cons tile tiles ih =>
    rw [List.map_cons, List.pairwise_cons] at hsorted
    rw [unrank] at h
    obtain ⟨⟨_ | take, k'⟩, -, h⟩ := bind_eq_ok h
    · obtain ⟨x, rfl, hx, hmem⟩ := ih hsorted.2 h
      refine ⟨x, rfl, hx, fun c hc ↦ ?_⟩
      obtain ⟨tile', htile', heq⟩ := hmem c hc
      exact ⟨tile', List.mem_cons_of_mem _ htile', heq⟩
    · obtain ⟨n', -, h⟩ := bind_eq_ok h
      obtain ⟨x, rfl, hx, hmem⟩ := ih hsorted.2 h
      refine ⟨List.replicate take tile.letter ++ x, by simp, ?_, ?_⟩
      · refine List.pairwise_append.2 ⟨List.pairwise_replicate.2 (.inr le_rfl), hx, ?_⟩
        intro c hc c' hc'
        obtain ⟨tile', htile', rfl⟩ := hmem c' hc'
        rw [List.eq_of_mem_replicate hc]
        exact (hsorted.1 _ (List.mem_map_of_mem htile')).le
      · intro c hc
        obtain hc | hc := List.mem_append.1 hc
        · exact ⟨tile, List.mem_cons_self, (List.eq_of_mem_replicate hc).symm⟩
        · obtain ⟨tile', htile', heq⟩ := hmem c hc
          exact ⟨tile', List.mem_cons_of_mem _ htile', heq⟩

theorem of_rackAt {i : ℕ} {rack : Text} (h : index.rackAt i = .ok (some rack)) :
    rack.Pairwise (· ≤ ·) ∧ ∀ c ∈ rack, ∃ tile ∈ index.tiles, tile.letter = c := by
  unfold rackAt at h
  split at h
  · cases h
  · obtain ⟨scattered, -, h⟩ := bind_eq_ok h
    unfold rackAtEnumerationIndex at h
    split at h
    · cases h
    · cases hunrank : unrank index.counts 0 index.tiles scattered index.size [] with
      | error e =>
        rw [hunrank] at h
        cases h
      | ok rack' =>
        rw [hunrank] at h
        cases h
        obtain ⟨x, rfl, hx⟩ := of_unrank index.sorted hunrank
        exact hx

end RackIndex

end Birdtest.Jobs.Racks
