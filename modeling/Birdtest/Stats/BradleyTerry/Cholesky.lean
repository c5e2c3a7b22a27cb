import Birdtest.Base.Definite
import Birdtest.Base.Loops
import Mathlib.Analysis.Real.Sqrt

namespace Birdtest.Stats.BradleyTerry

open Birdtest.Base Birdtest.Base.Loops

variable {m : ℕ}

/-- Why a factorisation has no value: the code's `None`, or a division that exact arithmetic has
no value of. -/
inductive Stop
  | refused
  | divisionByZero

noncomputable def quotient (x y : ℝ) : Except Stop ℝ :=
  if y = 0 then .error .divisionByZero else .ok (x / y)

/-- `0..i` -/
def below (i : Fin m) : List (Fin m) := (List.finRange m).filter (· < i)

/-- `(i + 1)..m` -/
def above (i : Fin m) : List (Fin m) := (List.finRange m).filter (i < ·)

noncomputable def choleskyEntry (a : Square m ℝ) (i j : Fin m) (l : Square m ℝ) :
    Except Stop (Square m ℝ) :=
  let sum := (below j).foldl (fun sum k ↦ sum - l.get i k * l.get j k) (a.get i j)
  if i = j then
    if sum ≤ 0 then .error .refused else .ok (l.set i i (√sum))
  else do
    let x ← quotient sum (l.get j j)
    return l.set i j x

/-- The lower triangular factor of a symmetric matrix, refused if it is not positive definite. -/
noncomputable def cholesky (a : Square m ℝ) : Except Stop (Square m ℝ) :=
  (List.finRange m).foldlM
    (fun l (i : Fin m) ↦ (List.finRange (i + 1)).foldlM
      (fun l j ↦ choleskyEntry a i (j.castLE i.isLt) l) l)
    (.filled 0)

noncomputable def substitute (coefficient : Fin m → Fin m → ℝ) (others : List (Fin m)) (i : Fin m)
    (y : Fin m → ℝ) : Except Stop (Fin m → ℝ) := do
  let y := others.foldl (fun y k ↦ Function.update y i (y i - coefficient i k * y k)) y
  let x ← quotient (y i) (coefficient i i)
  return Function.update y i x

noncomputable def choleskySolve (l : Square m ℝ) (b : Fin m → ℝ) : Except Stop (Fin m → ℝ) := do
  let y ← (List.finRange m).foldlM (fun y i ↦ substitute l.get (below i) i y) b
  (List.finRange m).reverse.foldlM (fun y i ↦ substitute (fun i k ↦ l.get k i) (above i) i y) y

section Substitution

variable {coefficient : Fin m → Fin m → ℝ} {i : Fin m} {y : Fin m → ℝ} {others : List (Fin m)}

theorem sum_update {k : Fin m} (hk : k ∉ others) (x : ℝ) :
    (others.map fun k' ↦ coefficient i k' * Function.update y k x k').sum =
      (others.map fun k' ↦ coefficient i k' * y k').sum := by
  refine congrArg List.sum (List.map_congr_left fun k' hk' ↦ ?_)
  rw [Function.update_of_ne (ne_of_mem_of_not_mem hk' hk)]

theorem foldl_substitute (h : i ∉ others) :
    others.foldl (fun y k ↦ Function.update y i (y i - coefficient i k * y k)) y =
      Function.update y i (y i - (others.map fun k ↦ coefficient i k * y k).sum) := by
  induction others generalizing y with
  | nil => simp
  | cons k others ih =>
    have hothers : i ∉ others := fun hmem ↦ h (List.mem_cons_of_mem _ hmem)
    rw [List.foldl_cons, ih hothers, sum_update hothers, Function.update_idem,
      Function.update_self, List.map_cons, List.sum_cons, sub_sub]

theorem substitute_eq (h : i ∉ others) (hi : coefficient i i ≠ 0) :
    substitute coefficient others i y = .ok (Function.update y i
      ((y i - (others.map fun k ↦ coefficient i k * y k).sum) / coefficient i i)) := by
  rw [substitute, foldl_substitute h, Function.update_self, quotient, if_neg hi]
  exact congrArg Except.ok (Function.update_idem _ _ _)

/-- Rows that are solved in an order, each for its unknown from those behind it: the rows behind
hold, and those ahead are still what they are to be equal to. -/
theorem exists_substitution {others : Fin m → List (Fin m)} {order : List (Fin m)}
    (hnodup : order.Nodup)
    (hothers : ∀ before i after, order = before ++ i :: after → ∀ k ∈ others i, k ∈ before)
    (hne : ∀ i, coefficient i i ≠ 0) (b : Fin m → ℝ) :
    ∃ y, order.foldlM (fun y i ↦ substitute coefficient (others i) i y) b = .ok y ∧
      ∀ i ∈ order,
        ((others i).map fun k ↦ coefficient i k * y k).sum + coefficient i i * y i = b i := by
  have hends := Ends.foldlM (E := fun _ : Stop ↦ False) (l := order) (b := b)
    (f := fun y i ↦ substitute coefficient (others i) i y)
    (fun before y ↦ (∀ i ∈ before,
        ((others i).map fun k ↦ coefficient i k * y k).sum + coefficient i i * y i = b i) ∧
      ∀ i ∉ before, y i = b i)
    ⟨fun i hi ↦ absurd hi List.not_mem_nil, fun i _ ↦ rfl⟩ ?_
  · obtain ⟨y, hy, h, -⟩ := hends.exists_ok
    exact ⟨y, hy, h⟩
  · intro before i after hl y hy
    have hi : i ∉ before := by
      rw [hl] at hnodup
      exact fun hi ↦ (List.nodup_append.1 hnodup).2.2 i hi i List.mem_cons_self rfl
    have hself : i ∉ others i := fun hmem ↦ hi (hothers before i after hl i hmem)
    rw [substitute_eq hself (hne i), ends_ok]
    constructor
    · intro i' hi'
      obtain hbefore | rfl := List.mem_append.1 hi' |>.imp id List.mem_singleton.1
      · obtain ⟨before', after', hsplit⟩ := List.append_of_mem hbefore
        have hahead : i ∉ others i' := fun hmem ↦ hi <| by
          rw [hsplit]
          refine List.mem_append_left _ (hothers before' i' (after' ++ i :: after) ?_ i hmem)
          rw [hl, hsplit, List.append_assoc, List.cons_append]
        rw [sum_update hahead, Function.update_of_ne (ne_of_mem_of_not_mem hbefore hi)]
        exact hy.1 i' hbefore
      · rw [sum_update hself, Function.update_self, mul_div_cancel₀ _ (hne i'), add_sub_cancel,
          hy.2 i' hi]
    · intro i' hi'
      rw [List.mem_append, List.mem_singleton, not_or] at hi'
      rw [Function.update_of_ne hi'.2, hy.2 i' hi'.1]

theorem mem_before {r : Fin m → Fin m → Prop} {order before after : List (Fin m)} {k : Fin m}
    (hr : order.Pairwise r) (hl : order = before ++ i :: after) (hk : k ∈ order) (hne : k ≠ i)
    (hnot : ¬r i k) : k ∈ before := by
  subst hl
  refine (List.mem_append.1 hk).resolve_right fun hmem ↦ ?_
  have hafter := (List.mem_cons.1 hmem).resolve_left hne
  exact hnot ((List.pairwise_cons.1 (List.pairwise_append.1 hr).2.1).1 k hafter)

theorem sum_row (p : Fin m → Prop) [DecidablePred p] {f : Fin m → ℝ} (hi : ¬p i)
    (hzero : ∀ k, ¬p k → k ≠ i → f k = 0) :
    (((List.finRange m).filter p).map f).sum + f i = ∑ k, f k := by
  rw [sum_filter_finRange, ← Finset.sum_filter_add_sum_filter_not Finset.univ p]
  congr 1
  refine (Finset.sum_eq_single_of_mem i (by simpa using hi) fun k hk hne ↦ ?_).symm
  exact hzero k (Finset.mem_filter.1 hk).2 hne

theorem exists_forward (hne : ∀ i, coefficient i i ≠ 0)
    (hzero : ∀ i k, i < k → coefficient i k = 0) (b : Fin m → ℝ) :
    ∃ y, (List.finRange m).foldlM (fun y i ↦ substitute coefficient (below i) i y) b = .ok y ∧
      ∀ i, ∑ k, coefficient i k * y k = b i := by
  have hothers : ∀ before i after, List.finRange m = before ++ i :: after →
      ∀ k ∈ below i, k ∈ before := by
    intro before i after hl k hk
    have hlt : k < i := by simpa [below] using hk
    exact mem_before (List.pairwise_lt_finRange m) hl (List.mem_finRange k) hlt.ne hlt.not_gt
  obtain ⟨y, hy, h⟩ := exists_substitution (List.nodup_finRange m) hothers hne b
  refine ⟨y, hy, fun i ↦ ?_⟩
  rw [← h i (List.mem_finRange i)]
  refine (sum_row (· < i) (lt_irrefl i) fun k hk hki ↦ ?_).symm
  rw [hzero i k (lt_of_le_of_ne (not_lt.1 hk) hki.symm), zero_mul]

theorem exists_back (hne : ∀ i, coefficient i i ≠ 0)
    (hzero : ∀ i k, k < i → coefficient i k = 0) (b : Fin m → ℝ) :
    ∃ y, (List.finRange m).reverse.foldlM
        (fun y i ↦ substitute coefficient (above i) i y) b = .ok y ∧
      ∀ i, ∑ k, coefficient i k * y k = b i := by
  have hothers : ∀ before i after, (List.finRange m).reverse = before ++ i :: after →
      ∀ k ∈ above i, k ∈ before := by
    intro before i after hl k hk
    have hlt : i < k := by simpa [above] using hk
    exact mem_before (List.pairwise_reverse.2 (List.pairwise_lt_finRange m)) hl
      (List.mem_reverse.2 (List.mem_finRange k)) hlt.ne' hlt.not_gt
  obtain ⟨y, hy, h⟩ := exists_substitution (List.nodup_reverse.2 (List.nodup_finRange m)) hothers
    hne b
  refine ⟨y, hy, fun i ↦ ?_⟩
  rw [← h i (List.mem_reverse.2 (List.mem_finRange i))]
  refine (sum_row (i < ·) (lt_irrefl i) fun k hk hki ↦ ?_).symm
  rw [hzero i k (lt_of_le_of_ne (not_lt.1 hk) hki), zero_mul]

end Substitution

/-- What `cholesky` makes: 0 above its diagonal, which is above 0. -/
structure Lower (l : Square m ℝ) : Prop where
  zero : ∀ i k, i < k → l.get i k = 0
  diagonal : ∀ i, 0 < l.get i i

theorem Lower.exists_solve {l : Square m ℝ} (h : Lower l) (b : Fin m → ℝ) :
    ∃ x, choleskySolve l b = .ok x ∧
      ∀ i, ∑ k, l.get i k * ∑ j, l.get j k * x j = b i := by
  obtain ⟨y, hy, hforward⟩ := exists_forward (fun i ↦ (h.diagonal i).ne') h.zero b
  obtain ⟨x, hx, hback⟩ := @exists_back m (fun i k ↦ l.get k i)
    (fun i ↦ (h.diagonal i).ne') (fun i k hlt ↦ h.zero k i hlt) y
  refine ⟨x, ?_, fun i ↦ ?_⟩
  · rw [choleskySolve, hy]
    exact hx
  · simp only [hback]
    exact hforward i

theorem Lower.exists_solution {l a : Square m ℝ} (h : Lower l) (hgram : l.IsGram a)
    (b : Fin m → ℝ) : ∃ x, choleskySolve l b = .ok x ∧ ∀ i, ∑ j, a.get i j * x j = b i := by
  obtain ⟨x, hx, hsolve⟩ := h.exists_solve b
  exact ⟨x, hx, fun i ↦ (hgram.mul x i).trans (hsolve i)⟩

theorem Lower.eq_zero {l : Square m ℝ} (h : Lower l) {x : Fin m → ℝ}
    (hx : ∀ k, ∑ i, l.get i k * x i = 0) : x = 0 := by
  by_contra hne
  obtain ⟨i₀, hi₀⟩ := Function.ne_iff.1 hne
  obtain ⟨i, hi, hlast⟩ := (Finset.univ.filter fun i ↦ x i ≠ 0).exists_max_image id
    ⟨i₀, Finset.mem_filter.2 ⟨Finset.mem_univ _, hi₀⟩⟩
  have hcolumn : ∑ r, l.get r i * x r = l.get i i * x i := by
    refine Finset.sum_eq_single_of_mem i (Finset.mem_univ i) fun r _ hri ↦ ?_
    obtain hlt | hlt := lt_or_gt_of_ne hri
    · rw [h.zero r i hlt, zero_mul]
    · have hr : x r = 0 := by
        by_contra hr
        exact (hlast r (Finset.mem_filter.2 ⟨Finset.mem_univ _, hr⟩)).not_gt hlt
      rw [hr, mul_zero]
  have hzero := mul_eq_zero.1 (hcolumn.symm.trans (hx i))
  exact (Finset.mem_filter.1 hi).2 (hzero.resolve_left (h.diagonal i).ne')

def Done (i j : ℕ) (r c : Fin m) : Prop := c ≤ r ∧ ((r : ℕ) < i ∨ (r : ℕ) = i ∧ (c : ℕ) < j)

structure Factored (a : Square m ℝ) (i j : ℕ) (l : Square m ℝ) : Prop where
  entry : ∀ r c, Done i j r c → ∑ k, l.get r k * l.get c k = a.get r c
  diagonal : ∀ r, Done i j r r → 0 < l.get r r
  ahead : ∀ r c, ¬Done i j r c → l.get r c = 0

namespace Factored

variable {a l : Square m ℝ} {i j : Fin m}

theorem zero : Factored a 0 0 (.filled 0) where
  entry r c h := by
    obtain ⟨-, h | h⟩ := h <;> omega
  diagonal r h := by
    obtain ⟨-, h | h⟩ := h <;> omega
  ahead r c _ := rfl

theorem upper {i j : ℕ} (h : Factored a i j l) {r c : Fin m} (hlt : r < c) : l.get r c = 0 :=
  h.ahead r c fun hdone ↦ hdone.1.not_gt hlt

theorem congr {i j i' j' : ℕ} (h : Factored a i j l)
    (hdone : ∀ r c : Fin m, Done i' j' r c ↔ Done i j r c) : Factored a i' j' l where
  entry r c hrc := h.entry r c ((hdone r c).1 hrc)
  diagonal r hr := h.diagonal r ((hdone r r).1 hr)
  ahead r c hrc := h.ahead r c fun hrc' ↦ hrc ((hdone r c).2 hrc')

theorem done_succ {r c : Fin m} (hji : j ≤ i) :
    Done i (j + 1) r c ↔ Done i j r c ∨ r = i ∧ c = j := by
  simp only [Done, Fin.le_def, Fin.ext_iff] at hji ⊢
  omega

theorem sum_eq (h : Factored a i j l) :
    (below j).foldl (fun sum k ↦ sum - l.get i k * l.get j k) (a.get i j) =
      a.get i j - ∑ k, l.get i k * l.get j k := by
  have hj : l.get i j = 0 := h.ahead i j fun hdone ↦ by
    obtain ⟨-, hlt | hlt⟩ := hdone <;> omega
  rw [foldl_sub, below, ← sum_row (· < j) (lt_irrefl j) fun k hk hkj ↦ ?_, hj, zero_mul, add_zero]
  rw [h.upper (lt_of_le_of_ne (not_lt.1 hk) hkj.symm), mul_zero]

theorem sum_set (h : Factored a i j l) (hji : j ≤ i) (x : ℝ) {r c : Fin m} (hrc : Done i j r c) :
    ∑ k, (l.set i j x).get r k * (l.set i j x).get c k = ∑ k, l.get r k * l.get c k := by
  refine Finset.sum_congr rfl fun k _ ↦ ?_
  rw [Square.get_set, Square.get_set]
  by_cases hr : r = i ∧ k = j
  · obtain ⟨rfl, rfl⟩ := hr
    have hck : c < k := by
      obtain ⟨-, hlt | ⟨-, hlt⟩⟩ := hrc
      · omega
      · exact hlt
    have hcr : ¬(c = r ∧ k = k) := fun heq ↦ (hck.trans_le hji).ne heq.1
    rw [if_neg hcr, h.upper hck, mul_zero, mul_zero]
  · have hci : ¬(c = i ∧ k = j) := by
      rintro ⟨rfl, -⟩
      obtain ⟨hle, hlt | ⟨-, hlt⟩⟩ := hrc
      · exact hle.not_gt hlt
      · exact hji.not_gt hlt
    rw [if_neg hr, if_neg hci]

theorem get_ahead (h : Factored a i j l) : l.get i j = 0 :=
  h.ahead i j fun hdone ↦ by obtain ⟨-, hlt | hlt⟩ := hdone <;> omega

theorem sum_set_self (h : Factored a i j l) (x : ℝ) :
    ∑ k, (l.set i j x).get i k * (l.set i j x).get j k =
      (∑ k, l.get i k * l.get j k) + x * (l.set i j x).get j j := by
  rw [← Finset.add_sum_erase _ _ (Finset.mem_univ j),
    ← Finset.add_sum_erase Finset.univ (fun k ↦ l.get i k * l.get j k) (Finset.mem_univ j),
    h.get_ahead, zero_mul, zero_add, add_comm, Square.get_set, if_pos ⟨rfl, rfl⟩]
  congr 1
  refine Finset.sum_congr rfl fun k hk ↦ ?_
  have hkj : k ≠ j := Finset.ne_of_mem_erase hk
  rw [Square.get_set, Square.get_set, if_neg fun heq ↦ hkj heq.2, if_neg fun heq ↦ hkj heq.2]

theorem set (h : Factored a i j l) (hji : j ≤ i) {x : ℝ}
    (hentry : (∑ k, l.get i k * l.get j k) + x * (l.set i j x).get j j = a.get i j)
    (hdiagonal : i = j → 0 < x) : Factored a i (j + 1) (l.set i j x) where
  entry r c hrc := by
    obtain hrc | ⟨rfl, rfl⟩ := (done_succ hji).1 hrc
    · rw [h.sum_set hji x hrc, h.entry r c hrc]
    · rw [h.sum_set_self, hentry]
  diagonal r hr := by
    rw [Square.get_set]
    by_cases hrj : r = i ∧ r = j
    · rw [if_pos hrj]
      exact hdiagonal (hrj.1.symm.trans hrj.2)
    · rw [if_neg hrj]
      exact h.diagonal r (((done_succ hji).1 hr).resolve_right hrj)
  ahead r c hrc := by
    have hrc' := not_or.1 (mt (done_succ hji).2 hrc)
    rw [Square.get_set, if_neg hrc'.2, h.ahead r c hrc'.1]

/-- The rows before a row are a triangle with nothing on its diagonal 0, so they combine to the
row: the coefficients are found by substitution, in the rows completed with those of the unit. -/
theorem exists_dependence (h : Factored a i i l) : ∃ x : Fin m → ℝ, x i = -1 ∧
    (∀ r, i < r → x r = 0) ∧ ∀ k, ∑ r, l.get r k * x r = 0 := by
  have hbefore {r : Fin m} (hr : r < i) : Done i i r r := ⟨le_rfl, .inl hr⟩
  have hrow {k : Fin m} (hk : i ≤ k) : l.get i k = 0 :=
    h.ahead i k fun hdone ↦ by obtain ⟨-, hlt | ⟨-, hlt⟩⟩ := hdone <;> omega
  obtain ⟨y, -, hy⟩ := @exists_back m
    (fun k r ↦ if r < i then l.get r k else if r = k then 1 else 0)
    (fun k ↦ by
      by_cases hk : k < i
      · rw [if_pos hk]
        exact (h.diagonal k (hbefore hk)).ne'
      · rw [if_neg hk, if_pos rfl]
        exact one_ne_zero)
    (fun k r hr ↦ by
      by_cases hri : r < i
      · rw [if_pos hri, h.upper hr]
      · rw [if_neg hri, if_neg hr.ne])
    (l.get i)
  have hsupport {r : Fin m} (hr : i ≤ r) : y r = 0 := by
    have hrow' := hy r
    rw [Finset.sum_eq_single_of_mem r (Finset.mem_univ r), if_neg hr.not_gt, if_pos rfl, one_mul,
      hrow hr] at hrow'
    · exact hrow'
    · intro k _ hkr
      by_cases hk : k < i
      · rw [if_pos hk, h.upper (hk.trans_le hr), zero_mul]
      · rw [if_neg hk, if_neg hkr, zero_mul]
  refine ⟨fun r ↦ y r - if r = i then 1 else 0, ?_, fun r hr ↦ ?_, fun k ↦ ?_⟩
  · beta_reduce
    rw [if_pos rfl, hsupport le_rfl, zero_sub]
  · beta_reduce
    rw [if_neg hr.ne', hsupport hr.le, sub_zero]
  · have hsum : ∑ r, l.get r k * y r = l.get i k := by
      rw [← hy k]
      refine Finset.sum_congr rfl fun r _ ↦ ?_
      by_cases hr : r < i
      · rw [if_pos hr]
      · rw [hsupport (not_lt.1 hr), mul_zero, mul_zero]
    simp only [mul_sub, Finset.sum_sub_distrib, hsum, mul_ite, mul_one, mul_zero,
      Finset.sum_ite_eq', Finset.mem_univ, if_true, sub_self]

theorem not_positiveDefinite (ha : a.Symmetric) (h : Factored a i i l)
    (hle : a.get i i - ∑ k, l.get i k * l.get i k ≤ 0) : ¬a.PositiveDefinite := by
  obtain ⟨x, hx, hsupport, hcombine⟩ := h.exists_dependence
  have hentry {r c : Fin m} (hci : c ≤ i) (hcr : c ≤ r) (hri : r ≤ i) (hne : ¬(r = i ∧ c = i)) :
      a.get r c = ∑ k, l.get r k * l.get c k := by
    refine (h.entry r c ⟨hcr, ?_⟩).symm
    obtain hlt | rfl := lt_or_eq_of_le hri
    · exact .inl hlt
    · exact .inr ⟨rfl, Fin.lt_def.1 (lt_of_le_of_ne hci fun heq ↦ hne ⟨rfl, heq⟩)⟩
  have hterm (r c : Fin m) : x r * a.get r c * x c =
      x r * (∑ k, l.get r k * l.get c k) * x c +
        if r = i ∧ c = i then a.get i i - ∑ k, l.get i k * l.get i k else 0 := by
    by_cases hr : i < r
    · rw [hsupport r hr, if_neg fun heq ↦ hr.ne' heq.1]
      ring
    by_cases hc : i < c
    · rw [hsupport c hc, if_neg fun heq ↦ hc.ne' heq.2]
      ring
    by_cases hi : r = i ∧ c = i
    · obtain ⟨rfl, rfl⟩ := hi
      rw [if_pos ⟨rfl, rfl⟩, hx]
      ring
    · rw [if_neg hi, add_zero]
      obtain hcr | hrc := le_total c r
      · rw [hentry (not_lt.1 hc) hcr (not_lt.1 hr) hi]
      · rw [ha r c, hentry (not_lt.1 hr) hrc (not_lt.1 hc) fun heq ↦ hi heq.symm]
        exact congrArg (x r * · * x c) (Finset.sum_congr rfl fun k _ ↦ mul_comm _ _)
  have hform : a.form x = a.get i i - ∑ k, l.get i k * l.get i k := by
    simp only [Square.form, hterm, Finset.sum_add_distrib, Square.sum_gram, hcombine]
    rw [Finset.sum_eq_zero fun k _ ↦ zero_pow two_ne_zero, zero_add]
    simp only [ite_and, Finset.sum_ite_irrel, Finset.sum_ite_eq', Finset.mem_univ, if_true,
      Finset.sum_const_zero]
  have hne : x ≠ 0 := fun heq ↦ by simp [heq] at hx
  exact fun hpos ↦ (hpos x hne).not_ge (hform ▸ hle)

theorem ends_choleskyEntry (ha : a.Symmetric) (hji : j ≤ i) (h : Factored a i j l) :
    Ends (Factored a i (j + 1)) (fun e ↦ e = .refused ∧ ¬a.PositiveDefinite)
      (choleskyEntry a i j l) := by
  rw [choleskyEntry, h.sum_eq]
  by_cases hij : i = j
  · subst hij
    rw [if_pos rfl]
    split
    · next hle => exact ⟨rfl, h.not_positiveDefinite ha hle⟩
    · next hlt =>
      have hpos := not_le.1 hlt
      refine h.set le_rfl ?_ fun _ ↦ Real.sqrt_pos.2 hpos
      rw [Square.get_set, if_pos ⟨rfl, rfl⟩, Real.mul_self_sqrt hpos.le, add_sub_cancel]
  · have hlt : j < i := lt_of_le_of_ne hji (Ne.symm hij)
    have hdiagonal := h.diagonal j ⟨le_rfl, .inl hlt⟩
    rw [if_neg hij, quotient, if_neg hdiagonal.ne']
    refine h.set hji ?_ fun heq ↦ absurd heq hij
    rw [Square.get_set, if_neg fun heq ↦ hij heq.1.symm, div_mul_cancel₀ _ hdiagonal.ne',
      add_sub_cancel]

end Factored

/-- A factor is made of a positive definite matrix, and of every other one refused. -/
theorem ends_cholesky {a : Square m ℝ} (ha : a.Symmetric) :
    Ends (fun l ↦ Lower l ∧ l.IsGram a) (fun e ↦ e = .refused ∧ ¬a.PositiveDefinite)
      (cholesky a) := by
  have hends : Ends (Factored a m 0) (fun e ↦ e = .refused ∧ ¬a.PositiveDefinite) (cholesky a) := by
    refine Ends.finRange (fun i ↦ Factored a i 0) .zero fun i l hl ↦ ?_
    refine (Ends.finRange (fun j ↦ Factored a i j) hl fun j l hl ↦ ?_).mono (fun l hl ↦ ?_)
      fun _ ↦ id
    · exact hl.ends_choleskyEntry ha (j := j.castLE i.isLt) (Nat.lt_succ_iff.1 j.isLt)
    · refine hl.congr fun r c ↦ ?_
      simp only [Done, Fin.le_def]
      omega
  refine hends.mono (fun l hl ↦ ?_) fun _ ↦ id
  have hdone {r c : Fin m} (hcr : c ≤ r) : Done m 0 r c := ⟨hcr, .inl r.isLt⟩
  refine ⟨⟨fun i k hlt ↦ hl.upper hlt, fun i ↦ hl.diagonal i (hdone le_rfl)⟩, fun i j ↦ ?_⟩
  obtain hji | hij := le_total j i
  · exact hl.entry i j (hdone hji)
  · rw [ha i j, ← hl.entry j i (hdone hij)]
    exact Finset.sum_congr rfl fun k _ ↦ mul_comm _ _

/-- In exact arithmetic a symmetric matrix has a factor if and only if it is positive definite, and
the factor solves every right-hand side, each in the one way there is. -/
theorem cholesky_exact (a : Square m ℝ) (ha : a.Symmetric) :
    ((∃ l, cholesky a = .ok l) ↔ a.PositiveDefinite) ∧ cholesky a ≠ .error .divisionByZero ∧
    ∀ l, cholesky a = .ok l →
      (∀ i k, i < k → l.get i k = 0) ∧ (∀ i, 0 < l.get i i) ∧
      (∀ i j, ∑ k, l.get i k * l.get j k = a.get i j) ∧
      ∀ b, ∃ x, choleskySolve l b = .ok x ∧ (∀ i, ∑ j, a.get i j * x j = b i) ∧
        ∀ y, (∀ i, ∑ j, a.get i j * y j = b i) → y = x := by
  have hends := ends_cholesky ha
  have hmade {l} (hl : cholesky a = .ok l) : Lower l ∧ l.IsGram a := by
    rwa [hl, ends_ok] at hends
  have hpositive {l} (hl : cholesky a = .ok l) : a.PositiveDefinite :=
    (hmade hl).2.positiveDefinite fun x ↦ (hmade hl).1.eq_zero
  refine ⟨⟨fun ⟨l, hl⟩ ↦ hpositive hl, fun hpos ↦ ?_⟩, fun hdivision ↦ ?_, fun l hl ↦ ?_⟩
  · obtain ⟨l, hl, -⟩ := (hends.mono (fun _ ↦ id) fun e he ↦ he.2 hpos).exists_ok
    exact ⟨l, hl⟩
  · rw [hdivision, ends_error] at hends
    exact absurd hends.1 Stop.noConfusion
  · obtain ⟨hlower, hgram⟩ := hmade hl
    refine ⟨hlower.zero, hlower.diagonal, hgram, fun b ↦ ?_⟩
    obtain ⟨x, hx, hsolves⟩ := hlower.exists_solution hgram b
    refine ⟨x, hx, hsolves, fun y hy ↦ ?_⟩
    exact (hpositive hl).eq_of_mul_eq fun i ↦ (hy i).trans (hsolves i).symm

theorem cholesky_exact_pair :
    ∃ l, cholesky (.ofFn fun i j : Fin 2 ↦ if i = j then 2 else 1) = .ok l ∧
      choleskySolve l (fun _ ↦ 3) = .ok fun _ ↦ 1 := by
  have hsymmetric : (Square.ofFn fun i j : Fin 2 ↦ if i = j then (2 : ℝ) else 1).Symmetric :=
    fun i j ↦ by simp only [Square.get_ofFn, eq_comm]
  have hpositive :
      (Square.ofFn fun i j : Fin 2 ↦ if i = j then (2 : ℝ) else 1).PositiveDefinite := by
    intro x hx
    have hform : (Square.ofFn fun i j : Fin 2 ↦ if i = j then (2 : ℝ) else 1).form x =
        x 0 ^ 2 + x 1 ^ 2 + (x 0 + x 1) ^ 2 := by
      simp only [Square.form, Square.get_ofFn, Fin.sum_univ_two, if_true, zero_ne_one,
        one_ne_zero, if_false]
      ring
    have hne : x 0 ≠ 0 ∨ x 1 ≠ 0 := by
      by_contra hzero
      rw [not_or, not_not, not_not] at hzero
      exact hx (funext (Fin.forall_fin_two.2 hzero))
    rw [hform]
    obtain h | h := hne
    · positivity
    · positivity
  obtain ⟨hfactor, -, hmade⟩ := cholesky_exact _ hsymmetric
  obtain ⟨l, hl⟩ := hfactor.2 hpositive
  obtain ⟨-, -, -, hsolve⟩ := hmade l hl
  obtain ⟨x, hx, -, hunique⟩ := hsolve fun _ ↦ 3
  have hone : (fun _ ↦ 1) = x := hunique _ <| Fin.forall_fin_two.2 <| by
    simp only [Square.get_ofFn, Fin.sum_univ_two, if_true, zero_ne_one, one_ne_zero,
      if_false]
    norm_num
  exact ⟨l, hl, hone ▸ hx⟩

end Birdtest.Stats.BradleyTerry
