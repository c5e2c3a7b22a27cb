import Mathlib.Data.List.Nodup
import Mathlib.Data.List.Perm.Subperm
import Mathlib.Logic.Function.Basic
import Mathlib.Logic.Relation

namespace Birdtest.Base.Components

variable {V : Type} [DecidableEq V]

/-- A search: the numbers given so far, the vertices still to be looked from, those looked from in
order, and the number of the component searched. -/
structure Search (V : Type) where
  component : V → Option ℕ
  stack : List V
  visited : List V
  next : ℕ

section Loops

variable (vertices : List V) (joined : V → V → Prop) [DecidableRel joined]

def Search.mark (s : Search V) (v : V) : Search V :=
  { s with component := Function.update s.component v (some s.next), stack := v :: s.stack }

def look (current : V) (s : Search V) (other : V) : Search V :=
  if s.component other = none ∧ joined current other then s.mark other else s

def drain : ℕ → Search V → Option (Search V)
  | 0, _ => none
  | fuel + 1, s =>
    match s.stack with
    | [] => some s
    | current :: stack =>
      drain fuel (vertices.foldl (look joined current)
        { s with stack, visited := s.visited ++ [current] })

def searchFrom (fuel : ℕ) (s : Search V) (start : V) : Option (Search V) :=
  if s.component start ≠ none then some s
  else
    (drain vertices joined fuel
      { s with component := Function.update s.component start (some s.next), stack := [start] }).map
      fun s ↦ { s with next := s.next + 1 }

def search (fuel : ℕ) : Option (Search V) :=
  vertices.foldlM (searchFrom vertices joined fuel) ⟨fun _ ↦ none, [], [], 0⟩

end Loops

/-- What a search has found. `busy` is the vertex that it is looking from. -/
structure Inv (joined : V → V → Prop) (busy : Option V) (s : Search V) : Prop where
  nodup : (s.visited ++ s.stack).Nodup
  mem (v : V) : v ∈ s.visited ++ s.stack ↔ s.component v ≠ none
  le {v : V} {c : ℕ} : s.component v = some c → c ≤ s.next
  pending {v : V} : v ∈ s.stack → s.component v = some s.next
  closed {v w : V} : v ∈ s.visited → some v ≠ busy → joined v w → s.component w ≠ none
  chain {v w : V} {c : ℕ} : s.component v = some c → s.component w = some c →
    Relation.ReflTransGen joined v w
  edge {v w : V} {c d : ℕ} : joined v w → s.component v = some c → s.component w = some d → c = d
  used {c : ℕ} : c < s.next → ∃ v, s.component v = some c

structure Extends (s t : Search V) : Prop where
  next : t.next = s.next
  keeps {v : V} {c : ℕ} : s.component v = some c → t.component v = some c

section Steps

variable {vertices : List V} {joined : V → V → Prop} {busy : Option V} {s t u : Search V}
  {v w current start : V}

omit [DecidableEq V] in
theorem Extends.refl (s : Search V) : Extends s s := ⟨rfl, id⟩

omit [DecidableEq V] in
theorem Extends.trans (h : Extends s t) (h' : Extends t u) : Extends s u :=
  ⟨h'.next.trans h.next, fun hc ↦ h'.keeps (h.keeps hc)⟩

theorem component_mark : (s.mark v).component w =
    if w = v then some s.next else s.component w :=
  Function.update_apply _ _ _ _

theorem extends_mark (hv : s.component v = none) : Extends s (s.mark v) := by
  refine ⟨rfl, fun {w c} hc ↦ ?_⟩
  rw [component_mark, if_neg]
  · exact hc
  · rintro rfl
    cases hv.symm.trans hc

theorem component_mark_eq_some {c : ℕ} (h : (s.mark v).component w = some c) :
    (w = v ∧ c = s.next) ∨ (w ≠ v ∧ s.component w = some c) := by
  rw [component_mark] at h
  split_ifs at h with hw
  · exact .inl ⟨hw, (Option.some.inj h).symm⟩
  · exact .inr ⟨hw, h⟩

theorem Inv.mark (h : Inv joined busy s) (hsymm : ∀ v w, joined v w → joined w v)
    (hv : s.component v = none)
    (hchain : ∀ u, s.component u = some s.next → Relation.ReflTransGen joined u v)
    (hedge : ∀ w c, joined v w → s.component w = some c → c = s.next) :
    Inv joined busy (s.mark v) := by
  have hnew : v ∉ s.visited ++ s.stack := fun hmem ↦ (h.mem v).1 hmem hv
  have : Std.Symm joined := ⟨hsymm⟩
  exact {
    nodup := by
      rw [Search.mark, List.nodup_middle]
      exact List.nodup_cons.2 ⟨hnew, h.nodup⟩
    mem := fun w ↦ by
      rw [component_mark, Search.mark, List.mem_append, List.mem_cons]
      split_ifs with hw
      · exact ⟨fun _ ↦ nofun, fun _ ↦ .inr (.inl hw)⟩
      · rw [← h.mem w, List.mem_append]
        tauto
    le := fun hc ↦ by
      obtain ⟨-, rfl⟩ | ⟨-, hc⟩ := component_mark_eq_some hc
      · exact Nat.le_refl _
      · exact h.le hc
    pending := fun {w} hw ↦ by
      rw [component_mark]
      split_ifs with heq
      · rfl
      · exact h.pending ((List.mem_cons.1 hw).resolve_left heq)
    closed := fun {u w} hu hbusy huw ↦ by
      rw [component_mark]
      split_ifs
      · nofun
      · exact h.closed hu hbusy huw
    chain := fun hc hd ↦ by
      obtain ⟨rfl, rfl⟩ | ⟨-, hc'⟩ := component_mark_eq_some hc <;>
        obtain ⟨rfl, hnext⟩ | ⟨-, hd'⟩ := component_mark_eq_some hd
      · exact .refl
      · exact Std.Symm.symm _ _ (hchain _ hd')
      · exact hchain _ (hnext ▸ hc')
      · exact h.chain hc' hd'
    edge := fun {u w c d} huw hc hd ↦ by
      obtain ⟨rfl, rfl⟩ | ⟨-, hc'⟩ := component_mark_eq_some hc <;>
        obtain ⟨rfl, hnext⟩ | ⟨-, hd'⟩ := component_mark_eq_some hd
      · exact hnext.symm
      · exact (hedge _ _ huw hd').symm
      · exact (hedge _ _ (hsymm _ _ huw) hc').trans hnext.symm
      · exact h.edge huw hc' hd'
    used := fun hc ↦ by
      obtain ⟨w, hw⟩ := h.used hc
      exact ⟨w, (extends_mark hv).keeps hw⟩ }

variable [DecidableRel joined]

theorem Inv.look (h : Inv joined (some current) s) (hsymm : ∀ v w, joined v w → joined w v)
    (hcurrent : s.component current = some s.next) (other : V) :
    Inv joined (some current) (look joined current s other) ∧
      Extends s (look joined current s other) ∧
      (look joined current s other).visited = s.visited ∧
      (joined current other → (look joined current s other).component other ≠ none) := by
  rw [Components.look]
  split_ifs with hlook
  · obtain ⟨hnone, hjoined⟩ := hlook
    refine ⟨h.mark hsymm hnone (fun u hu ↦ (h.chain hu hcurrent).tail hjoined) ?_,
      extends_mark hnone, rfl, fun _ ↦ ?_⟩
    · intro w c hw hc
      -- a neighbour with another number has been looked from, and would have numbered this vertex
      by_contra hne
      have hmem := (h.mem w).2 (by rw [hc]; nofun)
      obtain hvisited | hstack := List.mem_append.1 hmem
      · refine h.closed hvisited ?_ (hsymm _ _ hw) hnone
        rintro ⟨⟩
        exact hne (Option.some.inj (hc.symm.trans hcurrent))
      · exact hne (Option.some.inj (hc.symm.trans (h.pending hstack)))
    · rw [component_mark, if_pos rfl]
      nofun
  · refine ⟨h, .refl s, rfl, fun hjoined hnone ↦ hlook ⟨hnone, hjoined⟩⟩

omit [DecidableEq V] in
theorem Extends.ne_none (h : Extends s t) (hv : s.component v ≠ none) : t.component v ≠ none := by
  obtain ⟨c, hc⟩ := Option.ne_none_iff_exists'.1 hv
  rw [h.keeps hc]
  nofun

theorem Inv.foldl_look (h : Inv joined (some current) s) (hsymm : ∀ v w, joined v w → joined w v)
    (hcurrent : s.component current = some s.next) (others : List V) :
    Inv joined (some current) (others.foldl (Components.look joined current) s) ∧
      Extends s (others.foldl (Components.look joined current) s) ∧
      (others.foldl (Components.look joined current) s).visited = s.visited ∧
      ∀ w ∈ others, joined current w →
        (others.foldl (Components.look joined current) s).component w ≠ none := by
  induction others generalizing s with
  | nil => exact ⟨h, .refl s, rfl, nofun⟩
  | cons other others ih =>
    obtain ⟨hinv, hextends, hvisited, hother⟩ := h.look hsymm hcurrent other
    obtain ⟨hinv', hextends', hvisited', hothers⟩ :=
      ih hinv ((hextends.keeps hcurrent).trans (congrArg _ hextends.next.symm))
    refine ⟨hinv', hextends.trans hextends', hvisited'.trans hvisited, fun w hw hjoined ↦ ?_⟩
    obtain rfl | hw := List.mem_cons.1 hw
    · exact hextends'.ne_none (hother hjoined)
    · exact hothers w hw hjoined

/-- A vertex taken off the stack is looked from, and then closed. -/
theorem Inv.visit (h : Inv joined none s) (hsymm : ∀ v w, joined v w → joined w v)
    (hall : ∀ v, v ∈ vertices) {stack : List V} (hstack : s.stack = current :: stack) :
    Inv joined none (vertices.foldl (Components.look joined current)
      { s with stack, visited := s.visited ++ [current] }) ∧
    Extends s (vertices.foldl (Components.look joined current)
      { s with stack, visited := s.visited ++ [current] }) ∧
    (vertices.foldl (Components.look joined current)
      { s with stack, visited := s.visited ++ [current] }).visited = s.visited ++ [current] := by
  have happend : s.visited ++ [current] ++ stack = s.visited ++ s.stack := by
    rw [hstack, List.append_assoc, List.singleton_append]
  have hbusy : Inv joined (some current) { s with stack, visited := s.visited ++ [current] } := {
    nodup := happend ▸ h.nodup
    mem := fun v ↦ by
      rw [happend]
      exact h.mem v
    le := h.le
    pending := fun hv ↦ h.pending (hstack ▸ List.mem_cons_of_mem _ hv)
    closed := fun {v w} hv hne hjoined ↦ by
      obtain hv | hv := List.mem_append.1 hv
      · exact h.closed hv nofun hjoined
      · exact absurd (congrArg some (List.mem_singleton.1 hv)) hne
    chain := h.chain
    edge := h.edge
    used := h.used }
  obtain ⟨hinv, hextends, hvisited, hothers⟩ := hbusy.foldl_look hsymm
    (h.pending (hstack ▸ List.mem_cons_self)) vertices
  refine ⟨?_, ⟨hextends.next, hextends.keeps⟩, hvisited⟩
  exact { hinv with
    closed := fun {v w} hv _ hjoined ↦ by
      by_cases hvc : v = current
      · exact hothers w (hall w) (hvc ▸ hjoined)
      · exact hinv.closed hv (fun heq ↦ hvc (Option.some.inj heq)) hjoined }

omit [DecidableEq V] [DecidableRel joined] in
theorem Inv.length_le (h : Inv joined busy s) (hall : ∀ v, v ∈ vertices) :
    s.visited.length + s.stack.length ≤ vertices.length := by
  rw [← List.length_append]
  exact (h.nodup.subperm fun v _ ↦ hall v).length_le

theorem Inv.drain (h : Inv joined none s) (hsymm : ∀ v w, joined v w → joined w v)
    (hall : ∀ v, v ∈ vertices) {fuel : ℕ} (hfuel : vertices.length < fuel + s.visited.length) :
    ∃ t, drain vertices joined fuel s = some t ∧ Inv joined none t ∧ Extends s t ∧
    t.stack = [] := by
  induction fuel generalizing s with
  | zero =>
    have := h.length_le hall
    omega
  | succ fuel ih =>
    rw [Components.drain]
    cases hstack : s.stack with
    | nil => exact ⟨s, rfl, h, .refl s, hstack⟩
    | cons current stack =>
      obtain ⟨hinv, hextends, hvisited⟩ := h.visit hsymm hall hstack
      obtain ⟨t, ht, hinv', hextends', hnil⟩ := ih hinv (by
        rw [hvisited, List.length_append, List.length_singleton]
        omega)
      exact ⟨t, ht, hinv', hextends.trans hextends', hnil⟩

structure Between (joined : V → V → Prop) (s : Search V) : Prop extends Inv joined none s where
  stack : s.stack = []
  lt {v : V} {c : ℕ} : s.component v = some c → c < s.next

theorem Between.searchFrom (h : Between joined s) (hsymm : ∀ v w, joined v w → joined w v)
    (hall : ∀ v, v ∈ vertices) {fuel : ℕ} (hfuel : vertices.length < fuel) (start : V) :
    ∃ t, searchFrom vertices joined fuel s start = some t ∧ Between joined t ∧
      (∀ v c, s.component v = some c → t.component v = some c) ∧ t.component start ≠ none := by
  rw [Components.searchFrom]
  split_ifs with hnone
  · exact ⟨s, rfl, h, fun _ _ hc ↦ hc, hnone⟩
  · rw [not_not] at hnone
    have hmark : (⟨Function.update s.component start (some s.next), [start], s.visited, s.next⟩ :
        Search V) = s.mark start := by
      rw [Search.mark, h.stack]
    rw [hmark]
    have hinv : Inv joined none (s.mark start) := by
      refine h.toInv.mark hsymm hnone (fun u hu ↦ absurd (h.lt hu) (Nat.lt_irrefl _)) ?_
      intro w c hw hc
      have hvisited : w ∈ s.visited := by
        have hmem := (h.mem w).2 (by rw [hc]; nofun)
        rwa [h.stack, List.append_nil] at hmem
      exact absurd hnone (h.closed hvisited nofun (hsymm _ _ hw))
    obtain ⟨t, ht, hinv', hextends, hnil⟩ := hinv.drain hsymm hall
      (show vertices.length < fuel + (s.mark start).visited.length by omega)
    have hstart : t.component start = some s.next := by
      refine hextends.keeps ?_
      rw [component_mark, if_pos rfl]
    refine ⟨{ t with next := t.next + 1 }, ?_, ?_, ?_, ?_⟩
    · rw [ht]
      rfl
    · refine { hinv' with
        le := fun hc ↦ Nat.le_succ_of_le (hinv'.le hc)
        pending := fun hv ↦ ?_
        used := fun {c} hc ↦ ?_
        stack := hnil
        lt := fun hc ↦ Nat.lt_succ_of_le (hinv'.le hc) }
      · rw [hnil] at hv
        cases hv
      · obtain hlt | rfl := Nat.lt_succ_iff_lt_or_eq.1 hc
        · exact hinv'.used hlt
        · exact ⟨start, hstart.trans (congrArg some hextends.next.symm)⟩
    · exact fun v c hc ↦ hextends.keeps ((extends_mark hnone).keeps hc)
    · rw [hstart]
      nofun

theorem Between.foldlM (h : Between joined s) (hsymm : ∀ v w, joined v w → joined w v)
    (hall : ∀ v, v ∈ vertices) {fuel : ℕ} (hfuel : vertices.length < fuel) (starts : List V) :
    ∃ t, starts.foldlM (Components.searchFrom vertices joined fuel) s = some t ∧ Between joined t ∧
      (∀ v c, s.component v = some c → t.component v = some c) ∧
      ∀ v ∈ starts, t.component v ≠ none := by
  induction starts generalizing s with
  | nil => exact ⟨s, rfl, h, fun _ _ hc ↦ hc, nofun⟩
  | cons start starts ih =>
    obtain ⟨t, ht, hbetween, hkeeps, hstart⟩ := h.searchFrom hsymm hall hfuel start
    obtain ⟨u, hu, hbetween', hkeeps', hstarts⟩ := ih hbetween
    refine ⟨u, ?_, hbetween', fun v c hc ↦ hkeeps' v c (hkeeps v c hc), fun v hv ↦ ?_⟩
    · rw [List.foldlM_cons, ht]
      exact hu
    · obtain rfl | hv := List.mem_cons.1 hv
      · obtain ⟨c, hc⟩ := Option.ne_none_iff_exists'.1 hstart
        rw [hkeeps' v c hc]
        nofun
      · exact hstarts v hv

structure Found (vertices : List V) (joined : V → V → Prop) (s : Search V) : Prop where
  visited : s.visited.Perm vertices
  numbered (v : V) : ∃ c < s.next, s.component v = some c
  used {c : ℕ} : c < s.next → ∃ v, s.component v = some c
  joined_iff (v w : V) : s.component v = s.component w ↔ Relation.ReflTransGen joined v w

theorem exists_search (hnodup : vertices.Nodup) (hall : ∀ v, v ∈ vertices)
    (hsymm : ∀ v w, joined v w → joined w v) {fuel : ℕ} (hfuel : vertices.length < fuel) :
    ∃ s, search vertices joined fuel = some s ∧ Found vertices joined s := by
  have hstart : Between joined ⟨fun _ : V ↦ none, [], [], 0⟩ := {
    nodup := List.nodup_nil
    mem := fun v ↦ by simp
    le := nofun
    pending := nofun
    closed := nofun
    chain := nofun
    edge := nofun
    used := nofun
    stack := rfl
    lt := nofun }
  obtain ⟨s, hs, hbetween, -, hnumbered⟩ := hstart.foldlM hsymm hall hfuel vertices
  have hcomponent (v : V) : ∃ c < s.next, s.component v = some c := by
    obtain ⟨c, hc⟩ := Option.ne_none_iff_exists'.1 (hnumbered v (hall v))
    exact ⟨c, hbetween.lt hc, hc⟩
  refine ⟨s, hs, ?_, hcomponent, hbetween.used, fun v w ↦ ⟨fun heq ↦ ?_, fun hchain ↦ ?_⟩⟩
  · have hvisited (v : V) : v ∈ s.visited := by
      have hmem := (hbetween.mem v).2 (hnumbered v (hall v))
      rwa [hbetween.stack, List.append_nil] at hmem
    have hdistinct := hbetween.nodup
    rw [hbetween.stack, List.append_nil] at hdistinct
    exact (List.perm_ext_iff_of_nodup hdistinct hnodup).2 fun v ↦
      ⟨fun _ ↦ hall v, fun _ ↦ hvisited v⟩
  · obtain ⟨c, -, hc⟩ := hcomponent v
    exact hbetween.chain hc (heq ▸ hc)
  · induction hchain with
    | refl => rfl
    | tail _ hjoined ih =>
      obtain ⟨c, -, hc⟩ := hcomponent _
      obtain ⟨d, -, hd⟩ := hcomponent _
      rw [ih, hc, hd, hbetween.edge hjoined hc hd]

end Steps

end Birdtest.Base.Components
