import Birdtest.Base.Tables
import Mathlib.Data.List.Count

namespace Birdtest.Base.Buckets

open Birdtest.Base.Tables

structure Quota where
  burst : ℕ
  interval : ℕ
  burst_pos : 0 < burst
  interval_pos : 0 < interval

def Quota.full (q : Quota) : ℕ := q.interval * q.burst

/-- A bucket of cells that come back one by one. `owed s now` is how long after `now` it is full
again, and a refusal tells how long it is until there is a cell. -/
structure Bucket (q : Quota) where
  State : Type
  new : State
  owed : State → ℕ → ℕ
  take : State → ℕ → Except ℕ State
  owed_new : ∀ now, owed new now = 0
  owed_later : ∀ s now later, now ≤ later → owed s later = owed s now - (later - now)
  of_take_ok : ∀ s now t, take s now = .ok t →
    owed s now + q.interval ≤ q.full ∧ owed t now = owed s now + q.interval
  of_take_error : ∀ s now wait, take s now = .error wait →
    0 < wait ∧ owed s now + q.interval = q.full + wait

def gcra (q : Quota) : Bucket q where
  State := ℕ
  new := 0
  owed s now := s - now
  take s now :=
    if s - now + q.interval ≤ q.full then .ok (max s now + q.interval)
    else .error (s - now + q.interval - q.full)
  owed_new now := Nat.zero_sub now
  owed_later s now later h := by omega
  of_take_ok s now t h := by
    split at h
    · next hle =>
      cases h
      exact ⟨hle, by omega⟩
    · cases h
  of_take_error s now wait h := by
    split at h
    · cases h
    · cases h
      omega

section Keyed

variable {q : Quota} {b : Bucket q} {κ : Type} [DecidableEq κ]
variable {t u : Table κ b.State} {k k' : κ} {now later wait : ℕ}

def owedBy (t : Table κ b.State) (k : κ) (now : ℕ) : ℕ := b.owed ((t.get k).getD b.new) now

def charge (t : Table κ b.State) (k : κ) (now : ℕ) : Except ℕ (Table κ b.State) :=
  (b.take ((t.get k).getD b.new) now).map (t.put k)

def forget (t : Table κ b.State) (now : ℕ) : Table κ b.State := t.retain fun s ↦ b.owed s now ≠ 0

theorem owedBy_empty : owedBy (b := b) (Table.empty : Table κ b.State) k now = 0 := b.owed_new now

theorem owedBy_later (h : now ≤ later) : owedBy t k later = owedBy t k now - (later - now) :=
  b.owed_later _ now later h

theorem eq_put_of_charge_ok (h : charge t k now = .ok u) : ∃ s, u = t.put k s := by
  unfold charge at h
  cases htake : b.take ((t.get k).getD b.new) now with
  | error wait =>
    rw [htake] at h
    cases h
  | ok s =>
    rw [htake] at h
    cases h
    exact ⟨s, rfl⟩

theorem of_charge_ok (h : charge t k now = .ok u) : owedBy t k now + q.interval ≤ q.full ∧
    owedBy u k now = owedBy t k now + q.interval ∧
    ∀ k', k' ≠ k → ∀ later, owedBy u k' later = owedBy t k' later := by
  unfold charge at h
  cases htake : b.take ((t.get k).getD b.new) now with
  | error wait =>
    rw [htake] at h
    cases h
  | ok s =>
    rw [htake] at h
    cases h
    obtain ⟨hle, howed⟩ := b.of_take_ok _ _ _ htake
    refine ⟨hle, ?_, fun k' hne later ↦ ?_⟩
    · rw [owedBy, Table.get_put_self]
      exact howed
    · rw [owedBy, Table.get_put_of_ne hne]
      rfl

theorem of_charge_error (h : charge t k now = .error wait) :
    0 < wait ∧ owedBy t k now + q.interval = q.full + wait := by
  unfold charge at h
  cases htake : b.take ((t.get k).getD b.new) now with
  | ok s =>
    rw [htake] at h
    cases h
  | error wait =>
    rw [htake] at h
    cases h
    exact b.of_take_error _ _ _ htake

theorem exists_charge (h : owedBy t k now + q.interval ≤ q.full) : ∃ u, charge t k now = .ok u := by
  cases hcharge : charge t k now with
  | ok u => exact ⟨u, rfl⟩
  | error wait =>
    obtain ⟨hpos, heq⟩ := of_charge_error hcharge
    omega

theorem owedBy_forget (h : now ≤ later) : owedBy (forget t now) k later = owedBy t k later := by
  rw [owedBy, owedBy, forget, Table.get_retain]
  cases hget : t.get k with
  | none => rfl
  | some s =>
    by_cases hzero : b.owed s now = 0
    · rw [Option.filter_some, if_neg (by simp [hzero]), Option.getD_none,
        Option.getD_some, b.owed_new, b.owed_later s now later h, hzero, Nat.zero_sub]
    · rw [Option.filter_some, if_pos (by simp [hzero])]

theorem charge_congr {v : Table κ b.State}
    (howed : ∀ k later, now ≤ later → owedBy t k later = owedBy u k later)
    (h : charge t k now = .ok v) : ∃ w, charge u k now = .ok w ∧
      ∀ k later, now ≤ later → owedBy v k later = owedBy w k later := by
  obtain ⟨hle, hself, hother⟩ := of_charge_ok h
  rw [howed k now (Nat.le_refl _)] at hle hself
  obtain ⟨w, hw⟩ := exists_charge hle
  obtain ⟨-, hself', hother'⟩ := of_charge_ok hw
  refine ⟨w, hw, fun k' later hlater ↦ ?_⟩
  by_cases hk : k' = k
  · rw [hk, owedBy_later hlater, owedBy_later hlater, hself, hself']
  · rw [hother k' hk, hother' k' hk, howed k' later hlater]

theorem charge_congr_error (howed : owedBy t k now = owedBy u k now)
    (h : charge t k now = .error wait) : charge u k now = .error wait := by
  obtain ⟨hpos, heq⟩ := of_charge_error h
  cases hcharge : charge u k now with
  | ok v =>
    have hle := (of_charge_ok hcharge).1
    omega
  | error wait' =>
    obtain ⟨-, heq'⟩ := of_charge_error hcharge
    congr 1
    omega

end Keyed

section Windows

variable {q : Quota} {owed now later : ℕ} {passes : List ℕ}

def within (passes : List ℕ) (first last : ℕ) : ℕ := passes.countP fun t ↦ first ≤ t ∧ t ≤ last

structure Paced (q : Quota) (owed now : ℕ) (passes : List ℕ) : Prop where
  owed_le : owed ≤ q.full
  past : ∀ t ∈ passes, t ≤ now
  paid : ∀ first, first ≤ now → q.interval * within passes first now ≤ owed + (now - first)
  windows : ∀ first last, first ≤ last → q.interval * within passes first last ≤ q.full +
    (last - first)

theorem Paced.new (q : Quota) (now : ℕ) : Paced q 0 now [] :=
  ⟨Nat.zero_le _, fun _ h ↦ (by cases h), fun _ _ ↦ Nat.zero_le _, fun _ _ _ ↦ Nat.zero_le _⟩

theorem within_of_past (h : ∀ t ∈ passes, t ≤ now) (hle : now ≤ later) (first : ℕ) :
    within passes first later = within passes first now := by
  refine List.countP_congr fun t ht ↦ ?_
  have htnow := h t ht
  simp only [decide_eq_true_eq]
  omega

theorem Paced.elapse (h : Paced q owed now passes) (hle : now ≤ later) :
    Paced q (owed - (later - now)) later passes where
  owed_le := Nat.le_trans (Nat.sub_le _ _) h.owed_le
  past t ht := Nat.le_trans (h.past t ht) hle
  paid first hfirst := by
    rw [within_of_past h.past hle]
    by_cases hold : first ≤ now
    · have hpaid := h.paid first hold
      omega
    · -- no pass is as late as the window
      have hzero : within passes first now = 0 := by
        refine List.countP_eq_zero.2 fun t ht ↦ ?_
        have htnow := h.past t ht
        simp only [decide_eq_true_eq]
        omega
      rw [hzero, Nat.mul_zero]
      exact Nat.zero_le _
  windows := h.windows

theorem within_cons {first last : ℕ} (hfirst : first ≤ now) (hlast : now ≤ last) :
    within (now :: passes) first last = within passes first last + 1 :=
  List.countP_cons_of_pos (by simp [hfirst, hlast])

theorem Paced.take (h : Paced q owed now passes) (hle : owed + q.interval ≤ q.full) :
    Paced q (owed + q.interval) now (now :: passes) where
  owed_le := hle
  past t ht := by
    rcases List.mem_cons.1 ht with rfl | ht
    · exact Nat.le_refl _
    · exact h.past t ht
  paid first hfirst := by
    have hpaid := h.paid first hfirst
    rw [within_cons hfirst (Nat.le_refl _), Nat.mul_succ]
    omega
  windows first last hwindow := by
    by_cases hin : first ≤ now ∧ now ≤ last
    · have hpaid := h.paid first hin.1
      rw [within_cons hin.1 hin.2, within_of_past h.past hin.2, Nat.mul_succ]
      omega
    · have hout : within (now :: passes) first last = within passes first last :=
        List.countP_cons_of_neg (by simpa using hin)
      rw [hout]
      exact h.windows first last hwindow

/-- So many in any window, and no more. -/
theorem Paced.within_le (h : Paced q owed now passes) {first last : ℕ} (hwindow : first ≤ last) :
    within passes first last ≤ q.burst + (last - first) / q.interval := by
  have hle := h.windows first last hwindow
  have hdiv := (Nat.le_div_iff_mul_le q.interval_pos).2 (Nat.mul_comm .. ▸ hle)
  rwa [Quota.full, Nat.mul_add_div q.interval_pos] at hdiv

end Windows

end Birdtest.Base.Buckets
