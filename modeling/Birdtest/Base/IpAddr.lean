import Mathlib.Data.List.Basic
import Mathlib.Data.List.TakeWhile

namespace Birdtest.Base.Net

abbrev Bytes : Type := List UInt8

inductive IpAddr
  | v4 (octets : List ℕ)
  | v6 (groups : List ℕ)
  deriving DecidableEq

section Parser

def digit (radix : ℕ) (b : UInt8) : Option ℕ :=
  let n := b.toNat
  let d := if 48 ≤ n ∧ n ≤ 57 then some (n - 48)
    else if 97 ≤ n ∧ n ≤ 102 then some (n - 87)
    else if 65 ≤ n ∧ n ≤ 70 then some (n - 55)
    else none
  d.filter (· < radix)

def readNumber (radix maxDigits : ℕ) (allowZeroPrefix : Bool) (bound : ℕ) (t : Bytes) :
    Option (ℕ × Bytes) :=
  let digits := t.takeWhile fun b ↦ (digit radix b).isSome
  let n := digits.foldl (fun n b ↦ n * radix + (digit radix b).getD 0) 0
  if digits = [] ∨ maxDigits < digits.length ∨ bound ≤ n ∨
      (allowZeroPrefix = false ∧ digits.head? = some 48 ∧ 1 < digits.length) then none
  else some (n, t.drop digits.length)

def readSeparator {α : Type} (separator : UInt8) (index : ℕ) (read : Bytes → Option (α × Bytes))
    (t : Bytes) : Option (α × Bytes) :=
  if index = 0 then read t
  else
    match t with
    | b :: rest => if b = separator then read rest else none
    | [] => none

def readOctets : ℕ → ℕ → Bytes → Option (List ℕ × Bytes)
  | 0, _, t => some ([], t)
  | left + 1, index, t => do
    let (octet, t) ← readSeparator 46 index (readNumber 10 3 false 256) t
    let (octets, t) ← readOctets left (index + 1) t
    some (octet :: octets, t)

def readIpv4 (t : Bytes) : Option (List ℕ × Bytes) := readOctets 4 0 t

def embedded : List ℕ → List ℕ
  | [a, b, c, d] => [a * 256 + b, c * 256 + d]
  | _ => []

/-- The groups that a text starts with, `left` at most, and whether the last of them are an IPv4
address. -/
def readGroups : ℕ → ℕ → Bytes → List ℕ × Bool × Bytes
  | 0, _, t => ([], false, t)
  | left + 1, index, t =>
    match if 0 < left then readSeparator 58 index readIpv4 t else none with
    | some (octets, t) => (embedded octets, true, t)
    | none =>
      match readSeparator 58 index (readNumber 16 4 true 65536) t with
      | some (group, t) =>
        let (groups, isIpv4, t) := readGroups left (index + 1) t
        (group :: groups, isIpv4, t)
      | none => ([], false, t)

def readIpv6 (t : Bytes) : Option (List ℕ × Bytes) :=
  let (head, headIpv4, t) := readGroups 8 0 t
  if head.length = 8 then some (head, t)
  else if headIpv4 then none
  else
    match t with
    | 58 :: 58 :: t =>
      let (tail, _, t) := readGroups (8 - (head.length + 1)) 0 t
      some (head ++ List.replicate (8 - head.length - tail.length) 0 ++ tail, t)
    | _ => none

/-- `IpAddr::from_str` -/
def parse (t : Bytes) : Option IpAddr :=
  match readIpv4 t with
  | some (octets, rest) => if rest = [] then some (.v4 octets) else none
  | none =>
    match readIpv6 t with
    | some (groups, rest) => if rest = [] then some (.v6 groups) else none
    | none => none

-- `2001:db8::1.2.3.4` is one, and `01.2.3.4` is not
example : parse ("2001:db8::1.2.3.4".toList.map fun c ↦ .ofNat c.toNat) =
    some (.v6 [0x2001, 0xdb8, 0, 0, 0, 0, 0x102, 0x304]) := by decide

example : parse ("01.2.3.4".toList.map fun c ↦ .ofNat c.toNat) = none := by decide

end Parser

section Bytes

variable {α : Type} {t rest : Bytes} {b : UInt8} {radix index left : ℕ}

def isAddressByte (b : UInt8) : Bool := (digit 16 b).isSome ∨ b = 46 ∨ b = 58

/-- `rest` is what is left of `t` once bytes of an address have been read. -/
def Reads (t rest : Bytes) : Prop := ∃ taken, t = taken ++ rest ∧ ∀ b ∈ taken,
  isAddressByte b = true

theorem Reads.refl (t : Bytes) : Reads t t := ⟨[], rfl, nofun⟩

theorem Reads.trans {t' : Bytes} (h : Reads t t') (h' : Reads t' rest) : Reads t rest := by
  obtain ⟨taken, rfl, htaken⟩ := h
  obtain ⟨taken', rfl, htaken'⟩ := h'
  refine ⟨taken ++ taken', (List.append_assoc ..).symm, fun b hb ↦ ?_⟩
  exact (List.mem_append.1 hb).elim (htaken b) (htaken' b)

theorem Reads.cons (hb : isAddressByte b = true) (h : Reads t rest) : Reads (b :: t) rest := by
  obtain ⟨taken, rfl, htaken⟩ := h
  exact ⟨b :: taken, rfl, fun c hc ↦ (List.mem_cons.1 hc).elim (fun h ↦ h ▸ hb) (htaken c)⟩

theorem isAddressByte_of_digit (hradix : radix ≤ 16) (h : (digit radix b).isSome) :
    isAddressByte b = true := by
  have hsome : (digit 16 b).isSome := by
    simp only [digit, Option.isSome_filter, Option.any_eq_true, decide_eq_true_eq] at h ⊢
    obtain ⟨d, hd, hlt⟩ := h
    exact ⟨d, hd, hlt.trans_le hradix⟩
  simp [isAddressByte, hsome]

theorem reads_of_readNumber {maxDigits bound n : ℕ} {zeros : Bool} (hradix : radix ≤ 16)
    (h : readNumber radix maxDigits zeros bound t = some (n, rest)) : Reads t rest := by
  simp only [readNumber, Option.ite_none_left_eq_some, Option.some.injEq, Prod.mk.injEq] at h
  obtain ⟨-, -, rfl⟩ := h
  refine ⟨t.takeWhile fun b ↦ (digit radix b).isSome, ?_, fun b hb ↦ ?_⟩
  · exact (List.prefix_iff_eq_append.1 (List.takeWhile_prefix _)).symm
  · have hdigit := List.all_takeWhile (p := fun b ↦ (digit radix b).isSome) (l := t)
    exact isAddressByte_of_digit hradix (List.all_eq_true.1 hdigit b hb)

theorem reads_of_readSeparator {separator : UInt8} {read : Bytes → Option (α × Bytes)} {a : α}
    (hseparator : isAddressByte separator = true)
    (hread : ∀ {t rest : Bytes} {a : α}, read t = some (a, rest) → Reads t rest)
    (h : readSeparator separator index read t = some (a, rest)) : Reads t rest := by
  unfold readSeparator at h
  split at h
  · exact hread h
  · split at h
    · next b t =>
      simp only [Option.ite_none_right_eq_some] at h
      obtain ⟨rfl, h⟩ := h
      exact (hread h).cons hseparator
    · cases h

theorem reads_of_readOctets {octets : List ℕ} (h : readOctets left index t = some (octets, rest)) :
    Reads t rest := by
  induction left generalizing index t octets with
  | zero =>
    cases h
    exact .refl _
  | succ left ih =>
    simp only [readOctets, Option.bind_eq_bind, Option.bind_eq_some_iff, Prod.exists] at h
    obtain ⟨octet, t', hoctet, octets', t'', hoctets, h⟩ := h
    cases h
    have hfirst : Reads t t' :=
      reads_of_readSeparator (by decide) (reads_of_readNumber (by decide)) hoctet
    exact hfirst.trans (ih hoctets)

theorem reads_readGroups (left index : ℕ) (t : Bytes) : Reads t (readGroups left index t).2.2 := by
  induction left generalizing index t with
  | zero => exact .refl t
  | succ left ih =>
    unfold readGroups
    split
    · next octets t' hoctets =>
      split at hoctets
      · exact reads_of_readSeparator (by decide) reads_of_readOctets hoctets
      · cases hoctets
    · split
      · next group t' hgroup =>
        have hfirst : Reads t t' :=
          reads_of_readSeparator (by decide) (reads_of_readNumber (by decide)) hgroup
        exact hfirst.trans (ih (index + 1) t')
      · exact .refl t

theorem reads_of_readIpv6 {groups : List ℕ} (h : readIpv6 t = some (groups, rest)) :
    Reads t rest := by
  have hhead := reads_readGroups 8 0 t
  simp only [readIpv6] at h
  split at h
  · cases h
    exact hhead
  · split at h
    · cases h
    · split at h
      · next t' heq =>
        cases h
        rw [heq] at hhead
        exact hhead.trans (((reads_readGroups _ 0 t').cons (by decide)).cons (by decide))
      · cases h

theorem isAddressByte_of_parse {a : IpAddr} (h : parse t = some a) :
    ∀ b ∈ t, isAddressByte b = true := by
  have hall (hreads : Reads t []) : ∀ b ∈ t, isAddressByte b = true := by
    obtain ⟨taken, rfl, htaken⟩ := hreads
    rwa [List.append_nil]
  unfold parse at h
  split at h
  · next octets rest hread =>
    simp only [Option.ite_none_right_eq_some] at h
    obtain ⟨rfl, -⟩ := h
    exact hall (reads_of_readOctets hread)
  · split at h
    · next groups rest hread =>
      simp only [Option.ite_none_right_eq_some] at h
      obtain ⟨rfl, -⟩ := h
      exact hall (reads_of_readIpv6 hread)
    · cases h

theorem parse_nil : parse [] = none := by decide

end Bytes

end Birdtest.Base.Net
