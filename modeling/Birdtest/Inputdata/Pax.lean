import Birdtest.Inputdata.Archive
import Mathlib.Data.Nat.Digits.Lemmas

namespace Birdtest.Inputdata

open Birdtest.Base.Checked

section Loop

inductive Fault
  | malformed
  | outOfBounds
  deriving DecidableEq

/-- `data[low..high]` -/
def slice (data : Bytes) (low high : ℕ) : Except Fault Bytes :=
  if low ≤ high ∧ high ≤ data.length then .ok ((data.take high).drop low) else .error .outOfBounds

/-- `data[i]` -/
def byteAt (data : Bytes) (i : ℕ) : Except Fault UInt8 :=
  match data[i]? with
  | some b => .ok b
  | none => .error .outOfBounds

def position (b : UInt8) (data : Bytes) : Except Fault ℕ :=
  match data.findIdx? (· = b) with
  | some i => .ok i
  | none => .error .malformed

def isDigit (b : UInt8) : Bool := 0x30 ≤ b ∧ b ≤ 0x39

def number (digits : Bytes) : ℕ := digits.foldl (fun n b ↦ 10 * n + (b.toNat - 0x30)) 0

/-- The record at the head of `rest`, and its length, which is as large as its digits state: one
that a `usize` does not hold is longer than any data, and either is a malformed record. -/
def recordAt (rest : Bytes) : Except Fault ((Bytes × Bytes) × ℕ) := do
  let space ← position 0x20 rest
  let digits ← slice rest 0 space
  ensure (digits ≠ [] ∧ digits.all isDigit) Fault.malformed
  let length := number digits
  ensure (¬(length ≤ space + 1 ∨ rest.length < length)) Fault.malformed
  let last ← byteAt rest (length - 1)
  ensure (last = 0x0A) Fault.malformed
  let body ← slice rest (space + 1) (length - 1)
  ensure (¬body.head?.any fun b ↦ b = 0x20 ∨ b = 0x09) Fault.malformed
  let equals ← position 0x3D body
  let key ← slice body 0 equals
  let value ← slice body (equals + 1) body.length
  .ok ((key, value), length)

/-- The loop from position `start` on, or nothing where `fuel` turns do not end it. -/
def paxLoop (data : Bytes) : ℕ → ℕ → List (Bytes × Bytes) →
    Option (Except Fault (List (Bytes × Bytes)))
  | 0, _, _ => none
  | fuel + 1, start, records =>
    if start < data.length then
      match slice data start data.length >>= recordAt with
      | .error fault => some (.error fault)
      | .ok (record, length) => paxLoop data fuel (start + length) (records ++ [record])
    else some (.ok records)

end Loop

section Format

def IsRecord (record : Bytes × Bytes) (text : Bytes) : Prop :=
  ∃ digits, text = digits ++ 0x20 :: (record.1 ++ 0x3D :: (record.2 ++ [0x0A])) ∧ digits ≠ [] ∧
    digits.all isDigit = true ∧ number digits = text.length ∧ 0x3D ∉ record.1 ∧
      record.1.head? ≠ some 0x20 ∧ record.1.head? ≠ some 0x09

def IsRecords (records : List (Bytes × Bytes)) (data : Bytes) : Prop :=
  ∃ texts : List Bytes, data = texts.flatten ∧ List.Forall₂ IsRecord records texts

end Format

section Reading

variable {data rest before middle after digits text : Bytes} {b last : UInt8}
  {record : Bytes × Bytes} {records : List (Bytes × Bytes)}

theorem slice_append (before middle after : Bytes) :
    slice (before ++ (middle ++ after)) before.length (before.length + middle.length) =
    .ok middle := by
  have htake : (before ++ (middle ++ after)).take (before.length + middle.length) =
      before ++ middle := by
    rw [← List.append_assoc, ← List.length_append, List.take_left]
  rw [slice, if_pos ⟨by omega, by simp⟩, htake, List.drop_left]

theorem byteAt_append (before after : Bytes) (b : UInt8) :
    byteAt (before ++ b :: after) before.length = .ok b := by
  simp [byteAt]

theorem position_append (h : b ∉ before) (after : Bytes) :
    position b (before ++ b :: after) = .ok before.length := by
  have hfind : before.findIdx? (· = b) = none := by
    rw [List.findIdx?_eq_none_iff]
    rintro x hx
    exact decide_eq_false (fun hxb ↦ h (hxb ▸ hx))
  rw [position, List.findIdx?_append, hfind]
  simp [List.findIdx?_cons]

theorem position_of_not_mem (h : b ∉ data) : position b data = .error .malformed := by
  have hfind : data.findIdx? (· = b) = none := by
    rw [List.findIdx?_eq_none_iff]
    rintro x hx
    exact decide_eq_false (fun hxb ↦ h (hxb ▸ hx))
  rw [position, hfind]

/-- What is left to check once the length is the record's own. -/
def fields (body : Bytes) (last : UInt8) (length : ℕ) : Except Fault ((Bytes × Bytes) × ℕ) := do
  ensure (last = 0x0A) Fault.malformed
  ensure (¬body.head?.any fun b ↦ b = 0x20 ∨ b = 0x09) Fault.malformed
  let equals ← position 0x3D body
  let key ← slice body 0 equals
  let value ← slice body (equals + 1) body.length
  .ok ((key, value), length)

theorem not_mem_of_isDigit (h : digits.all isDigit = true) : 0x20 ∉ digits := fun hmem ↦
  absurd (List.all_eq_true.1 h _ hmem) (by decide)

theorem recordAt_append {body : Bytes} (hne : digits ≠ []) (hdigits : digits.all isDigit = true)
    (hlength : number digits = digits.length + 1 + body.length + 1) :
    recordAt (digits ++ 0x20 :: (body ++ last :: after)) = fields body last (number digits) := by
  have hslice : slice (digits ++ 0x20 :: (body ++ last :: after)) 0 digits.length = .ok digits := by
    simpa using slice_append [] digits (0x20 :: (body ++ last :: after))
  have hshift : digits ++ 0x20 :: (body ++ last :: after) =
      (digits ++ [0x20]) ++ (body ++ last :: after) := by simp
  have hbyte : byteAt (digits ++ 0x20 :: (body ++ last :: after)) (number digits - 1) =
      .ok last := by
    have hindex : number digits - 1 = (digits ++ 0x20 :: body).length := by
      rw [hlength, List.length_append, List.length_cons]
      omega
    rw [hindex]
    simpa using byteAt_append (digits ++ 0x20 :: body) after last
  have hbody : slice (digits ++ 0x20 :: (body ++ last :: after)) (digits.length + 1)
      (number digits - 1) = .ok body := by
    have hbody := slice_append (digits ++ [0x20]) body (last :: after)
    rw [← hshift, List.length_append, List.length_singleton] at hbody
    rwa [show number digits - 1 = digits.length + 1 + body.length by omega]
  have hbound : ¬(number digits ≤ digits.length + 1 ∨
      (digits ++ 0x20 :: (body ++ last :: after)).length < number digits) := by
    simp
    omega
  rw [recordAt, position_append (not_mem_of_isDigit hdigits), ok_bind, hslice, ok_bind,
    ensure_eq_ok.2 ⟨hne, hdigits⟩, ok_bind]
  dsimp only
  rw [ensure_eq_ok.2 hbound, ok_bind, hbyte, ok_bind, hbody]
  rfl

theorem head?_any_append {key value : Bytes} :
    (¬(key ++ 0x3D :: value).head?.any fun b ↦ b = 0x20 ∨ b = 0x09) ↔
      key.head? ≠ some 0x20 ∧ key.head? ≠ some 0x09 := by
  cases key <;> simp

theorem fields_append {key value : Bytes} (hequals : 0x3D ∉ key)
    (hblank : key.head? ≠ some 0x20 ∧ key.head? ≠ some 0x09) (length : ℕ) :
    fields (key ++ 0x3D :: value) 0x0A length = .ok ((key, value), length) := by
  have hkey : slice (key ++ 0x3D :: value) 0 key.length = .ok key := by
    simpa using slice_append [] key (0x3D :: value)
  have hvalue : slice (key ++ 0x3D :: value) (key.length + 1) (key ++ 0x3D :: value).length =
      .ok value := by
    have hstart : key.length + 1 = (key ++ [0x3D]).length := by rw [List.length_append]; rfl
    have hsplit : key ++ 0x3D :: value = (key ++ [0x3D]) ++ (value ++ []) := by simp
    have hend : (key ++ 0x3D :: value).length = (key ++ [0x3D]).length + value.length := by
      rw [hsplit, List.length_append, List.append_nil]
    rw [hend, hstart, hsplit]
    exact slice_append _ _ _
  rw [fields, ensure_eq_ok.2 rfl, ok_bind, ensure_eq_ok.2 (head?_any_append.2 hblank), ok_bind,
    position_append hequals, ok_bind, hkey, ok_bind, hvalue, ok_bind]

theorem recordAt_of_isRecord (h : IsRecord record text) (after : Bytes) :
    recordAt (text ++ after) = .ok (record, text.length) := by
  obtain ⟨digits, rfl, hne, hdigits, hlength, hequals, hblank⟩ := h
  have hread := @recordAt_append after digits 0x0A (record.1 ++ 0x3D :: record.2) hne hdigits
    (by rw [hlength]; simp; omega)
  rw [fields_append hequals hblank, hlength] at hread
  rw [← hread]
  simp

theorem fields_cases {body : Bytes} {length : ℕ} : fields body last length = .error .malformed ∨
    last = 0x0A ∧ ∃ key value, body = key ++ 0x3D :: value ∧ 0x3D ∉ key ∧
      key.head? ≠ some 0x20 ∧ key.head? ≠ some 0x09 := by
  by_cases hlast : last = 0x0A
  swap
  · left
    rw [fields, ensure, if_neg hlast]
    rfl
  by_cases hhead : body.head?.any fun b ↦ b = 0x20 ∨ b = 0x09
  · left
    rw [fields, ensure_eq_ok.2 hlast, ok_bind, ensure, if_neg (not_not.2 hhead)]
    rfl
  by_cases hmem : 0x3D ∈ body
  swap
  · left
    rw [fields, ensure_eq_ok.2 hlast, ok_bind, ensure_eq_ok.2 hhead, ok_bind,
      position_of_not_mem hmem]
    rfl
  · obtain ⟨key, value, rfl, hequals⟩ := List.eq_append_cons_of_mem hmem
    exact .inr ⟨hlast, key, value, rfl, hequals, head?_any_append.1 hhead⟩

theorem exists_eq_append_cons {i : ℕ} (h : i < data.length) :
    ∃ before b after, data = before ++ b :: after ∧ before.length = i :=
  ⟨data.take i, data[i], data.drop (i + 1), by simp, List.length_take_of_le h.le⟩

theorem recordAt_cases (rest : Bytes) : recordAt rest = .error .malformed ∨
    ∃ record text after, rest = text ++ after ∧ IsRecord record text := by
  by_cases hmem : 0x20 ∈ rest
  swap
  · left
    rw [recordAt, position_of_not_mem hmem]
    rfl
  obtain ⟨digits, tail, rfl, hspace⟩ := List.eq_append_cons_of_mem hmem
  have hslice : slice (digits ++ 0x20 :: tail) 0 digits.length = .ok digits := by
    simpa using slice_append [] digits (0x20 :: tail)
  by_cases hdigits : digits ≠ [] ∧ digits.all isDigit
  swap
  · left
    rw [recordAt, position_append hspace, ok_bind, hslice, ok_bind, ensure, if_neg hdigits]
    rfl
  by_cases hbound : ¬(number digits ≤ digits.length + 1 ∨
      (digits ++ 0x20 :: tail).length < number digits)
  swap
  · left
    rw [recordAt, position_append hspace, ok_bind, hslice, ok_bind, ensure_eq_ok.2 hdigits, ok_bind]
    dsimp only
    rw [ensure, if_neg hbound]
    rfl
  rw [List.length_append, List.length_cons] at hbound
  -- the body ends a byte before the record does
  obtain ⟨body, last, after, rfl, hbody⟩ :=
    exists_eq_append_cons (show number digits - digits.length - 2 < tail.length by omega)
  have hlength : number digits = digits.length + 1 + body.length + 1 := by omega
  rw [recordAt_append hdigits.1 hdigits.2 hlength]
  obtain hnone | ⟨rfl, key, value, rfl, hequals, hblank⟩ := @fields_cases last body (number digits)
  · exact .inl hnone
  · refine .inr ⟨(key, value), digits ++ 0x20 :: (key ++ 0x3D :: (value ++ [0x0A])), after,
      by simp, digits, rfl, hdigits.1, hdigits.2, ?_, hequals, hblank⟩
    rw [hlength]
    simp
    omega

theorem IsRecord.length_pos (h : IsRecord record text) : 0 < text.length := by
  obtain ⟨digits, rfl, hne, -⟩ := h
  rw [List.length_append]
  exact Nat.add_pos_left (List.length_pos_iff.2 hne) _

theorem IsRecords.nil : IsRecords [] [] := ⟨[], rfl, .nil⟩

theorem IsRecords.cons (hrecord : IsRecord record text) (h : IsRecords records data) :
    IsRecords (record :: records) (text ++ data) := by
  obtain ⟨texts, rfl, hall⟩ := h
  exact ⟨text :: texts, rfl, .cons hrecord hall⟩

theorem IsRecords.of_append (hrecord : IsRecord record text)
    (h : IsRecords records (text ++ after)) :
    ∃ records', records = record :: records' ∧ IsRecords records' after := by
  obtain ⟨texts, heq, hall⟩ := h
  have hpos := hrecord.length_pos
  cases hall with
  | nil =>
    have hlength := congrArg List.length heq
    rw [List.length_append, List.flatten_nil, List.length_nil] at hlength
    omega
  | @cons record' text' records' texts hrecord' hall =>
    have hread := recordAt_of_isRecord hrecord after
    rw [heq, List.flatten_cons, recordAt_of_isRecord hrecord'] at hread
    injection hread with hread
    injection hread with hsame hlength
    subst hsame
    obtain ⟨-, rfl⟩ := List.append_inj heq hlength.symm
    exact ⟨records', rfl, texts, rfl, hall⟩

theorem IsRecords.unique {records' : List (Bytes × Bytes)} (h : IsRecords records data)
    (h' : IsRecords records' data) : records = records' := by
  obtain ⟨texts, rfl, hall⟩ := h
  induction hall generalizing records' with
  | nil =>
    obtain ⟨texts, heq, hall⟩ := h'
    cases hall with
    | nil => rfl
    | cons hrecord hall =>
      have hlength := congrArg List.length heq
      have hpos := hrecord.length_pos
      rw [List.flatten_nil, List.length_nil, List.flatten_cons, List.length_append] at hlength
      omega
  | cons hrecord hall ih =>
    rw [List.flatten_cons] at h'
    obtain ⟨records'', rfl, h''⟩ := h'.of_append hrecord
    rw [ih h'']

/-- What is left of the data is read to its end, in a turn a byte at most and one more. -/
theorem paxLoop_cases (data : Bytes) (fuel : ℕ) (before rest : Bytes)
    (hdata : data = before ++ rest) (hfuel : rest.length < fuel) (read : List (Bytes × Bytes)) :
    (paxLoop data fuel before.length read = some (.error .malformed) ∧
      ∀ records, ¬IsRecords records rest) ∨
    ∃ records, IsRecords records rest ∧
      paxLoop data fuel before.length read = some (.ok (read ++ records)) := by
  induction fuel generalizing before rest read with
  | zero => omega
  | succ fuel ih =>
    cases rest with
    | nil =>
      refine .inr ⟨[], .nil, ?_⟩
      rw [paxLoop, if_neg (by simp [hdata]), List.append_nil]
    | cons b rest =>
      have hslice : slice data before.length data.length = .ok (b :: rest) := by
        rw [hdata, List.length_append]
        simpa using slice_append before (b :: rest) []
      have hstart : before.length < data.length := by
        rw [hdata]
        simp
      rw [paxLoop, if_pos hstart, hslice, ok_bind]
      obtain hnone | ⟨record, text, after, heq, hrecord⟩ := recordAt_cases (b :: rest)
      · rw [hnone]
        refine .inl ⟨rfl, ?_⟩
        rintro records ⟨texts, heq, hall⟩
        cases hall with
        | nil => cases heq
        | cons hrecord hall =>
          rw [heq, List.flatten_cons, recordAt_of_isRecord hrecord] at hnone
          cases hnone
      · rw [heq, recordAt_of_isRecord hrecord]
        have hlength := congrArg List.length heq
        rw [List.length_append] at hlength
        have hpos := hrecord.length_pos
        have hrun := ih (before ++ text) after (by rw [hdata, heq, List.append_assoc]) (by omega)
          (read ++ [record])
        rw [List.length_append] at hrun
        obtain ⟨hbad, hnot⟩ | ⟨records, hrecords, hgood⟩ := hrun
        · refine .inl ⟨hbad, fun records hrecords ↦ ?_⟩
          obtain ⟨records', -, hafter⟩ := hrecords.of_append hrecord
          exact hnot records' hafter
        · refine .inr ⟨record :: records, hrecords.cons hrecord, ?_⟩
          rw [List.append_assoc, List.singleton_append] at hgood
          exact hgood

end Reading

section Encoder

def decimal (n : ℕ) : Bytes := (Nat.digits 10 n).reverse.map fun d ↦ UInt8.ofNat (0x30 + d)

def body (record : Bytes × Bytes) : Bytes := 0x20 :: (record.1 ++ 0x3D :: (record.2 ++ [0x0A]))

theorem length_decimal (n : ℕ) : (decimal n).length = (Nat.digits 10 n).length := by
  rw [decimal, List.length_map, List.length_reverse]

theorem length_decimal_mono {m n : ℕ} (h : m ≤ n) : (decimal m).length ≤ (decimal n).length := by
  rw [length_decimal, length_decimal]
  exact Nat.le_length_digits_le 10 m n h

theorem exists_length_le (rest : ℕ) : ∃ extra, (decimal (rest + 1 + extra)).length + rest ≤
    rest + 1 + extra := by
  refine ⟨rest, ?_⟩
  have hlt : rest < 10 ^ rest := Nat.lt_pow_self (by decide)
  have hpow : rest + 1 + rest < 10 ^ (rest + 1) := by
    rw [pow_succ]
    omega
  have hlength := (Nat.digits_length_le_iff (by decide) _).2 hpow
  rw [length_decimal]
  omega

theorem exists_length (rest : ℕ) : ∃ extra, (decimal (rest + 1 + extra)).length + rest =
    rest + 1 + extra := by
  classical
  let extra := Nat.find (exists_length_le rest)
  have hle := Nat.find_spec (exists_length_le rest)
  refine ⟨extra, le_antisymm hle ?_⟩
  obtain hzero | hpos := Nat.eq_zero_or_pos extra
  · have hne : Nat.digits 10 (rest + 1) ≠ [] := Nat.digits_ne_nil_iff_ne_zero.2 (by omega)
    have hlength := List.length_pos_iff.2 hne
    rw [hzero, length_decimal, Nat.add_zero]
    omega
  · have hlt := Nat.find_min (exists_length_le rest) (show extra - 1 < extra by omega)
    have hmono := length_decimal_mono (show rest + 1 + (extra - 1) ≤ rest + 1 + extra by omega)
    omega

/-- The first length from one more than `rest` on that is `rest` and its own digits. -/
def recordLength (rest : ℕ) : ℕ := rest + 1 + Nat.find (exists_length rest)

def encode (record : Bytes × Bytes) : Bytes :=
  decimal (recordLength (body record).length) ++ body record

theorem isDigit_decimal (n : ℕ) : (decimal n).all isDigit = true := by
  have hall : ∀ d : Fin 10, isDigit (.ofNat (0x30 + d)) = true := by decide +kernel
  rw [List.all_eq_true]
  intro b hb
  obtain ⟨d, hd, rfl⟩ := List.mem_map.1 hb
  exact hall ⟨d, Nat.digits_lt_base (by decide) (List.mem_reverse.1 hd)⟩

theorem number_decimal (n : ℕ) : number (decimal n) = n := by
  have hdigits : ∀ d ∈ Nat.digits 10 n, (UInt8.ofNat (0x30 + d)).toNat - 0x30 = d := by
    intro d hd
    have hall : ∀ d : Fin 10, (UInt8.ofNat (0x30 + d)).toNat - 0x30 = d := by decide +kernel
    exact hall ⟨d, Nat.digits_lt_base (by decide) hd⟩
  calc number (decimal n)
      = (Nat.digits 10 n).foldr (fun d n ↦ 10 * n + ((UInt8.ofNat (0x30 + d)).toNat - 0x30)) 0 := by
        rw [number, decimal, List.foldl_map, List.foldl_reverse]
    _ = (Nat.digits 10 n).foldr (fun d n ↦ d + 10 * n) 0 :=
        List.foldr_ext _ _ _ (fun d hd m ↦ by rw [hdigits d hd, Nat.add_comm])
    _ = n := (Nat.ofDigits_eq_foldr 10 _).symm.trans (Nat.ofDigits_digits 10 n)

theorem recordLength_eq (rest : ℕ) :
    (decimal (recordLength rest)).length + rest = recordLength rest :=
  Nat.find_spec (exists_length rest)

variable {record : Bytes × Bytes} {records : List (Bytes × Bytes)}

def Plain (key : Bytes) : Prop := 0x3D ∉ key ∧ key.head? ≠ some 0x20 ∧ key.head? ≠ some 0x09

theorem isRecord_encode (h : Plain record.1) : IsRecord record (encode record) := by
  have hlength := recordLength_eq (body record).length
  refine ⟨decimal (recordLength (body record).length), rfl, ?_, isDigit_decimal _, ?_, h⟩
  · intro hnil
    rw [hnil, List.length_nil, Nat.zero_add] at hlength
    rw [recordLength] at hlength
    omega
  · rw [number_decimal, encode, List.length_append, hlength]

theorem isRecords_encode (h : ∀ record ∈ records, Plain record.1) :
    IsRecords records (records.flatMap encode) := by
  induction records with
  | nil => exact .nil
  | cons record records ih =>
    obtain ⟨hrecord, hrecords⟩ := List.forall_mem_cons.1 h
    exact .cons (isRecord_encode hrecord) (ih hrecords)

end Encoder

section Exactness

variable {data rest : Bytes} {records : List (Bytes × Bytes)}

theorem paxLoop_eq_ok : paxLoop data (data.length + 1) 0 [] = some (.ok records) ↔
    IsRecords records data := by
  obtain ⟨hbad, hnot⟩ | ⟨read, hread, hgood⟩ :=
    paxLoop_cases data (data.length + 1) [] data rfl (Nat.lt_succ_self _) []
  · rw [List.length_nil] at hbad
    rw [hbad]
    exact ⟨nofun, fun h ↦ absurd h (hnot records)⟩
  · rw [List.length_nil, List.nil_append] at hgood
    rw [hgood, Option.some_inj, Except.ok.injEq]
    exact ⟨fun h ↦ h ▸ hread, hread.unique⟩

theorem paxLoop_ends (data : Bytes) :
    paxLoop data (data.length + 1) 0 [] = some (.error .malformed) ∨
      ∃ records, paxLoop data (data.length + 1) 0 [] = some (.ok records) := by
  obtain ⟨hbad, -⟩ | ⟨read, -, hgood⟩ :=
    paxLoop_cases data (data.length + 1) [] data rfl (Nat.lt_succ_self _) []
  · exact .inl hbad
  · exact .inr ⟨_, hgood⟩

theorem takeWhile_append {b : UInt8} {before : Bytes} (h : b ∉ before) (after : Bytes) :
    (before ++ b :: after).takeWhile (· ≠ b) = before := by
  rw [List.takeWhile_append_of_pos, List.takeWhile_cons_of_neg (by simp), List.append_nil]
  intro x hx
  exact decide_eq_true (fun hxb ↦ h (hxb ▸ hx))

theorem takeWhile_eq_self {b : UInt8} (h : b ∉ data) : data.takeWhile (· ≠ b) = data := by
  rw [← List.append_nil data, List.takeWhile_append_of_pos, List.takeWhile_nil]
  intro x hx
  exact decide_eq_true (fun hxb ↦ h (hxb ▸ hx))

theorem record_parts {digits body after : Bytes} {last : UInt8} {length : ℕ}
    (hlength : length = digits.length + 1 + body.length + 1) :
    (digits ++ 0x20 :: (body ++ last :: after))[length - 1]? = some last ∧
    ((digits ++ 0x20 :: (body ++ last :: after)).take (length - 1)).drop
    (digits.length + 1) = body ∧
    (digits ++ 0x20 :: (body ++ last :: after)).drop length = after := by
  have hindex : length - 1 = (digits ++ 0x20 :: body).length := by
    rw [hlength, List.length_append, List.length_cons]
    omega
  have hsplit : digits ++ 0x20 :: (body ++ last :: after) =
      (digits ++ 0x20 :: body) ++ last :: after := by simp
  refine ⟨?_, ?_, ?_⟩
  · rw [hindex, hsplit]
    simp
  · rw [hindex, hsplit, List.take_left,
      show digits ++ 0x20 :: body = (digits ++ [0x20]) ++ body by simp,
      show digits.length + 1 = (digits ++ [0x20]).length by simp, List.drop_left]
  · rw [show length = (digits ++ 0x20 :: (body ++ [last])).length by simp [hlength]; omega,
      show digits ++ 0x20 :: (body ++ last :: after) =
        (digits ++ 0x20 :: (body ++ [last])) ++ after by simp, List.drop_left]

theorem paxRecord_of_isRecord {record : Bytes × Bytes} {text : Bytes} (h : IsRecord record text)
    (after : Bytes) : paxRecord (text ++ after) = some (record, after) := by
  obtain ⟨digits, rfl, hne, hdigits, hlength, hequals, hblank⟩ := h
  have hnumber : number digits = digits.length + 1 + (record.1 ++ 0x3D :: record.2).length + 1 := by
    rw [hlength]
    simp
    omega
  have htext : digits ++ 0x20 :: (record.1 ++ 0x3D :: (record.2 ++ [0x0A])) ++ after =
      digits ++ 0x20 :: ((record.1 ++ 0x3D :: record.2) ++ 0x0A :: after) := by simp
  obtain ⟨hlast, hbody, hafter⟩ := @record_parts digits _ after 0x0A _ hnumber
  rw [htext, paxRecord, takeWhile_append (not_mem_of_isDigit hdigits)]
  dsimp only
  rw [if_neg, ← number, if_neg, hbody, if_neg (head?_any_append.2 hblank),
    takeWhile_append hequals, if_neg, hafter]
  · simp
  · simp
  · rw [not_or, not_or, hlast, hnumber]
    simp
    omega
  · rw [not_or, not_or, not_not]
    exact ⟨by simp, hne, hdigits⟩

theorem isRecord_of_paxRecord {record : Bytes × Bytes} (h : paxRecord data = some (record, rest)) :
    ∃ text, data = text ++ rest ∧ IsRecord record text := by
  have hmem : 0x20 ∈ data := by
    by_contra hmem
    rw [paxRecord, takeWhile_eq_self hmem] at h
    dsimp only at h
    rw [if_pos (.inl rfl)] at h
    cases h
  obtain ⟨digits, tail, rfl, hspace⟩ := List.eq_append_cons_of_mem hmem
  rw [paxRecord, takeWhile_append hspace] at h
  dsimp only at h
  split_ifs at h with hdigits hbound hhead hequals
  rw [← number] at *
  simp only [not_or, not_not, not_le, not_lt] at hdigits hbound
  rw [List.length_append, List.length_cons] at hbound
  obtain ⟨body, last, after, rfl, hlength⟩ :=
    exists_eq_append_cons (show number digits - digits.length - 2 < tail.length by omega)
  have hnumber : number digits = digits.length + 1 + body.length + 1 := by omega
  obtain ⟨hlast, hbody, hafter⟩ := @record_parts digits body after last _ hnumber
  rw [hbody] at h hhead hequals
  rw [hafter] at h
  rw [hlast, Option.some_inj] at hbound
  obtain ⟨-, -, rfl⟩ := hbound
  have hmem : 0x3D ∈ body := by
    by_contra hmem
    exact hequals (by rw [takeWhile_eq_self hmem])
  obtain ⟨key, value, rfl, hkey⟩ := List.eq_append_cons_of_mem hmem
  rw [takeWhile_append hkey] at h
  obtain ⟨rfl, rfl⟩ := Prod.mk.inj (Option.some_inj.1 h)
  refine ⟨digits ++ 0x20 :: (key ++ 0x3D :: (value ++ [0x0A])), by simp, digits, by simp,
    hdigits.2.1, hdigits.2.2, ?_, hkey, head?_any_append.1 hhead⟩
  rw [hnumber]
  simp
  omega

theorem paxRecordsFrom_eq_some {n : ℕ} (hn : data.length ≤ n) :
    paxRecordsFrom n data = some records ↔ IsRecords records data := by
  induction n generalizing data records with
  | zero =>
    obtain rfl := List.length_eq_zero_iff.1 (Nat.le_zero.1 hn)
    rw [paxRecordsFrom, Option.some_inj]
    exact ⟨fun h ↦ h ▸ .nil, IsRecords.nil.unique⟩
  | succ n ih =>
    cases data with
    | nil =>
      rw [paxRecordsFrom, Option.some_inj]
      exact ⟨fun h ↦ h ▸ .nil, IsRecords.nil.unique⟩
    | cons b data =>
      rw [paxRecordsFrom.eq_3 (b :: data) n (by simp), Option.bind_eq_some_iff]
      constructor
      · rintro ⟨⟨record, rest⟩, hrecord, hrest⟩
        obtain ⟨text, heq, hrecord⟩ := isRecord_of_paxRecord hrecord
        have hlength := congrArg List.length heq
        have hpos := hrecord.length_pos
        rw [List.length_append] at hlength
        obtain ⟨records, hread, rfl⟩ := Option.map_eq_some_iff.1 hrest
        rw [heq]
        exact .cons hrecord ((ih (by omega)).1 hread)
      · rintro ⟨texts, heq, hall⟩
        cases hall with
        | nil => cases heq
        | @cons record text records texts hrecord hall =>
          have hlength := congrArg List.length heq
          have hpos := hrecord.length_pos
          rw [List.flatten_cons, List.length_append] at hlength
          rw [heq, List.flatten_cons]
          refine ⟨(record, texts.flatten), paxRecord_of_isRecord hrecord _, ?_⟩
          exact Option.map_eq_some_iff.2 ⟨records, (ih (by omega)).2 ⟨texts, rfl, hall⟩, rfl⟩

theorem paxRecords_eq_some : paxRecords data = some records ↔ IsRecords records data :=
  paxRecordsFrom_eq_some le_rfl

/-- The loop ends whatever the data are, with what the archive's walk takes from it and never past
them. It reads just the records that the data are made of, and so the encoder's. -/
theorem pax_records_exact (data : Bytes) :
    paxLoop data (data.length + 1) 0 [] = some ((paxRecords data).elim (.error .malformed) .ok) ∧
    (∀ records, paxRecords data = some records ↔ IsRecords records data) ∧
    ∀ records : List (Bytes × Bytes), (∀ record ∈ records, Plain record.1) →
      paxRecords (records.flatMap encode) = some records := by
  refine ⟨?_, fun _ ↦ paxRecords_eq_some, fun _ h ↦ paxRecords_eq_some.2 (isRecords_encode h)⟩
  obtain hbad | ⟨records, hgood⟩ := paxLoop_ends data
  · cases hread : paxRecords data with
    | none => exact hbad
    | some records =>
      have hgood := paxLoop_eq_ok.2 (paxRecords_eq_some.1 hread)
      cases hbad.symm.trans hgood
  · rw [hgood, paxRecords_eq_some.2 (paxLoop_eq_ok.1 hgood)]
    rfl

theorem pax_records_exact_value :
    paxRecords ([([0x61], [0x31, 0x3D, 0x0A]), ([], [])].flatMap encode) =
      some [([0x61], [0x31, 0x3D, 0x0A]), ([], [])] :=
  (pax_records_exact []).2.2 _ (by simp [Plain])

end Exactness

end Birdtest.Inputdata
