import Mathlib.Data.List.Induction
import Mathlib.Tactic.Set

namespace Birdtest.Exports.Upload

abbrev Bytes := List UInt8

/-- `GzEncoder`: where it is in its stream, and what a write and its end add to its output. -/
structure Encoder (Z : Type) where
  new : Z
  write : Z → Bytes → Z × Bytes
  finish : Z → Bytes

variable {Z : Type} (gz : Encoder Z) (sha256 : Bytes → String)

def Encoder.encode : Z → List Bytes → Bytes
  | z, [] => gz.finish z
  | z, batch :: batches => (gz.write z batch).2 ++ Encoder.encode (gz.write z batch).1 batches

def partSize : ℕ := 8 * 1024 * 1024
def compressBatchBytes : ℕ := 1024 * 1024

def newline : UInt8 := 10

def ndjson (lines : List Bytes) : Bytes := lines.flatMap (· ++ [newline])

structure Uploaded where
  bytes : ℕ
  sha256 : String
  rows : ℕ
  deriving DecidableEq

structure Compressor (Z : Type) where
  encoder : Z
  buffer : Bytes
  hashed : Bytes
  bytes : ℕ

section Operations

variable (compressor : Compressor Z)

def Compressor.push (batch : Bytes) : Compressor Z × Option Bytes :=
  let out := gz.write compressor.encoder batch
  let buffer := compressor.buffer ++ out.2
  if partSize ≤ buffer.length then
    (⟨out.1, [], compressor.hashed ++ buffer, compressor.bytes + buffer.length⟩, some buffer)
  else (⟨out.1, buffer, compressor.hashed, compressor.bytes⟩, none)

def Compressor.finish : Bytes × ℕ × String :=
  let tail := compressor.buffer ++ gz.finish compressor.encoder
  (tail, compressor.bytes + tail.length, sha256 (compressor.hashed ++ tail))

end Operations

structure Progress (Z : Type) where
  compressor : Compressor Z
  batch : Bytes
  rowsWritten : ℕ
  parts : List Bytes

def Progress.start : Progress Z := ⟨⟨gz.new, [], [], 0⟩, [], 0, []⟩

def Progress.row (upload : Progress Z) (line : Bytes) : Progress Z :=
  let batch := upload.batch ++ line ++ [newline]
  let rowsWritten := upload.rowsWritten + 1
  if compressBatchBytes ≤ batch.length then
    let pushed := upload.compressor.push gz batch
    ⟨pushed.1, [], rowsWritten, upload.parts ++ pushed.2.toList⟩
  else ⟨upload.compressor, batch, rowsWritten, upload.parts⟩

def Progress.finish (upload : Progress Z) : List Bytes × Uploaded :=
  let pushed := upload.compressor.push gz upload.batch
  let finished := pushed.1.finish gz sha256
  (upload.parts ++ (pushed.2.toList ++ [finished.1]).filter (¬ ·.isEmpty),
    ⟨finished.2.1, finished.2.2, upload.rowsWritten⟩)

def uploadRows (lines : List Bytes) : List Bytes × Uploaded :=
  (lines.foldl (Progress.row gz) (Progress.start gz)).finish gz sha256

structure Compressor.Pushed (compressor : Compressor Z) (batches parts : List Bytes) : Prop where
  hashed : compressor.hashed = parts.flatten
  bytes : compressor.bytes = parts.flatten.length
  encode : ∀ rest, gz.encode gz.new (batches ++ rest) =
    parts.flatten ++ compressor.buffer ++ gz.encode compressor.encoder rest

theorem Compressor.Pushed.push {compressor : Compressor Z} {batches parts : List Bytes}
    (h : compressor.Pushed gz batches parts) (batch : Bytes) :
    (compressor.push gz batch).1.Pushed gz (batches ++ [batch])
      (parts ++ (compressor.push gz batch).2.toList) := by
  have hencode : ∀ rest, gz.encode gz.new (batches ++ [batch] ++ rest) = parts.flatten ++
      (compressor.buffer ++ (gz.write compressor.encoder batch).2) ++
        gz.encode (gz.write compressor.encoder batch).1 rest := by
    intro rest
    rw [List.append_assoc, h.encode, List.singleton_append, Encoder.encode]
    simp only [List.append_assoc]
  simp only [Compressor.push]
  split
  · refine ⟨?_, ?_, fun rest ↦ ?_⟩
    · simp [h.hashed]
    · simp [h.bytes]
    · simpa using hencode rest
  · refine ⟨?_, ?_, fun rest ↦ ?_⟩
    · simp [h.hashed]
    · simp [h.bytes]
    · simpa using hencode rest

structure Progress.Read (upload : Progress Z) (lines : List Bytes) : Prop where
  rows : upload.rowsWritten = lines.length
  pushed : ∃ batches, batches.flatten ++ upload.batch = ndjson lines ∧
    upload.compressor.Pushed gz batches upload.parts

theorem Progress.Read.row {upload : Progress Z} {lines : List Bytes} (h : upload.Read gz lines)
    (line : Bytes) : (upload.row gz line).Read gz (lines ++ [line]) := by
  obtain ⟨batches, hbatches, hpushed⟩ := h.pushed
  have htext : ndjson (lines ++ [line]) = batches.flatten ++
      (upload.batch ++ line ++ [newline]) := by
    rw [ndjson, List.flatMap_append, ← ndjson, ← hbatches]
    simp
  simp only [Progress.row]
  split
  · refine ⟨by simp [h.rows], _, ?_, hpushed.push gz _⟩
    simp [htext]
  · exact ⟨by simp [h.rows], batches, htext.symm, hpushed⟩

theorem Progress.read_foldl (lines : List Bytes) :
    (lines.foldl (Progress.row gz) (Progress.start gz)).Read gz lines := by
  induction lines using List.reverseRecOn with
  | nil => exact ⟨rfl, [], rfl, rfl, rfl, fun rest ↦ rfl⟩
  | append_singleton lines line ih =>
    rw [List.foldl_append]
    exact ih.row gz line

structure Uploaded.Describes (uploaded : Uploaded) (object : Bytes) : Prop where
  bytes : uploaded.bytes = object.length
  sha256 : uploaded.sha256 = sha256 object
  rows : ∃ lines batches : List Bytes, uploaded.rows = lines.length ∧
    batches.flatten = ndjson lines ∧ object = gz.encode gz.new batches

theorem flatten_filter_not_isEmpty (parts : List Bytes) :
    (parts.filter (¬ ·.isEmpty)).flatten = parts.flatten := by
  induction parts with
  | nil => rfl
  | cons part parts ih => cases part <;> simpa using ih

/-- The parts of an upload are one stream of the rows read, and described as that. -/
theorem Progress.Read.finish {upload : Progress Z} {lines : List Bytes} (h : upload.Read gz lines) :
    (upload.finish gz sha256).2.bytes = (upload.finish gz sha256).1.flatten.length ∧
    (upload.finish gz sha256).2.sha256 = sha256 (upload.finish gz sha256).1.flatten ∧
    (upload.finish gz sha256).2.rows = lines.length ∧
    ∃ batches : List Bytes, batches.flatten = ndjson lines ∧
      (upload.finish gz sha256).1.flatten = gz.encode gz.new batches := by
  obtain ⟨hrows, batches, hbatches, hpushed⟩ := h
  have hpushed := hpushed.push gz upload.batch
  set pushed := upload.compressor.push gz upload.batch with hdef
  have hobject : (upload.finish gz sha256).1.flatten = (upload.parts ++ pushed.2.toList).flatten ++
      (pushed.1.buffer ++ gz.finish pushed.1.encoder) := by
    rw [Progress.finish, ← hdef, List.flatten_append, flatten_filter_not_isEmpty]
    simp [Compressor.finish]
  refine ⟨?_, ?_, hrows, batches ++ [upload.batch], ?_, ?_⟩
  · rw [hobject, List.length_append, ← hpushed.bytes]
    rfl
  · rw [hobject, ← hpushed.hashed]
    rfl
  · simpa using hbatches
  · have hencode := hpushed.encode []
    rw [List.append_nil, Encoder.encode] at hencode
    rw [hobject, hencode, List.append_assoc]

theorem uploadRows_describes (lines : List Bytes) :
    (uploadRows gz sha256 lines).2.Describes gz sha256 (uploadRows gz sha256 lines).1.flatten := by
  obtain ⟨hbytes, hsha256, hrows, batches, hbatches, hobject⟩ :=
    (Progress.read_foldl gz lines).finish gz sha256
  exact ⟨hbytes, hsha256, lines, batches, hrows, hbatches, hobject⟩

section Parts

theorem Compressor.partSize_le {compressor : Compressor Z} {batch part : Bytes}
    (h : part ∈ (compressor.push gz batch).2) : partSize ≤ part.length := by
  simp only [Compressor.push] at h
  split at h
  · next hle =>
    cases h
    exact hle
  · cases h

theorem Progress.partSize_le (lines : List Bytes) :
    ∀ part ∈ (lines.foldl (Progress.row gz) (Progress.start gz)).parts, partSize ≤ part.length := by
  induction lines using List.reverseRecOn with
  | nil => nofun
  | append_singleton lines line ih =>
    rw [List.foldl_append]
    intro part hpart
    simp only [List.foldl_cons, List.foldl_nil, Progress.row] at hpart
    split at hpart
    · obtain hpart | hpart := List.mem_append.1 hpart
      · exact ih part hpart
      · exact Compressor.partSize_le gz (Option.mem_toList.1 hpart)
    · exact ih part hpart

theorem mem_of_mem_dropLast_filter {parts : List Bytes} {tail part : Bytes}
    (h : part ∈ (parts ++ [tail].filter (¬ ·.isEmpty)).dropLast) : part ∈ parts := by
  cases tail with
  | nil => simpa using (List.dropLast_sublist _).subset h
  | cons b tail => simpa using h

theorem Progress.parts_finish (lines : List Bytes) : ∃ (full : List Bytes) (tail : Bytes),
    (uploadRows gz sha256 lines).1 = full ++ [tail].filter (¬ ·.isEmpty) ∧
    ∀ part ∈ full, partSize ≤ part.length := by
  let upload := lines.foldl (Progress.row gz) (Progress.start gz)
  let pushed := upload.compressor.push gz upload.batch
  refine ⟨upload.parts ++ pushed.2.toList.filter (¬ ·.isEmpty), (pushed.1.finish gz sha256).1, ?_,
    fun part hpart ↦ ?_⟩
  · rw [uploadRows, Progress.finish, List.filter_append, ← List.append_assoc]
  · obtain hpart | hpart := List.mem_append.1 hpart
    · exact Progress.partSize_le gz lines part hpart
    · exact Compressor.partSize_le gz (Option.mem_toList.1 (List.mem_filter.1 hpart).1)

variable (decode : Bytes → Option Bytes)

/-- Whatever the encoder holds back and when, the parts are one stream of the rows' lines in order.
All but the last are as long as a part has to be, none is empty, and what is recorded is of just
these bytes. -/
theorem uploadRows_whole
    (hgzip : ∀ batches : List Bytes, decode (gz.encode gz.new batches) = some batches.flatten)
    (lines : List Bytes) :
    (∃ batches : List Bytes, batches.flatten = ndjson lines ∧
      (uploadRows gz sha256 lines).1.flatten = gz.encode gz.new batches) ∧
    decode (uploadRows gz sha256 lines).1.flatten = some (ndjson lines) ∧
    (∀ part ∈ (uploadRows gz sha256 lines).1.dropLast, partSize ≤ part.length) ∧
    (∀ part ∈ (uploadRows gz sha256 lines).1, part ≠ []) ∧
    (uploadRows gz sha256 lines).2.bytes = (uploadRows gz sha256 lines).1.flatten.length ∧
    (uploadRows gz sha256 lines).2.sha256 = sha256 (uploadRows gz sha256 lines).1.flatten ∧
    (uploadRows gz sha256 lines).2.rows = lines.length := by
  obtain ⟨hbytes, hsha256, hrows, batches, hbatches, hobject⟩ :=
    (Progress.read_foldl gz lines).finish gz sha256
  obtain ⟨full, tail, hparts, hfull⟩ := Progress.parts_finish gz sha256 lines
  refine ⟨⟨batches, hbatches, hobject⟩, ?_, fun part hpart ↦ ?_, fun part hpart ↦ ?_, hbytes,
    hsha256, hrows⟩
  · rw [← hbatches, ← hgzip]
    exact congrArg decode hobject
  · rw [hparts] at hpart
    exact hfull part (mem_of_mem_dropLast_filter hpart)
  · rw [hparts] at hpart
    rintro rfl
    obtain hpart | hpart := List.mem_append.1 hpart
    · exact absurd (hfull [] hpart) (by decide)
    · exact absurd (List.mem_filter.1 hpart).2 (by decide)

/-- `{"seed":7}` -/
def seedRow : Bytes := [123, 34, 115, 101, 101, 100, 34, 58, 55, 125]

/-- An encoder that keeps what it is given until it is closed, and makes what `GzEncoder` does of
nothing and of one row. -/
def lateEncoder : Encoder Bytes where
  new := []
  write z batch := (z ++ batch, [])
  finish z := [0x1F, 0x8B, 8, 0, 0, 0, 0, 0, 0, 0xFF] ++
    if z = [] then [3, 0, 0, 0, 0, 0, 0, 0, 0, 0]
    else if z = ndjson [seedRow] then
      [171, 86, 42, 78, 77, 77, 81, 178, 50, 175, 229, 2, 0, 102, 177, 21, 153, 11, 0, 0, 0]
    else 1 :: z

def lateDecode (stream : Bytes) : Option Bytes :=
  match stream.drop 10 with
  | 1 :: z => some z
  | 171 :: _ => some (ndjson [seedRow])
  | _ => some []

theorem lateDecode_encode (z : Bytes) (batches : List Bytes) :
    lateDecode (lateEncoder.encode z batches) = some (z ++ batches.flatten) := by
  induction batches generalizing z with
  | nil =>
    rw [Encoder.encode, List.flatten_nil, List.append_nil]
    by_cases hz : z = []
    · simp [lateEncoder, lateDecode, hz]
    · by_cases hrow : z = ndjson [seedRow]
      · rw [hrow]
        rfl
      · simp [lateEncoder, lateDecode, hz, hrow]
  | cons batch batches ih =>
    rw [Encoder.encode, List.flatten_cons, ← List.append_assoc]
    exact ih (z ++ batch)

def seedSha256 (_ : Bytes) : String :=
  "e15193f4ec1b0aba675c77c90d43ee2dfb413b75338a9fe090aeee40d18c4445"

theorem uploadRows_whole_row :
    lateDecode (uploadRows lateEncoder seedSha256 [seedRow]).1.flatten = some (ndjson [seedRow]) ∧
    (uploadRows lateEncoder seedSha256 [seedRow]).2.bytes = 31 ∧
    (uploadRows lateEncoder seedSha256 [seedRow]).2.rows = 1 := by
  obtain ⟨-, hdecode, -, -, hbytes, -, hrows⟩ :=
    uploadRows_whole lateEncoder seedSha256 lateDecode (lateDecode_encode []) [seedRow]
  exact ⟨hdecode, hbytes.trans rfl, hrows⟩

end Parts

end Birdtest.Exports.Upload
