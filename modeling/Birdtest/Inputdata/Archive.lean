import Birdtest.Base.Checked
import Birdtest.Inputdata.Paths
import Mathlib.Data.List.Forall2
import Mathlib.Data.List.Nodup
import Mathlib.Logic.Relation

namespace Birdtest.Inputdata

open Birdtest.Base.Checked

abbrev Bytes : Type := List UInt8

section Utf8

/-- A character begun: its value so far, how many bytes it lacks, and the bounds of the next. -/
structure Pending where
  value : ℕ
  lacks : ℕ
  lower : ℕ
  upper : ℕ

def replacement : Char := Char.ofNat 0xFFFD

def beginChar (b : ℕ) : List Char × Option Pending :=
  if b ≤ 0x7F then ([Char.ofNat b], none)
  else if 0xC2 ≤ b ∧ b ≤ 0xDF then ([], some ⟨b - 0xC0, 1, 0x80, 0xBF⟩)
  else if 0xE0 ≤ b ∧ b ≤ 0xEF then
    ([], some ⟨b - 0xE0, 2, if b = 0xE0 then 0xA0 else 0x80, if b = 0xED then 0x9F else 0xBF⟩)
  else if 0xF0 ≤ b ∧ b ≤ 0xF4 then
    ([], some ⟨b - 0xF0, 3, if b = 0xF0 then 0x90 else 0x80, if b = 0xF4 then 0x8F else 0xBF⟩)
  else ([replacement], none)

/-- A byte that cannot go on ends the character begun, as one replacement character, and is read
again as the first of the next. -/
def decodeFrom : Option Pending → Bytes → List Char
  | none, [] => []
  | some _, [] => [replacement]
  | none, b :: bytes => (beginChar b.toNat).1 ++ decodeFrom (beginChar b.toNat).2 bytes
  | some p, b :: bytes =>
    if p.lower ≤ b.toNat ∧ b.toNat ≤ p.upper then
      let value := p.value * 64 + (b.toNat - 0x80)
      if p.lacks = 1 then Char.ofNat value :: decodeFrom none bytes
      else decodeFrom (some ⟨value, p.lacks - 1, 0x80, 0xBF⟩) bytes
    else replacement :: (beginChar b.toNat).1 ++ decodeFrom (beginChar b.toNat).2 bytes

def lossy (bytes : Bytes) : List Char := decodeFrom none bytes

end Utf8

inductive EntryType
  | regular | link | symlink | char | block | directory | fifo | continuous
  | gnuLongName | gnuLongLink | gnuSparse | xGlobalHeader | xHeader | other (flag : UInt8)
  deriving DecidableEq

def EntryType.pax (type : EntryType) : Bool := type = .xHeader ∨ type = .xGlobalHeader

def EntryType.extension (type : EntryType) : Bool :=
  type.pax ∨ type = .gnuLongName ∨ type = .gnuLongLink

/-- An entry as the raw tar reader delivers it. Where the reader fails there is `none`. -/
structure RawEntry where
  type : EntryType
  magic : Bytes
  version : Bytes
  sizeField : Bytes
  size : Option ℕ
  path : Option Bytes
  linkName : Option Bytes
  data : Option Bytes

structure ImportedFile where
  path : List Char
  role : InputRole
  name : List Char
  sha256 : String
  bytes : ℕ
  content : Option Bytes
  objectKey : Option String
  stored : Option Bytes
  deriving DecidableEq

structure Link where
  path : List Char
  role : InputRole
  name : List Char
  written : List Char
  target : List Char

inductive Refusal
  | malformedEntry
  | tooManyEntries
  | unknownUstarVersion
  | unplainSize
  | unreadableSize
  | extensionTooLarge
  | entryTooLarge (path : List Char)
  | totalTooLarge
  | expandsTooMuch
  | unreadableExtension
  | twoNames
  | twoPaxHeaders
  | malformedPaxRecord
  | unneededPaxRecord (key : List Char)
  | globalPaxRecord (key : List Char)
  | nulInPaxRecord (key : List Char)
  | dataAfterLink
  | nonRegular (type : EntryType)
  | unreadablePath
  | unsafePath (path : List Char)
  | namedAsDirectory (path : List Char)
  | unresolvableLink (path target : List Char)
  | twice (path : List Char)
  | contentTooLarge (path : List Char) (role : InputRole)
  | unreadableFile (path : List Char)
  | notItsSize (path : List Char)
  | nothingRecognisable
  deriving DecidableEq

namespace Limits

def uncompressedBytes : ℕ := 1024 * 1024 * 1024

def expansionRatio : ℕ := 20

def entryBytes : ℕ := 128 * 1024 * 1024

def entries : ℕ := 5000

def extensionBytes : ℕ := 64 * 1024

def contentBytes : ℕ := 64 * 1024

end Limits

section Records

def paxRecord (data : Bytes) : Option ((Bytes × Bytes) × Bytes) :=
  let digits := data.takeWhile (· ≠ 0x20)
  if digits.length = data.length ∨ digits = [] ∨ ¬ digits.all (fun b ↦ 0x30 ≤ b ∧ b ≤ 0x39) then
    none
  else
    let length := digits.foldl (fun n b ↦ 10 * n + (b.toNat - 0x30)) 0
    if length ≤ digits.length + 1 ∨ data.length < length ∨ data[length - 1]? ≠ some 0x0A then none
    else
      let body := (data.take (length - 1)).drop (digits.length + 1)
      if body.head?.any (fun b ↦ b = 0x20 ∨ b = 0x09) then none
      else
        let key := body.takeWhile (· ≠ 0x3D)
        if key.length = body.length then none
        else some ((key, body.drop (key.length + 1)), data.drop length)

def paxRecordsFrom : ℕ → Bytes → Option (List (Bytes × Bytes))
  | _, [] => some []
  | 0, _ :: _ => none
  | n + 1, data => (paxRecord data).bind fun (record, rest) ↦
    (paxRecordsFrom n rest).map (record :: ·)

/-- A PAX extended header's records, no more of them than it has bytes. -/
def paxRecords (data : Bytes) : Option (List (Bytes × Bytes)) := paxRecordsFrom data.length data

def plainSizeField (field : Bytes) : Bool :=
  (field[0]? = some 0x80 ∧ (field.take 4).drop 1 = [0, 0, 0]) ∨
    field.all fun b ↦ (0x30 ≤ b ∧ b ≤ 0x37) ∨ b = 0x20 ∨ b = 0

end Records

structure Walk where
  files : List ImportedFile
  links : List Link
  totalUncompressed : ℕ
  entryCount : ℕ
  seen : List (List Char)
  nextPath : Option (List Char)
  nextLink : Option (List Char)
  paxPending : Bool

def Walk.empty : Walk := ⟨[], [], 0, 0, [], none, none, false⟩

def setPath (w : Walk) (text : List Char) : Except Refusal Walk :=
  if w.nextPath.isSome then .error .twoNames else .ok { w with nextPath := some text }

def setLink (w : Walk) (text : List Char) : Except Refusal Walk :=
  if w.nextLink.isSome then .error .twoNames else .ok { w with nextLink := some text }

def checkExpansion (uncompressed compressed : ℕ) : Except Refusal Unit :=
  if Limits.uncompressedBytes < uncompressed then .error .totalTooLarge
  else if 0 < compressed ∧ Limits.expansionRatio < uncompressed / max compressed 1 then
    .error .expandsTooMuch
  else .ok ()

section Steps

def readRecord (isGlobal : Bool) (w : Walk) (record : Bytes × Bytes) : Except Refusal Walk :=
  let key := lossy record.1
  if key = "size".toList ∨ "GNU.sparse".toList.isPrefixOf key then .error (.unneededPaxRecord key)
  else if key = "path".toList ∨ key = "linkpath".toList then
    if isGlobal then .error (.globalPaxRecord key)
    else if 0 ∈ record.2 then .error (.nulInPaxRecord key)
    else if key = "path".toList then setPath w (lossy record.2)
    else setLink w (lossy record.2)
  else .ok w

def longName (data : Bytes) : List Char := lossy (data.takeWhile (· ≠ 0))

def readExtension (w : Walk) (e : RawEntry) : Except Refusal Walk :=
  match e.data.map (·.take (Limits.extensionBytes + 1)) with
  | none => .error .unreadableExtension
  | some data =>
    if ¬ e.type.pax then
      if e.type = .gnuLongName then setPath w (longName data) else setLink w (longName data)
    else if e.type = .xHeader ∧ w.paxPending then .error .twoPaxHeaders
    else
      match paxRecords data with
      | none => .error .malformedPaxRecord
      | some records => records.foldlM (readRecord (e.type = .xGlobalHeader))
          { w with paxPending := w.paxPending || e.type = .xHeader }

def checkHeader (compressed : ℕ) (w : Walk) (e : RawEntry) : Except Refusal (Walk × ℕ) := do
  let entryCount := w.entryCount + if e.type.extension then 0 else 1
  ensure (entryCount ≤ Limits.entries) Refusal.tooManyEntries
  -- `ustar\0`, and a version that is not `00`
  ensure (¬ (e.magic = [0x75, 0x73, 0x74, 0x61, 0x72, 0] ∧ e.version ≠ [0x30, 0x30]))
    Refusal.unknownUstarVersion
  ensure (plainSizeField e.sizeField = true) Refusal.unplainSize
  let size ← e.size.elim (.error Refusal.unreadableSize) .ok
  ensure (¬ (e.type.extension = true ∧ Limits.extensionBytes < size)) Refusal.extensionTooLarge
  ensure (¬ (e.type = .regular ∧ Limits.entryBytes < size))
    (Refusal.entryTooLarge ((w.nextPath.or (e.path.map lossy)).getD []))
  let totalUncompressed := (w.totalUncompressed + size) % 2 ^ 64
  checkExpansion totalUncompressed compressed
  .ok ({ w with entryCount, totalUncompressed }, size)

variable (digest : Bytes → String)

def hashed (path : List Char) (role : InputRole) (name : List Char) (bytes : Bytes) :
    ImportedFile where
  path := path
  role := role
  name := name
  sha256 := digest bytes
  bytes := bytes.length
  content := if keepsContent role then some bytes else none
  objectKey := if storesObject role then some ("inputs/" ++ digest bytes) else none
  stored := if storesObject role then some bytes else none

def unsafePath (path : List Char) : Bool := path.head? = some '/' ∨ ['.', '.'] ∈ path.splitOn '/'

def linkTarget (longLink : Option (List Char)) (e : RawEntry) : List Char :=
  (longLink.or (e.linkName.map lossy)).getD []

def readLink (w : Walk) (e : RawEntry) (path : List Char) (longLink : Option (List Char)) :
    Except Refusal Walk :=
  match classify path with
  | none => .ok w
  | some (mapped, role, name) =>
    match resolveLink path (linkTarget longLink e) with
    | none => .error (.unresolvableLink path (linkTarget longLink e))
    | some resolved =>
      if mapped ∈ w.seen then .error (.twice path)
      else .ok { w with
        seen := mapped :: w.seen
        links := w.links ++ [⟨mapped, role, name, linkTarget longLink e, resolved⟩] }

def readFile (w : Walk) (e : RawEntry) (size : ℕ) (path : List Char) : Except Refusal Walk :=
  if Limits.entryBytes < size then .error (.entryTooLarge path)
  else match classify path with
    | none => .ok w
    | some (mapped, role, name) =>
      if mapped ∈ w.seen then .error (.twice path)
      else if keepsContent role ∧ Limits.contentBytes < size then
        .error (.contentTooLarge path role)
      else match e.data.map (·.take (Limits.entryBytes + 1)) with
        | none => .error (.unreadableFile path)
        | some bytes =>
          if bytes.length ≠ size then .error (.notItsSize path)
          else .ok { w with
            seen := mapped :: w.seen
            files := w.files ++ [hashed digest mapped role name bytes] }

def readEntry (w : Walk) (e : RawEntry) (size : ℕ) : Except Refusal Walk :=
  let taken := { w with nextPath := none, nextLink := none, paxPending := false }
  if (e.type = .directory ∨ e.type = .symlink) ∧ size ≠ 0 then .error .dataAfterLink
  else if e.type = .directory then .ok taken
  else if e.type ≠ .regular ∧ e.type ≠ .symlink then .error (.nonRegular e.type)
  else match w.nextPath.or (e.path.map lossy) with
    | none => .error .unreadablePath
    | some path =>
      if unsafePath path then .error (.unsafePath path)
      else if path.getLast? = some '/' then .error (.namedAsDirectory path)
      else if e.type = .symlink then readLink taken e (normalise path) w.nextLink
      else readFile digest taken e size (normalise path)

def step (compressed : ℕ) (w : Walk) : Option RawEntry → Except Refusal Walk
  | none => .error .malformedEntry
  | some e => do
    let (w, size) ← checkHeader compressed w e
    if e.type.extension then readExtension w e else readEntry digest w e size

/-- A chain of aliases is followed a few hops, never round a cycle. -/
def aliased (files : List ImportedFile) (links : List Link) (role : InputRole) :
    ℕ → List Char → Option ImportedFile
  | 0, _ => none
  | n + 1, target =>
    match classify target with
    | none => none
    | some (mapped, targetRole, _) =>
      if targetRole ≠ role then none
      else match files.find? (·.path = mapped) with
        | some file => some file
        | none =>
          match links.find? (·.path = mapped) with
          | some link => aliased files links role n link.target
          | none => none

def addAlias (compressed : ℕ) (links : List Link) (files : List ImportedFile × ℕ) (link : Link) :
    Except Refusal (List ImportedFile × ℕ) :=
  match aliased files.1 links link.role 8 link.target with
  | none => .error (.unresolvableLink ("data/".toList ++ link.path) link.written)
  | some file => do
    let totalUncompressed := if keepsContent link.role then files.2 + file.bytes else files.2
    (if keepsContent link.role then checkExpansion totalUncompressed compressed else .ok ())
    .ok (files.1 ++ [{ file with
      path := link.path, role := link.role, name := link.name, stored := none }], totalUncompressed)

/-- `walk_archive`, of an archive of `compressed` bytes that the reader delivers as `entries`. -/
def walkArchive (compressed : ℕ) (entries : List (Option RawEntry)) :
    Except Refusal (List ImportedFile) := do
  let w ← entries.foldlM (step digest compressed) Walk.empty
  let (files, _) ← w.links.foldlM (addAlias compressed w.links) (w.files, w.totalUncompressed)
  ensure (files ≠ []) Refusal.nothingRecognisable
  .ok files

end Steps

structure Named where
  extensions : List RawEntry
  entry : RawEntry

section Names

def namedFrom : List RawEntry → List RawEntry → List Named
  | _, [] => []
  | exts, e :: es =>
    if e.type.extension then namedFrom (exts ++ [e]) es else ⟨exts, e⟩ :: namedFrom [] es

def named (raw : List RawEntry) : List Named := namedFrom [] raw

def extensionData (e : RawEntry) : Bytes := (e.data.getD []).take (Limits.extensionBytes + 1)

def recordValues (key : String) (records : List (Bytes × Bytes)) : List (List Char) :=
  records.filterMap fun record ↦ if lossy record.1 = key.toList then some (lossy record.2) else none

def givenPaths (e : RawEntry) : List (List Char) :=
  if e.type = .gnuLongName then [longName (extensionData e)]
  else if e.type = .xHeader then recordValues "path" ((paxRecords (extensionData e)).getD [])
  else []

def givenLinks (e : RawEntry) : List (List Char) :=
  if e.type = .gnuLongLink then [longName (extensionData e)]
  else if e.type = .xHeader then recordValues "linkpath" ((paxRecords (extensionData e)).getD [])
  else []

variable (g : Named)

def Named.effectivePath : Option (List Char) :=
  (g.extensions.flatMap givenPaths).head?.or (g.entry.path.map lossy)

def Named.effectiveLink : List Char := linkTarget (g.extensions.flatMap givenLinks).head? g.entry

def Named.pinned : Option (List Char × InputRole × List Char) :=
  if g.entry.type = .regular ∨ g.entry.type = .symlink then
    g.effectivePath.bind fun path ↦ classify (normalise path)
  else none

def Named.target : Option (List Char) :=
  g.effectivePath.bind fun path ↦ resolveLink (normalise path) g.effectiveLink

def entryData (e : RawEntry) : Bytes := (e.data.getD []).take (Limits.entryBytes + 1)

def Named.file (digest : Bytes → String) (g : Named) : Option ImportedFile :=
  if g.entry.type = .regular then
    g.pinned.map fun (path, role, name) ↦ hashed digest path role name (entryData g.entry)
  else none

def Named.link : Option Link :=
  if g.entry.type = .symlink then
    g.pinned.bind fun (path, role, name) ↦ g.target.map fun target ↦
      ⟨path, role, name, g.effectiveLink, target⟩
  else none

end Names

section Extensions

variable {w w' w'' : Walk} {paths paths' targets targets' : List (List Char)} {e : RawEntry}

structure Takes (w w' : Walk) (paths targets : List (List Char)) : Prop where
  files : w'.files = w.files
  links : w'.links = w.links
  seen : w'.seen = w.seen
  path : w'.nextPath.toList = w.nextPath.toList ++ paths
  link : w'.nextLink.toList = w.nextLink.toList ++ targets

theorem Takes.refl : Takes w w [] [] :=
  ⟨rfl, rfl, rfl, (List.append_nil _).symm, (List.append_nil _).symm⟩

theorem Takes.trans (h : Takes w w' paths targets) (h' : Takes w' w'' paths' targets') :
    Takes w w'' (paths ++ paths') (targets ++ targets') where
  files := h'.files.trans h.files
  links := h'.links.trans h.links
  seen := h'.seen.trans h.seen
  path := by rw [h'.path, h.path, List.append_assoc]
  link := by rw [h'.link, h.link, List.append_assoc]

theorem takes_of_setPath {text : List Char} (h : setPath w text = .ok w') :
    Takes w w' [text] [] := by
  rw [setPath] at h
  split at h
  · cases h
  · next hnone =>
    cases h
    rw [Option.not_isSome_iff_eq_none] at hnone
    exact ⟨rfl, rfl, rfl, by rw [hnone]; rfl, (List.append_nil _).symm⟩

theorem takes_of_setLink {text : List Char} (h : setLink w text = .ok w') :
    Takes w w' [] [text] := by
  rw [setLink] at h
  split at h
  · cases h
  · next hnone =>
    cases h
    rw [Option.not_isSome_iff_eq_none] at hnone
    exact ⟨rfl, rfl, rfl, (List.append_nil _).symm, by rw [hnone]; rfl⟩

theorem recordValues_cons (key : String) (record : Bytes × Bytes) (records : List (Bytes × Bytes)) :
    recordValues key (record :: records) =
      (if lossy record.1 = key.toList then [lossy record.2] else []) ++
      recordValues key records := by
  by_cases hkey : lossy record.1 = key.toList
  · simp only [recordValues, List.filterMap_cons, if_pos hkey, List.singleton_append]
  · simp only [recordValues, List.filterMap_cons, if_neg hkey, List.nil_append]

theorem takes_of_readRecord {isGlobal : Bool} {record : Bytes × Bytes}
    (h : readRecord isGlobal w record = .ok w') :
    Takes w w' (if lossy record.1 = "path".toList then [lossy record.2] else [])
      (if lossy record.1 = "linkpath".toList then [lossy record.2] else []) ∧
    (isGlobal = true → lossy record.1 ≠ "path".toList ∧ lossy record.1 ≠ "linkpath".toList) := by
  have hne : "path".toList ≠ "linkpath".toList := by decide
  simp only [readRecord] at h
  split at h
  · cases h
  split at h
  · next hkey =>
    split at h
    · cases h
    next hglobal =>
    split at h
    · cases h
    refine ⟨?_, fun hg ↦ absurd hg hglobal⟩
    split at h
    · next hpath =>
      rw [if_pos hpath, if_neg fun hlink ↦ hne (hpath.symm.trans hlink)]
      exact takes_of_setPath h
    · next hpath =>
      rw [if_neg hpath, if_pos (hkey.resolve_left hpath)]
      exact takes_of_setLink h
  · next hkey =>
    rw [not_or] at hkey
    cases h
    rw [if_neg hkey.1, if_neg hkey.2]
    exact ⟨.refl, fun _ ↦ hkey⟩

theorem takes_of_records {isGlobal : Bool} {records : List (Bytes × Bytes)}
    (h : records.foldlM (readRecord isGlobal) w = .ok w') :
    Takes w w' (recordValues "path" records) (recordValues "linkpath" records) ∧
      (isGlobal = true → recordValues "path" records = [] ∧
        recordValues "linkpath" records = []) := by
  induction records generalizing w with
  | nil =>
    cases h
    exact ⟨.refl, fun _ ↦ ⟨rfl, rfl⟩⟩
  | cons record records ih =>
    obtain ⟨w₁, hfirst, hrest⟩ := bind_eq_ok h
    obtain ⟨htakes, hglobal⟩ := takes_of_readRecord hfirst
    obtain ⟨htakes', hglobal'⟩ := ih hrest
    rw [recordValues_cons, recordValues_cons]
    refine ⟨htakes.trans htakes', fun hg ↦ ?_⟩
    rw [if_neg (hglobal hg).1, if_neg (hglobal hg).2, (hglobal' hg).1, (hglobal' hg).2]
    exact ⟨rfl, rfl⟩

theorem takes_of_readExtension (hext : e.type.extension = true) (h : readExtension w e = .ok w') :
    Takes w w' (givenPaths e) (givenLinks e) := by
  simp only [readExtension] at h
  split at h
  · cases h
  next data hdata =>
  obtain ⟨read, hread, rfl⟩ := Option.map_eq_some_iff.1 hdata
  have hdata : extensionData e = read.take (Limits.extensionBytes + 1) := by
    rw [extensionData, hread, Option.getD_some]
  rw [← hdata] at h
  split at h
  · next hpax =>
    split at h
    · next hname =>
      have htakes := takes_of_setPath h
      simpa [givenPaths, givenLinks, hname] using htakes
    · next hname =>
      have hlong : e.type = .gnuLongLink := by
        simp only [EntryType.extension, decide_eq_true_eq] at hext
        exact (hext.resolve_left hpax).resolve_left hname
      have htakes := takes_of_setLink h
      simpa [givenPaths, givenLinks, hlong] using htakes
  · next hpax =>
    split at h
    · cases h
    split at h
    · cases h
    next records hrecords =>
    obtain ⟨htakes, hglobal⟩ := takes_of_records h
    have hkeep : Takes w w' (recordValues "path" records) (recordValues "linkpath" records) :=
      ⟨htakes.files, htakes.links, htakes.seen, htakes.path, htakes.link⟩
    rw [not_not, EntryType.pax, decide_eq_true_eq] at hpax
    rcases hpax with hx | hg
    · simpa [givenPaths, givenLinks, hx, hrecords] using hkeep
    · rw [(hglobal (decide_eq_true hg)).1, (hglobal (decide_eq_true hg)).2] at hkeep
      simpa [givenPaths, givenLinks, hg] using hkeep

end Extensions

section Entries

variable {digest : Bytes → String} {compressed : ℕ} {w w' : Walk} {exts : List RawEntry}
  {e : RawEntry} {g : Named} {size : ℕ}

/-- The paths of the rows so far are each other's only ones, and all of them seen. -/
structure Tidy (files : List ImportedFile) (links : List Link) (seen : List (List Char)) :
    Prop where
  seen {path : List Char} : path ∈ files.map ImportedFile.path ++ links.map Link.path → path ∈ seen
  nodup : (files.map ImportedFile.path ++ links.map Link.path).Nodup

theorem Tidy.addFile {files : List ImportedFile} {links : List Link} {seen : List (List Char)}
    (h : Tidy files links seen) {file : ImportedFile} (hfile : file.path ∉ seen) :
    Tidy (files ++ [file]) links (file.path :: seen) := by
  have hperm : ((files ++ [file]).map ImportedFile.path ++ links.map Link.path).Perm
      (file.path :: (files.map ImportedFile.path ++ links.map Link.path)) := by
    rw [List.map_append, List.append_assoc]
    exact List.perm_middle
  constructor
  · intro path hpath
    rcases List.mem_cons.1 (hperm.mem_iff.1 hpath) with rfl | hpath
    · exact List.mem_cons_self
    · exact List.mem_cons_of_mem _ (h.seen hpath)
  · exact hperm.nodup_iff.2 (List.nodup_cons.2 ⟨fun hmem ↦ hfile (h.seen hmem), h.nodup⟩)

theorem Tidy.addLink {files : List ImportedFile} {links : List Link} {seen : List (List Char)}
    (h : Tidy files links seen) {link : Link} (hlink : link.path ∉ seen) :
    Tidy files (links ++ [link]) (link.path :: seen) := by
  have hperm : (files.map ImportedFile.path ++ (links ++ [link]).map Link.path).Perm
      (link.path :: (files.map ImportedFile.path ++ links.map Link.path)) := by
    rw [List.map_append, ← List.append_assoc]
    exact List.perm_append_singleton ..
  constructor
  · intro path hpath
    rcases List.mem_cons.1 (hperm.mem_iff.1 hpath) with rfl | hpath
    · exact List.mem_cons_self
    · exact List.mem_cons_of_mem _ (h.seen hpath)
  · exact hperm.nodup_iff.2 (List.nodup_cons.2 ⟨fun hmem ↦ hlink (h.seen hmem), h.nodup⟩)

structure Stands (exts : List RawEntry) (w : Walk) : Prop where
  path : exts.flatMap givenPaths = w.nextPath.toList
  link : exts.flatMap givenLinks = w.nextLink.toList

theorem Stands.effectivePath (h : Stands exts w) :
    Named.effectivePath ⟨exts, e⟩ = w.nextPath.or (e.path.map lossy) := by
  rw [Named.effectivePath, h.path, Option.head?_toList]

theorem Stands.effectiveLink (h : Stands exts w) :
    Named.effectiveLink ⟨exts, e⟩ = linkTarget w.nextLink e := by
  rw [Named.effectiveLink, h.link, Option.head?_toList]

structure Accepted (g : Named) : Prop where
  onePath : (g.extensions.flatMap givenPaths).length ≤ 1
  oneLink : (g.extensions.flatMap givenLinks).length ≤ 1
  safe : g.entry.type = .regular ∨ g.entry.type = .symlink →
    ∃ path, g.effectivePath = some path ∧ unsafePath path = false
  resolved : g.entry.type = .symlink → g.pinned.isSome → g.link.isSome

structure Adds (digest : Bytes → String) (g : Named) (w w' : Walk) : Prop where
  files : w'.files = w.files ++ (g.file digest).toList
  links : w'.links = w.links ++ g.link.toList
  tidy : Tidy w.files w.links w.seen → Tidy w'.files w'.links w'.seen

theorem Adds.none (hpinned : g.pinned = Option.none) (hfiles : w'.files = w.files)
    (hlinks : w'.links = w.links) (hseen : w'.seen = w.seen) : Adds digest g w w' := by
  have hfile : g.file digest = Option.none := by
    rw [Named.file, hpinned]
    exact ite_self _
  have hlink : g.link = Option.none := by
    rw [Named.link, hpinned]
    exact ite_self _
  refine ⟨?_, ?_, ?_⟩
  · rw [hfile, hfiles, Option.toList_none, List.append_nil]
  · rw [hlink, hlinks, Option.toList_none, List.append_nil]
  · rw [hfiles, hlinks, hseen]
    exact id

theorem adds_of_readFile {path : List Char} (hw : Stands [] w) (htype : g.entry.type = .regular)
    (hpath : g.effectivePath = some path)
    (h : readFile digest w g.entry size (normalise path) = .ok w') :
    Stands [] w' ∧ Adds digest g w w' := by
  have hpinned : g.pinned = classify (normalise path) := by
    rw [Named.pinned, if_pos (.inl htype), hpath, Option.bind_some]
  simp only [readFile] at h
  split at h
  · cases h
  split at h
  · next hnone =>
    cases h
    exact ⟨hw, .none (hpinned.trans hnone) rfl rfl rfl⟩
  next mapped role name hclassify =>
  split at h
  · cases h
  next hseen =>
  split at h
  · cases h
  split at h
  · cases h
  next bytes hbytes =>
  split at h
  · cases h
  cases h
  have hdata : entryData g.entry = bytes := by
    obtain ⟨read, hread, rfl⟩ := Option.map_eq_some_iff.1 hbytes
    rw [entryData, hread, Option.getD_some]
  have hfile : g.file digest = some (hashed digest mapped role name bytes) := by
    rw [Named.file, if_pos htype, hpinned, hclassify, Option.map_some, hdata]
  have hlink : g.link = none := by
    rw [Named.link, htype]
    rfl
  rw [hashed] at hfile
  refine ⟨⟨hw.path, hw.link⟩, ?_, ?_, fun ht ↦ ht.addFile hseen⟩
  · rw [hfile]
    rfl
  · rw [hlink, Option.toList_none, List.append_nil]

theorem adds_of_readLink {path : List Char} {longLink : Option (List Char)} (hw : Stands [] w)
    (htype : g.entry.type = .symlink) (hpath : g.effectivePath = some path)
    (hlong : g.effectiveLink = linkTarget longLink g.entry)
    (h : readLink w g.entry (normalise path) longLink = .ok w') :
    Stands [] w' ∧ Adds digest g w w' ∧ (g.pinned.isSome → g.link.isSome) := by
  have hpinned : g.pinned = classify (normalise path) := by
    rw [Named.pinned, if_pos (.inr htype), hpath, Option.bind_some]
  simp only [readLink, ← hlong] at h
  split at h
  · next hnone =>
    cases h
    refine ⟨hw, .none (hpinned.trans hnone) rfl rfl rfl, fun hsome ↦ ?_⟩
    rw [hpinned, hnone] at hsome
    cases hsome
  next mapped role name hclassify =>
  split at h
  · cases h
  next target htarget =>
  split at h
  · cases h
  next hseen =>
  cases h
  have hfile : g.file digest = none := by
    rw [Named.file, htype]
    rfl
  have hlink : g.link = some ⟨mapped, role, name, g.effectiveLink, target⟩ := by
    rw [Named.link, if_pos htype, hpinned, hclassify, Option.bind_some, Named.target, hpath,
      Option.bind_some, htarget]
    rfl
  refine ⟨⟨hw.path, hw.link⟩, ⟨?_, ?_, fun ht ↦ ht.addLink hseen⟩, fun _ ↦ by rw [hlink]; rfl⟩
  · rw [hfile, Option.toList_none, List.append_nil]
  · rw [hlink]
    rfl

theorem length_toList_le {α : Type} (o : Option α) : o.toList.length ≤ 1 := by
  cases o <;> simp

theorem of_readEntry (hstands : Stands exts w) (h : readEntry digest w e size = .ok w') :
    Stands [] w' ∧ Adds digest ⟨exts, e⟩ w w' ∧ Accepted ⟨exts, e⟩ := by
  have hone : (exts.flatMap givenPaths).length ≤ 1 := hstands.path ▸ length_toList_le _
  have hone' : (exts.flatMap givenLinks).length ≤ 1 := hstands.link ▸ length_toList_le _
  simp only [readEntry] at h
  split at h
  · cases h
  split at h
  · next hdir =>
    cases h
    refine ⟨⟨rfl, rfl⟩, .none ?_ rfl rfl rfl, ⟨hone, hone', ?_, ?_⟩⟩
    · rw [Named.pinned, hdir]
      rfl
    · rw [hdir]
      exact fun h ↦ h.elim nofun nofun
    · rw [hdir]
      exact nofun
  split at h
  · cases h
  next hkind =>
  split at h
  · cases h
  next path hpath =>
  split at h
  · cases h
  next hsafe =>
  split at h
  · cases h
  have heffective : Named.effectivePath ⟨exts, e⟩ = some path := hstands.effectivePath.trans hpath
  have hnot : unsafePath path = false := eq_false_of_ne_true hsafe
  have htaken : Stands [] { w with nextPath := none, nextLink := none, paxPending := false } :=
    ⟨rfl, rfl⟩
  split at h
  · next hsymlink =>
    obtain ⟨hnext, hadds, hresolved⟩ := adds_of_readLink (g := ⟨exts, e⟩) htaken hsymlink heffective
      hstands.effectiveLink h
    exact ⟨hnext, ⟨hadds.files, hadds.links, hadds.tidy⟩,
      ⟨hone, hone', fun _ ↦ ⟨path, heffective, hnot⟩, fun _ ↦ hresolved⟩⟩
  · next hsymlink =>
    have hregular : e.type = .regular := not_not.1 fun hne ↦ hkind ⟨hne, hsymlink⟩
    obtain ⟨hnext, hadds⟩ := adds_of_readFile (g := ⟨exts, e⟩) htaken hregular heffective h
    exact ⟨hnext, ⟨hadds.files, hadds.links, hadds.tidy⟩,
      ⟨hone, hone', fun _ ↦ ⟨path, heffective, hnot⟩, fun hlink ↦ absurd hlink hsymlink⟩⟩

theorem of_checkHeader {w₁ : Walk} (h : checkHeader compressed w e = .ok (w₁, size)) :
    ∃ entryCount totalUncompressed, w₁ = { w with entryCount, totalUncompressed } := by
  obtain ⟨-, -, h⟩ := bind_eq_ok h
  obtain ⟨-, -, h⟩ := bind_eq_ok h
  obtain ⟨-, -, h⟩ := bind_eq_ok h
  obtain ⟨size', -, h⟩ := bind_eq_ok h
  obtain ⟨-, -, h⟩ := bind_eq_ok h
  obtain ⟨-, -, h⟩ := bind_eq_ok h
  obtain ⟨-, -, h⟩ := bind_eq_ok h
  cases h
  exact ⟨_, _, rfl⟩

structure Walked (digest : Bytes → String) (gs : List Named) (w w' : Walk) : Prop where
  files : w'.files = w.files ++ gs.filterMap (Named.file digest)
  links : w'.links = w.links ++ gs.filterMap Named.link
  tidy : Tidy w.files w.links w.seen → Tidy w'.files w'.links w'.seen
  accepted {g : Named} : g ∈ gs → Accepted g

theorem walked_of_run {entries : List (Option RawEntry)} (hstands : Stands exts w)
    (h : entries.foldlM (step digest compressed) w = .ok w') :
    ∃ raw, entries = raw.map some ∧ Walked digest (namedFrom exts raw) w w' := by
  induction entries generalizing w exts with
  | nil =>
    cases h
    exact ⟨[], rfl, (List.append_nil _).symm, (List.append_nil _).symm, id, nofun⟩
  | cons entry entries ih =>
    obtain ⟨w₂, hstep, hrest⟩ := bind_eq_ok h
    cases entry with
    | none => cases hstep
    | some e =>
      obtain ⟨⟨w₁, size⟩, hheader, hread⟩ := bind_eq_ok hstep
      obtain ⟨entryCount, totalUncompressed, rfl⟩ := of_checkHeader hheader
      dsimp only at hread
      split at hread
      · next hext =>
        have htakes := takes_of_readExtension hext hread
        have hnext : Stands (exts ++ [e]) w₂ := by
          constructor
          · rw [List.flatMap_append, hstands.path, htakes.path, List.flatMap_singleton]
          · rw [List.flatMap_append, hstands.link, htakes.link, List.flatMap_singleton]
        obtain ⟨raw, rfl, hwalked⟩ := ih hnext hrest
        refine ⟨e :: raw, rfl, ?_⟩
        rw [namedFrom, if_pos hext]
        refine ⟨hwalked.files.trans (by rw [htakes.files]),
          hwalked.links.trans (by rw [htakes.links]), fun ht ↦ hwalked.tidy ?_, hwalked.accepted⟩
        rw [htakes.files, htakes.links, htakes.seen]
        exact ht
      · next hext =>
        have hstands₁ : Stands exts { w with entryCount, totalUncompressed } :=
          ⟨hstands.path, hstands.link⟩
        obtain ⟨hnext, hadds, haccepted⟩ := of_readEntry hstands₁ hread
        obtain ⟨raw, rfl, hwalked⟩ := ih hnext hrest
        refine ⟨e :: raw, rfl, ?_⟩
        rw [namedFrom, if_neg hext]
        refine ⟨?_, ?_, fun ht ↦ hwalked.tidy (hadds.tidy ht), fun hg ↦ ?_⟩
        · rw [hwalked.files, hadds.files, List.append_assoc, List.filterMap_cons]
          cases Named.file digest ⟨exts, e⟩ <;> rfl
        · rw [hwalked.links, hadds.links, List.append_assoc, List.filterMap_cons]
          cases Named.link ⟨exts, e⟩ <;> rfl
        · rcases List.mem_cons.1 hg with rfl | hg
          · exact haccepted
          · exact hwalked.accepted hg

end Entries

section Chains

variable (digest : Bytes → String) (raw : List RawEntry)

def Named.pinnedPath (g : Named) : Option (List Char) := g.pinned.map (·.1)

/-- The pinned path that a symlink points at. There is `none` where it points out of `data/`, at no
pinned path, or at one of another role. -/
def Named.leadsTo (g : Named) : Option (List Char) :=
  g.pinned.bind fun (_, role, _) ↦ g.target.bind fun target ↦ (classify target).bind
    fun (mapped, targetRole, _) ↦ if targetRole = role then some mapped else none

/-- Following link targets inside the archive, a symlink reaches a pinned regular file. -/
inductive Reaches : Named → ImportedFile → Prop
  | file {g g' : Named} {mapped : List Char} {file : ImportedFile} (ht : g.leadsTo = some mapped)
      (hg : g' ∈ named raw) (hfile : g'.file digest = some file)
      (hpath : g'.pinnedPath = some mapped) : Reaches g file
  | link {g g' : Named} {mapped : List Char} {file : ImportedFile} (ht : g.leadsTo = some mapped)
      (hg : g' ∈ named raw) (hlink : g'.entry.type = .symlink) (hpath : g'.pinnedPath = some mapped)
      (hreach : Reaches g' file) : Reaches g file

/-- The row of a symlink: that of the file of its role that it reaches, under its own name. -/
def IsAlias (g : Named) (row : ImportedFile) : Prop :=
  ∃ path role name file, g.pinned = some (path, role, name) ∧ Reaches digest raw g file ∧
    file.role = role ∧ row = { file with path, role, name, stored := none }

def Hop (g g' : Named) : Prop :=
  g' ∈ named raw ∧ g'.entry.type = .symlink ∧
    ∃ mapped, g.leadsTo = some mapped ∧ g'.pinnedPath = some mapped

inductive Broken : Named → Prop
  | leaves {g : Named} (h : g.target = none) : Broken g
  | dangling {g : Named} {target : List Char} (h : g.target = some target)
      (hnone : ∀ g' ∈ named raw, ∀ path, g'.pinnedPath = some path →
        (classify target).map (·.1) ≠ some path) : Broken g
  | changesRole {g : Named} {target path mapped name name' : List Char} {role role' : InputRole}
      (hpinned : g.pinned = some (path, role, name)) (h : g.target = some target)
      (hclassify : classify target = some (mapped, role', name')) (hne : role' ≠ role) : Broken g
  | cyclic {g : Named} (h : Relation.TransGen (Hop raw) g g) : Broken g
  | hop {g g' : Named} (h : Hop raw g g') (hbroken : Broken g') : Broken g

variable {digest raw} {g g' : Named} {file : ImportedFile} {mapped : List Char}

theorem leadsTo_eq_some (h : g.leadsTo = some mapped) : ∃ path role name target name',
    g.pinned = some (path, role, name) ∧ g.target = some target ∧
    classify target = some (mapped, role, name') := by
  simp only [Named.leadsTo, Option.bind_eq_some_iff, Option.ite_none_right_eq_some,
    Option.some.injEq] at h
  obtain ⟨⟨path, role, name⟩, hpinned, target, htarget, ⟨mapped', role', name'⟩, hclassify,
      rfl, rfl⟩ := h
  exact ⟨path, role', name, target, name', hpinned, htarget, hclassify⟩

theorem of_file (h : g.file digest = some file) : g.entry.type = .regular ∧
    ∃ path role name, g.pinned = some (path, role, name) ∧
      file = hashed digest path role name (entryData g.entry) := by
  obtain ⟨htype, h⟩ := Option.ite_none_right_eq_some.1 h
  obtain ⟨⟨path, role, name⟩, hpinned, rfl⟩ := Option.map_eq_some_iff.1 h
  exact ⟨htype, path, role, name, hpinned, rfl⟩

theorem of_link {link : Link} (h : g.link = some link) : g.entry.type = .symlink ∧
    g.pinned = some (link.path, link.role, link.name) ∧ g.target = some link.target := by
  obtain ⟨htype, h⟩ := Option.ite_none_right_eq_some.1 h
  obtain ⟨⟨path, role, name⟩, hpinned, h⟩ := Option.bind_eq_some_iff.1 h
  obtain ⟨target, htarget, rfl⟩ := Option.map_eq_some_iff.1 h
  exact ⟨htype, hpinned, htarget⟩

theorem classify_of_pinned {path name : List Char} {role : InputRole}
    (h : g.pinned = some (path, role, name)) :
    ∃ entryPath, classify entryPath = some (path, role, name) := by
  obtain ⟨-, h⟩ := Option.ite_none_right_eq_some.1 h
  obtain ⟨effective, -, h⟩ := Option.bind_eq_some_iff.1 h
  exact ⟨_, h⟩

theorem role_of_leadsTo {path path' name name' : List Char} {role role' : InputRole}
    (ht : g.leadsTo = some mapped) (hpinned : g.pinned = some (path, role, name))
    (hpath : g'.pinned = some (path', role', name')) (hmapped : path' = mapped) : role' = role := by
  obtain ⟨_, _, _, target, _, hpinned', -, hclassify⟩ := leadsTo_eq_some ht
  rw [hpinned, Option.some.injEq, Prod.mk.injEq, Prod.mk.injEq] at hpinned'
  obtain ⟨entryPath, hclassify'⟩ := classify_of_pinned hpath
  rw [hpinned'.2.1]
  exact role_of_classify (hmapped ▸ hclassify) (hclassify')

theorem Reaches.role (h : Reaches digest raw g file) {path name : List Char} {role : InputRole}
    (hpinned : g.pinned = some (path, role, name)) : file.role = role := by
  induction h generalizing path name role with
  | file ht _ hfile hpath =>
    obtain ⟨-, path', role', name', hpinned', rfl⟩ := of_file hfile
    rw [Named.pinnedPath, hpinned', Option.map_some, Option.some.injEq] at hpath
    exact role_of_leadsTo ht hpinned hpinned' hpath
  | link ht _ _ hpath _ ih =>
    obtain ⟨⟨path', role', name'⟩, hpinned', hmapped⟩ := Option.map_eq_some_iff.1 hpath
    exact (ih hpinned').trans (role_of_leadsTo ht hpinned hpinned' hmapped)

theorem Reaches.not_broken (h : Reaches digest raw g file)
    (hunique : ∀ g₁ ∈ named raw, ∀ g₂ ∈ named raw, ∀ path, g₁.pinnedPath = some path →
      g₂.pinnedPath = some path → g₁ = g₂) : ¬ Broken raw g := by
  have hends {g g' : Named} {mapped : List Char} (ht : g.leadsTo = some mapped)
      (hg : g' ∈ named raw)
      (hpath : g'.pinnedPath = some mapped) (hnext : ∀ g₂, Hop raw g g₂ → g₂ = g' →
        ¬ Broken raw g') :
      ¬ Broken raw g := by
    obtain ⟨path, role, name, target, name', hpinned, htarget, hclassify⟩ := leadsTo_eq_some ht
    have hnext' {g₂ : Named} (hop : Hop raw g g₂) : g₂ = g' := by
      obtain ⟨hg₂, -, mapped₂, ht₂, hpath₂⟩ := hop
      cases ht.symm.trans ht₂
      exact hunique _ hg₂ _ hg _ hpath₂ hpath
    intro hbroken
    cases hbroken with
    | leaves hnone => cases htarget.symm.trans hnone
    | dangling htarget' hnone =>
      cases htarget.symm.trans htarget'
      exact hnone g' hg mapped hpath (by rw [hclassify]; rfl)
    | changesRole hpinned' htarget' hclassify' hne =>
      cases htarget.symm.trans htarget'
      cases hpinned.symm.trans hpinned'
      cases hclassify.symm.trans hclassify'
      exact hne rfl
    | cyclic hcycle =>
      obtain ⟨g₂, hop, hback⟩ := Relation.TransGen.head'_iff.1 hcycle
      obtain rfl := hnext' hop
      exact hnext _ hop rfl (.cyclic (.trans_right hback (.single hop)))
    | hop hop hbroken =>
      obtain rfl := hnext' hop
      exact hnext _ hop rfl hbroken
  induction h with
  | file ht hg hfile hpath =>
    refine hends ht hg hpath fun g₂ hop he ↦ ?_
    have hregular := (of_file hfile).1
    rw [← he, hop.2.1] at hregular
    cases hregular
  | link ht hg _ hpath _ ih => exact hends ht hg hpath fun _ _ _ ↦ ih

end Chains

section Aliases

variable {digest : Bytes → String} {raw : List RawEntry} {compressed : ℕ} {g : Named}
  {file row : ImportedFile} {files files' : List ImportedFile} {links : List Link}

def IsRow (digest : Bytes → String) (raw : List RawEntry) (row : ImportedFile) : Prop :=
  ∃ g ∈ named raw, g.file digest = some row ∨ g.entry.type = .symlink ∧ IsAlias digest raw g row

structure SameBytes (row file : ImportedFile) : Prop where
  sha256 : row.sha256 = file.sha256
  bytes : row.bytes = file.bytes
  content : row.content = file.content
  objectKey : row.objectKey = file.objectKey

theorem reaches_of_row (hrow : IsRow digest raw row) (ht : g.leadsTo = some row.path) :
    ∃ file, Reaches digest raw g file ∧ SameBytes row file := by
  obtain ⟨g', hg', hfile | ⟨hlink, path, role, name, file, hpinned, hreach, -, rfl⟩⟩ := hrow
  · obtain ⟨-, path, role, name, hpinned, rfl⟩ := of_file hfile
    refine ⟨_, .file ht hg' hfile ?_, rfl, rfl, rfl, rfl⟩
    rw [Named.pinnedPath, hpinned, hashed, Option.map_some]
  · refine ⟨file, .link ht hg' hlink ?_ hreach, rfl, rfl, rfl, rfl⟩
    rw [Named.pinnedPath, hpinned, Option.map_some]

theorem reaches_of_aliased {n : ℕ} {path name target : List Char} {role : InputRole}
    (hrows : ∀ row ∈ files, IsRow digest raw row)
    (hlinks : ∀ link ∈ links, ∃ g ∈ named raw, g.link = some link)
    (hpinned : g.pinned = some (path, role, name)) (htarget : g.target = some target)
    (h : aliased files links role n target = some row) :
    ∃ file, Reaches digest raw g file ∧ SameBytes row file := by
  induction n generalizing g path name target with
  | zero => cases h
  | succ n ih =>
    rw [aliased] at h
    split at h
    · cases h
    next mapped targetRole name' hclassify =>
    split at h
    · cases h
    next hrole =>
    have ht : g.leadsTo = some mapped := by
      simp only [Named.leadsTo, hpinned, htarget, hclassify, Option.bind_some,
        if_pos (not_not.1 hrole)]
    split at h
    · next file hfind =>
      cases h
      have hpath : row.path = mapped := of_decide_eq_true (List.find?_some hfind :)
      exact reaches_of_row (hrows row (List.mem_of_find?_eq_some hfind)) (hpath ▸ ht)
    · split at h
      · next link hfind =>
        have hpath : link.path = mapped := of_decide_eq_true (List.find?_some hfind :)
        obtain ⟨g', hg', hlink⟩ := hlinks link (List.mem_of_find?_eq_some hfind)
        obtain ⟨htype, hpinned', htarget'⟩ := of_link hlink
        have hsame := role_of_leadsTo ht hpinned hpinned' hpath
        obtain ⟨file, hreach, hbytes⟩ := ih (hsame ▸ hpinned') htarget' h
        refine ⟨file, .link ht hg' htype ?_ hreach, hbytes⟩
        rw [Named.pinnedPath, hpinned', Option.map_some, hpath]
      · cases h

/-- The rows that the second pass adds, one for each link in order. -/
theorem aliases_of_run {todo : List Link} {total total' : ℕ}
    (hrows : ∀ row ∈ files, IsRow digest raw row)
    (hlinks : ∀ link ∈ links, ∃ g ∈ named raw, g.link = some link)
    (htodo : ∀ link ∈ todo, link ∈ links)
    (h : todo.foldlM (addAlias compressed links) (files, total) = .ok (files', total')) :
    ∃ aliases, files' = files ++ aliases ∧ List.Forall₂ (fun link row ↦
      (row.path, row.role, row.name) = (link.path, link.role, link.name) ∧
        ∀ g ∈ named raw, g.link = some link → IsAlias digest raw g row) todo aliases := by
  induction todo generalizing files total with
  | nil =>
    cases h
    exact ⟨[], (List.append_nil _).symm, .nil⟩
  | cons link todo ih =>
    obtain ⟨⟨files₁, total₁⟩, hstep, hrest⟩ := bind_eq_ok h
    rw [addAlias] at hstep
    split at hstep
    · cases hstep
    next found hfound =>
    obtain ⟨-, -, hstep⟩ := bind_eq_ok hstep
    cases hstep
    have halias (g : Named) (hlink : g.link = some link) : IsAlias digest raw g { found with
        path := link.path, role := link.role, name := link.name, stored := none } := by
      obtain ⟨-, hpinned, htarget⟩ := of_link hlink
      obtain ⟨file, hreach, hbytes⟩ := reaches_of_aliased hrows hlinks hpinned htarget hfound
      refine ⟨_, _, _, file, hpinned, hreach, hreach.role hpinned, ?_⟩
      rw [hbytes.sha256, hbytes.bytes, hbytes.content, hbytes.objectKey]
    obtain ⟨g, hg, hlink⟩ := hlinks link (htodo link List.mem_cons_self)
    have hrows₁ : ∀ row ∈ files ++ [{ found with
        path := link.path, role := link.role, name := link.name, stored := none }],
        IsRow digest raw row := by
      intro row hrow
      rcases List.mem_append.1 hrow with hrow | hrow
      · exact hrows row hrow
      · rw [List.mem_singleton.1 hrow]
        exact ⟨g, hg, .inr ⟨(of_link hlink).1, halias g hlink⟩⟩
    obtain ⟨aliases, rfl, haliases⟩ :=
      ih hrows₁ (fun link h ↦ htodo link (List.mem_cons_of_mem _ h)) hrest
    exact ⟨_ :: aliases, by rw [List.append_assoc, List.singleton_append],
      .cons ⟨rfl, fun g _ hlink ↦ halias g hlink⟩ haliases⟩

end Aliases

section Archive

variable {digest : Bytes → String} {compressed : ℕ} {entries : List (Option RawEntry)}
  {files : List ImportedFile}

def pinnedOf (type : EntryType) (raw : List RawEntry) : List (List Char × InputRole × List Char) :=
  (named raw).filterMap fun g ↦ if g.entry.type = type then g.pinned else none

structure Exact (digest : Bytes → String) (raw : List RawEntry) (files : List ImportedFile) :
    Prop where
  nodup : (files.map ImportedFile.path).Nodup
  rows : files.map (fun file ↦ (file.path, file.role, file.name)) =
    pinnedOf .regular raw ++ pinnedOf .symlink raw
  file {g : Named} {path name : List Char} {role : InputRole} : g ∈ named raw →
    g.entry.type = .regular → g.pinned = some (path, role, name) →
    hashed digest path role name (entryData g.entry) ∈ files
  symlink {g : Named} : g ∈ named raw → g.entry.type = .symlink → g.pinned.isSome →
    ∃ row ∈ files, IsAlias digest raw g row ∧ ¬ Broken raw g
  oneName {g : Named} : g ∈ named raw → (g.extensions.flatMap givenPaths).length ≤ 1 ∧
    (g.extensions.flatMap givenLinks).length ≤ 1
  safe {g : Named} : g ∈ named raw → g.entry.type = .regular ∨ g.entry.type = .symlink →
    ∃ path, g.effectivePath = some path ∧ path.head? ≠ some '/' ∧ ['.', '.'] ∉ path.splitOn '/'

theorem map_filterMap_file (gs : List Named) :
    (gs.filterMap (Named.file digest)).map (fun file ↦ (file.path, file.role, file.name)) =
      gs.filterMap fun g ↦ if g.entry.type = .regular then g.pinned else none := by
  rw [List.map_filterMap]
  refine List.filterMap_congr fun g _ ↦ ?_
  rw [Named.file]
  split
  · rw [Option.map_map]
    exact Option.map_id'
  · rfl

theorem map_filterMap_link {gs : List Named} (h : ∀ g ∈ gs, Accepted g) :
    (gs.filterMap Named.link).map (fun link ↦ (link.path, link.role, link.name)) =
      gs.filterMap fun g ↦ if g.entry.type = .symlink then g.pinned else none := by
  rw [List.map_filterMap]
  refine List.filterMap_congr fun g hg ↦ ?_
  split
  · next htype =>
    cases hpinned : g.pinned with
    | none => rw [Named.link, hpinned, if_pos htype]; rfl
    | some pinned =>
      obtain ⟨link, hlink⟩ :=
        Option.isSome_iff_exists.1 ((h g hg).resolved htype (by rw [hpinned]; rfl))
      rw [hlink, ← hpinned, (of_link hlink).2.1]
      rfl
  · next htype => rw [Named.link, if_neg htype]; rfl

theorem eq_of_nodup_filterMap {α β : Type} {f : α → Option β} {l : List α} {a b : α} {y : β}
    (h : (l.filterMap f).Nodup) (ha : a ∈ l) (hb : b ∈ l) (hfa : f a = some y)
    (hfb : f b = some y) :
    a = b := by
  induction l with
  | nil => cases ha
  | cons x l ih =>
    have hhead {c : α} (hx : f x = some y) (hc : c ∈ l) (hfc : f c = some y) : False := by
      rw [List.filterMap_cons_some hx] at h
      exact (List.nodup_cons.1 h).1 (List.mem_filterMap.2 ⟨c, hc, hfc⟩)
    have htail : (l.filterMap f).Nodup := by
      cases hx : f x with
      | none => rwa [List.filterMap_cons_none hx] at h
      | some z =>
        rw [List.filterMap_cons_some hx] at h
        exact (List.nodup_cons.1 h).2
    rcases List.mem_cons.1 ha with rfl | ha'
    · rcases List.mem_cons.1 hb with hb' | hb'
      · exact hb'.symm
      · exact (hhead hfa hb' hfb).elim
    · rcases List.mem_cons.1 hb with rfl | hb'
      · exact (hhead hfb ha' hfa).elim
      · exact ih htail ha' hb'

theorem exists_of_forall₂ {α β : Type} {R : α → β → Prop} {l : List α} {l' : List β} {a : α}
    (h : List.Forall₂ R l l') (ha : a ∈ l) : ∃ b ∈ l', R a b := by
  induction h with
  | nil => cases ha
  | @cons x y _ _ hxy _ ih =>
    rcases List.mem_cons.1 ha with rfl | ha
    · exact ⟨y, List.mem_cons_self, hxy⟩
    · obtain ⟨b, hb, hab⟩ := ih ha
      exact ⟨b, List.mem_cons_of_mem _ hb, hab⟩

/-- Two entries pinned under one path are one entry, where no path is a row's twice. -/
theorem eq_of_pinnedPath {raw : List RawEntry}
    (hnodup : ((pinnedOf .regular raw ++ pinnedOf .symlink raw).map (·.1)).Nodup) {g₁ g₂ : Named}
    (h₁ : g₁ ∈ named raw) (h₂ : g₂ ∈ named raw) {path : List Char}
    (hpath₁ : g₁.pinnedPath = some path) (hpath₂ : g₂.pinnedPath = some path) : g₁ = g₂ := by
  let f (type : EntryType) (g : Named) : Option (List Char) :=
    if g.entry.type = type then g.pinnedPath else none
  have hmap (type : EntryType) : (pinnedOf type raw).map (·.1) = (named raw).filterMap
      (f type) := by
    rw [pinnedOf, List.map_filterMap]
    refine List.filterMap_congr fun g _ ↦ ?_
    simp only [f]
    split <;> rfl
  have hkind {g : Named} (hpath : g.pinnedPath = some path) :
      f .regular g = some path ∨ f .symlink g = some path := by
    obtain ⟨pinned, hpinned, -⟩ := Option.map_eq_some_iff.1 hpath
    obtain ⟨htype, -⟩ := Option.ite_none_right_eq_some.1 hpinned
    exact htype.imp (fun h ↦ (if_pos h).trans hpath) fun h ↦ (if_pos h).trans hpath
  rw [List.map_append, hmap, hmap, List.nodup_append] at hnodup
  obtain ⟨hregular, hsymlink, hdisjoint⟩ := hnodup
  rcases hkind hpath₁ with hf₁ | hf₁ <;> rcases hkind hpath₂ with hf₂ | hf₂
  · exact eq_of_nodup_filterMap hregular h₁ h₂ hf₁ hf₂
  · exact absurd rfl (hdisjoint _ (List.mem_filterMap.2 ⟨_, h₁, hf₁⟩) _
      (List.mem_filterMap.2 ⟨_, h₂, hf₂⟩))
  · exact absurd rfl (hdisjoint _ (List.mem_filterMap.2 ⟨_, h₂, hf₂⟩) _
      (List.mem_filterMap.2 ⟨_, h₁, hf₁⟩))
  · exact eq_of_nodup_filterMap hsymlink h₁ h₂ hf₁ hf₂

/-- What the walk returns, where it accepts an archive. -/
theorem walkArchive_exact (h : walkArchive digest compressed entries = .ok files) :
    ∃ raw, entries = raw.map some ∧ Exact digest raw files := by
  obtain ⟨w, hrun, h⟩ := bind_eq_ok h
  obtain ⟨⟨files', total'⟩, haliases, h⟩ := bind_eq_ok h
  obtain ⟨-, -, h⟩ := bind_eq_ok h
  cases h
  have hstands : Stands [] Walk.empty := ⟨rfl, rfl⟩
  obtain ⟨raw, rfl, hwalked⟩ := walked_of_run hstands hrun
  refine ⟨raw, rfl, ?_⟩
  have hfiles : w.files = (named raw).filterMap (Named.file digest) := hwalked.files
  have hlinks : w.links = (named raw).filterMap Named.link := hwalked.links
  have htidy : Tidy w.files w.links w.seen := hwalked.tidy ⟨nofun, List.nodup_nil⟩
  have hrows : ∀ row ∈ w.files, IsRow digest raw row := by
    intro row hrow
    obtain ⟨g, hg, hfile⟩ := List.mem_filterMap.1 (hfiles ▸ hrow)
    exact ⟨g, hg, .inl hfile⟩
  have hnamed : ∀ link ∈ w.links, ∃ g ∈ named raw, g.link = some link :=
    fun link hlink ↦ List.mem_filterMap.1 (hlinks ▸ hlink)
  obtain ⟨aliases, rfl, hforall⟩ := aliases_of_run hrows hnamed (fun _ ↦ id) haliases
  have halias : aliases.map (fun row ↦ (row.path, row.role, row.name)) =
      w.links.map fun link ↦ (link.path, link.role, link.name) := by
    rw [← List.forall₂_eq_eq_eq, List.forall₂_map_left_iff, List.forall₂_map_right_iff]
    exact hforall.flip.imp fun _ _ h ↦ h.1
  have hrows_eq : (w.files ++ aliases).map (fun file ↦ (file.path, file.role, file.name)) =
      pinnedOf .regular raw ++ pinnedOf .symlink raw := by
    rw [List.map_append, halias, hfiles, hlinks, map_filterMap_file]
    exact congrArg _ (map_filterMap_link fun g ↦ hwalked.accepted)
  have hpaths : (w.files ++ aliases).map ImportedFile.path =
      w.files.map ImportedFile.path ++ w.links.map Link.path := by
    have hpath := congrArg (List.map (·.1)) halias
    rw [List.map_map, List.map_map] at hpath
    rw [List.map_append]
    exact congrArg (w.files.map ImportedFile.path ++ ·) hpath
  have hnodup : ((pinnedOf .regular raw ++ pinnedOf .symlink raw).map (·.1)).Nodup := by
    rw [← hrows_eq, List.map_map]
    exact hpaths ▸ htidy.nodup
  constructor
  · exact hpaths ▸ htidy.nodup
  · exact hrows_eq
  · intro g path name role hg htype hpinned
    rw [hfiles]
    refine List.mem_append_left _ (List.mem_filterMap.2 ⟨g, hg, ?_⟩)
    rw [Named.file, if_pos htype, hpinned, Option.map_some]
  · intro g hg htype hpinned
    obtain ⟨link, hlink⟩ :=
      Option.isSome_iff_exists.1 ((hwalked.accepted hg).resolved htype hpinned)
    have hmem : link ∈ w.links := hlinks ▸ List.mem_filterMap.2 ⟨g, hg, hlink⟩
    obtain ⟨row, hrow, -, hrow_alias⟩ := exists_of_forall₂ hforall hmem
    have hisAlias := hrow_alias g hg hlink
    refine ⟨row, List.mem_append_right _ hrow, hisAlias, ?_⟩
    obtain ⟨_, _, _, file, -, hreach, -⟩ := hisAlias
    exact hreach.not_broken fun g₁ h₁ g₂ h₂ _ hpath₁ hpath₂ ↦
      eq_of_pinnedPath hnodup h₁ h₂ hpath₁ hpath₂
  · exact fun hg ↦ ⟨(hwalked.accepted hg).onePath, (hwalked.accepted hg).oneLink⟩
  · intro g hg htype
    obtain ⟨path, hpath, hsafe⟩ := (hwalked.accepted hg).safe htype
    rw [unsafePath, decide_eq_false_iff_not, not_or] at hsafe
    exact ⟨path, hpath, hsafe⟩

def ascii (text : String) : Bytes := text.toList.map fun c ↦ UInt8.ofNat c.toNat

def rawEntry (type : EntryType) (path linkName data : String) : Option RawEntry :=
  some ⟨type, [0x75, 0x73, 0x74, 0x61, 0x72, 0], [0x30, 0x30], [0x30, 0x37],
    some data.toList.length, some (ascii path), some (ascii linkName), some (ascii data)⟩

def aliasedArchive : List (Option RawEntry) :=
  [rawEntry .directory "data/" "" "",
    rawEntry .xHeader "PaxHeader" "" "26 path=data/lexica/A.kwg\n",
    rawEntry .regular "data/lexica/Z.kwg" "" "abc",
    rawEntry .symlink "./data/lexica/B.kwg" "A.kwg" ""]

theorem exists_walkArchive_exact : ∃ files raw,
    walkArchive (fun bytes ↦ toString bytes.length) 1000 aliasedArchive = .ok files ∧
    files.map (fun file ↦ (file.path, file.sha256)) =
      [("lexica/A.kwg".toList, "3"), ("lexica/B.kwg".toList, "3")] ∧
    aliasedArchive = raw.map some ∧ Exact (fun bytes ↦ toString bytes.length) raw files := by
  have hwalk : (walkArchive (fun bytes ↦ toString bytes.length) 1000 aliasedArchive).toOption.map
      (·.map fun file ↦ (file.path, file.sha256)) =
        some [("lexica/A.kwg".toList, "3"), ("lexica/B.kwg".toList, "3")] := by decide +kernel
  cases h : walkArchive (fun bytes ↦ toString bytes.length) 1000 aliasedArchive with
  | error refusal =>
    rw [h] at hwalk
    cases hwalk
  | ok files =>
    rw [h] at hwalk
    obtain ⟨raw, hraw, hexact⟩ := walkArchive_exact h
    exact ⟨files, raw, rfl, Option.some.inj hwalk, hraw, hexact⟩

end Archive

end Birdtest.Inputdata
