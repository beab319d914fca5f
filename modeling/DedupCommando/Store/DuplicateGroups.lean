import DedupCommando.Store.Publication

/-!
# The groups of a manifest in memory

`duplicate_groups` of the store and `verify_groups` of the pipeline, which between them make the
groups that an explicit publication is given.

* `readEntry`, `pushEntry`, `duplicateGroups` — the manifest rows of every digest with two objects.
* `placeFile`, `verifyGroups` — the byte comparison that splits a group into populations.
-/

set_option autoImplicit false

namespace DedupCommando

open Sql (Value)

/-! ## Reading the groups -/

/-- A signed word of 64 bits read as an unsigned one. -/
def castU64 (n : Int) : Nat := (n % 2 ^ 64).toNat

/-- One row of the statement, with its digest in hexadecimal. -/
def readEntry (f : FileRow) : Except AppError (Bytes × FileEntry) :=
  match getText f.path with
  | .error e => .error ⟨e⟩
  | .ok path =>
    match getInteger f.size with
    | .error e => .error ⟨e⟩
    | .ok size =>
      match f.hash with
      | .blob digest =>
        match linkCountFromSql f.nlink with
        | .error e => .error e
        | .ok nlink =>
          .ok (Sql.hexText digest,
            { path := path
              size := castU64 size
              mtime := f.mtime
              mtimeNsec := f.mtimeNsec
              ctimeSec := f.ctimeSec
              ctimeNsec := f.ctimeNsec
              device := castU64 f.device
              inode := castU64 f.inode
              nlink := nlink.toU64 })
      | other => .error ⟨"Invalid column type " ++ other.typeof⟩

def readEntries : List FileRow → Except AppError (List (Bytes × FileEntry))
  | [] => .ok []
  | f :: fs =>
    match readEntry f with
    | .error e => .error e
    | .ok entry =>
      match readEntries fs with
      | .error e => .error e
      | .ok entries => .ok (entry :: entries)

/-- An entry joins the last group when it has its digest, and opens one otherwise. -/
def pushEntry (groups : List DuplicateGroup) (entry : Bytes × FileEntry) : List DuplicateGroup :=
  let opened : List DuplicateGroup := groups ++ [⟨groups.length, entry.2.size, entry.1, [entry.2]⟩]
  match groups.getLast? with
  | some g =>
    if g.hash = entry.1 then groups.dropLast ++ [{ g with files := g.files ++ [entry.2] }] else opened
  | none => opened

/-- The rows of every digest that at least two objects have. -/
def groupedRows (files : List FileRow) : List FileRow :=
  let digests := ((Grouping.groupByKey (fun o : ObjectRow => o.digest.key) (groupObjects files)).filter
    fun g => decide (2 ≤ g.2.length)).map Prod.fst
  Sql.orderBy (fun f : FileRow => toLex (f.hash.key, f.path.key))
    (files.filter fun f => decide (f.hash ≠ .null ∧ f.hash.key ∈ digests))

/-- `duplicate_groups` -/
def duplicateGroups (files : List FileRow) : Except AppError (List DuplicateGroup) :=
  match readEntries (groupedRows files) with
  | .error e => .error e
  | .ok entries => .ok (entries.foldl pushEntry [])

/-! ## Byte verification -/

section Verify

-- What comparing the bytes of two files answers.
variable (filesEqual : Bytes → Bytes → Except AppError Bool)

/-- A file joins the first population whose representative it equals, or begins its own. -/
def placeFile (file : FileEntry) : List (List FileEntry) → Except AppError (List (List FileEntry))
  | [] => .ok [[file]]
  | population :: populations =>
    match population with
    | [] => .ok [[file]]
    | representative :: rest =>
      match filesEqual representative.path file.path with
      | .error e => .error e
      | .ok true => .ok ((representative :: rest ++ [file]) :: populations)
      | .ok false =>
        match placeFile file populations with
        | .error e => .error e
        | .ok populations => .ok (population :: populations)

def placeFiles : List (List FileEntry) → List FileEntry → Except AppError (List (List FileEntry))
  | populations, [] => .ok populations
  | populations, file :: files =>
    match placeFile filesEqual file populations with
    | .error e => .error e
    | .ok populations => placeFiles populations files

/-- The populations of a group that are still groups. -/
def survivors (hash : Bytes) (populations : List (List FileEntry)) : List DuplicateGroup :=
  (populations.filter fun p => decide (2 ≤ p.length)).map fun p =>
    ⟨0, (p.head?.map FileEntry.size).getD 0, hash, p⟩

def verifyEach : List DuplicateGroup → Except AppError (List DuplicateGroup)
  | [] => .ok []
  | group :: groups =>
    match placeFiles filesEqual [] group.files with
    | .error e => .error e
    | .ok populations =>
      match verifyEach groups with
      | .error e => .error e
      | .ok verified => .ok (survivors group.hash populations ++ verified)

/-- `verify_groups` -/
def verifyGroups (groups : List DuplicateGroup) : Except AppError (List DuplicateGroup) :=
  match verifyEach filesEqual groups with
  | .error e => .error e
  | .ok verified => .ok (verified.mapIdx fun i g => { g with id := i })

end Verify

end DedupCommando
