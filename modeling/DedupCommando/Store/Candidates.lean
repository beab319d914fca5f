import DedupCommando.Actions.Batch
import DedupCommando.Lib.Chunks
import DedupCommando.Store.DigestGroups
import DedupCommando.Store.DuplicateGroups
import DedupCommando.Store.HashReuse

/-!
# Hashing candidates and their progress

What is still to be hashed of a scan, what its totals are, and the counters of the phase that reads
it (`state/store.rs`, `pipeline/mod.rs`).

* `objectSizes`, `eligibleSizes` — the sizes that two physical objects share.
* `candidateObjects` — one representative for each object without a digest.
* `candidateStats` — the four totals off one relation of objects.
* `hashBatch`, `hashPhase` — the loop over the chunks of candidates with its counters.
-/

set_option autoImplicit false

namespace DedupCommando

open Sql (Value)

/-- The rows of one scan. -/
def scanFiles (scanId : Int) (t : FileTable) : List FileRow :=
  (t.filter fun r => decide (r.1 = scanId)).map Prod.snd

/-- The size of an object, read off any of its rows. -/
def objectSize (files : List FileRow) : Value := cellOf FileRow.size files.head?

/-- The sizes of the objects of a manifest, one for each object. -/
def objectSizes (files : List FileRow) : List Value := (objectsOf files).map objectSize

/-- `eligible_sizes_sql`: `HAVING COUNT(*) >= 2` over the objects, not over their pathnames. -/
def eligibleSizes (files : List FileRow) : List Value :=
  ((Grouping.groupByKey Value.key (objectSizes files)).filter fun g => decide (2 ≤ g.2.length)).map
    fun g => g.2.headD .null

/-- `size IN (eligible)` -/
def eligible (files : List FileRow) (size : Value) : Bool :=
  (eligibleSizes files).any fun e => Value.same size e

/-! ## Candidates -/

/-- The columns of one group of rows, with the link count decoded. -/
def candidateRow (rows : List FileRow) : Except AppError ManifestRow :=
  match rows with
  | [] => .error ⟨"Query returned no rows"⟩
  | f :: _ =>
    match getText (Sql.minimum (rows.map FileRow.path)) with
    | .error e => .error ⟨e⟩
    | .ok path =>
      match getInteger f.size with
      | .error e => .error ⟨e⟩
      | .ok size =>
        match (ObjectRow.of rows).links (terminal (Bytes.display path)) with
        | .error e => .error e
        | .ok links =>
          .ok
            { path := path
              size := castU64 size
              mtime := f.mtime
              mtimeNsec := f.mtimeNsec
              ctimeSec := f.ctimeSec
              ctimeNsec := f.ctimeNsec
              device := castU64 f.device
              inode := castU64 f.inode
              nlink := links.toU64 }

def candidateRows : List (List FileRow) → Except AppError (List ManifestRow)
  | [] => .ok []
  | rows :: groups =>
    match candidateRow rows with
    | .error e => .error e
    | .ok row =>
      match candidateRows groups with
      | .error e => .error e
      | .ok files => .ok (row :: files)

/-- `candidate_objects` -/
def candidateObjects (scanId : Int) (t : FileTable) : Except AppError (List ManifestRow) :=
  let files := scanFiles scanId t
  candidateRows (objectsOf
    (files.filter fun f => decide (f.hash = .null) && eligible files f.size))

/-! ## Totals -/

structure CandidateStats where
  totalFiles : Nat
  totalBytes : Nat
  hashedFiles : Nat
  hashedBytes : Nat

/-- The pathnames of an object that hold a digest. -/
def hashedPaths (rows : List FileRow) : Nat := rows.countP fun f => decide (f.hash ≠ .null)

/-- `objects JOIN eligible` -/
def eligibleObjects (files : List FileRow) : List (List FileRow) :=
  (objectsOf files).flatMap fun o =>
    ((eligibleSizes files).filter fun e => Value.same e (objectSize o)).map fun _ => o

/-- `candidate_stats` -/
def candidateStats (scanId : Int) (t : FileTable) : Except String CandidateStats :=
  let objects := eligibleObjects (scanFiles scanId t)
  match Sql.sumInteger (objects.map fun o => .integer o.length) with
  | .error e => .error e
  | .ok totalFiles =>
    match Sql.sumInteger (objects.map objectSize) with
    | .error e => .error e
    | .ok totalBytes =>
      match Sql.sumInteger (objects.map fun o => .integer (hashedPaths o)) with
      | .error e => .error e
      | .ok hashedFiles =>
        match Sql.sumInteger
            (objects.map fun o => if 0 < hashedPaths o then objectSize o else .integer 0) with
        | .error e => .error e
        | .ok hashedBytes =>
          .ok ⟨castU64 totalFiles, castU64 totalBytes, castU64 hashedFiles, castU64 hashedBytes⟩

/-! ## The phase -/

/-- `HASH_CHUNK` -/
def hashChunk : Nat := 64

/-- What reading a candidate came to: the identity that the descriptor had, with the digest; a stop
    before the end; or a refusal. -/
inductive HashOutcome where
  | whole (digest : Bytes) (opened : FileIdentity)
  | stopped
  | failed

def HashOutcome.isStopped : HashOutcome → Bool
  | .stopped => true
  | _ => false

/-- `manifest_matches` -/
def manifestMatches (opened : FileIdentity) (row : ManifestRow) : Bool :=
  decide (opened.size = row.size ∧ opened.mtime.sec = row.mtime ∧ opened.mtime.nsec = row.mtimeNsec ∧
    opened.ctime.sec = row.ctimeSec ∧ opened.ctime.nsec = row.ctimeNsec ∧ opened.dev = row.device ∧
    opened.ino = row.inode)

/-- The digest that is handed to the checkpoint for a candidate. -/
def verifiedDigest (row : ManifestRow) : HashOutcome → Option (ManifestRow × Bytes)
  | .whole digest opened => if manifestMatches opened row then some (row, digest) else none
  | _ => none

/-- The counters of the phase. -/
structure HashProgress where
  filesDone : Nat
  bytesDone : Nat
  objectsRead : Nat
  hashFailures : Nat

/-- The counters behind a checkpoint: they advance by what was persisted, and a candidate that was
    neither committed nor stopped is a failure. -/
def HashProgress.after (p : HashProgress) (read stopped : Nat) (persisted : PersistedHashes) :
    HashProgress where
  filesDone := (p.filesDone + persisted.files) % 2 ^ 64
  bytesDone := (p.bytesDone + persisted.bytes) % 2 ^ 64
  objectsRead := p.objectsRead + read
  hashFailures :=
    (p.hashFailures + (2 ^ 64 + read - stopped - persisted.representatives) % 2 ^ 64) % 2 ^ 64

/-- One chunk: what is read is committed. -/
def hashBatch (scanId : Int) (chunk : List (ManifestRow × HashOutcome)) (p : HashProgress)
    (t : FileTable) : Except String HashProgress × FileTable :=
  let hashed := chunk.filterMap fun c => verifiedDigest c.1 c.2
  let stopped := chunk.countP fun c => c.2.isStopped
  match recordHashesVerified scanId hashed t with
  | (.error e, t) => (.error e, t)
  | (.ok persisted, t) => (.ok (p.after chunk.length stopped persisted), t)

/-- The chunks one after the other, until a stop is seen in front of one or behind it. -/
def hashBatches (scanId : Int) (outcome : ManifestRow → HashOutcome) (stop : Nat → Bool) :
    Nat → List (List ManifestRow) → HashProgress → FileTable →
      Except String (Bool × HashProgress) × FileTable
  | _, [], p, t => (.ok (true, p), t)
  | batch, chunk :: chunks, p, t =>
    if stop (2 * batch) then (.ok (false, p), t)
    else
      match hashBatch scanId (chunk.map fun row => (row, outcome row)) p t with
      | (.error e, t) => (.error e, t)
      | (.ok p, t) =>
        if stop (2 * batch + 1) then (.ok (false, p), t)
        else hashBatches scanId outcome stop (batch + 1) chunks p t

/-- `hash_phase`: the pass over what was inherited, the totals, and the candidates in inode order. -/
def hashPhase (scanId : Int) (outcome : ManifestRow → HashOutcome) (stop : Nat → Bool)
    (t : FileTable) : Except String (CandidateStats × Bool × HashProgress) × FileTable :=
  match propagateInheritedHashes scanId t with
  | (.error e, t) => (.error e, t)
  | (.ok _, t) =>
    match candidateStats scanId t with
    | .error e => (.error e, t)
    | .ok stats =>
      match candidateObjects scanId t with
      | .error e => (.error e.message, t)
      | .ok candidates =>
        let sorted := Sql.orderBy (fun row : ManifestRow => toLex (row.device, row.inode)) candidates
        match hashBatches scanId outcome stop 0 (Chunks.chunks (hashChunk - 1) sorted)
            ⟨stats.hashedFiles, stats.hashedBytes, 0, 0⟩ t with
        | (.error e, t) => (.error e, t)
        | (.ok (complete, p), t) => (.ok (stats, complete, p), t)

end DedupCommando
