import DedupCommando.Store.Publication

/-!
# Digests that are used again

A digest reaches a manifest row in three ways: read from a verified descriptor by a checkpoint,
taken over from a row of the same object, or inherited from the same pathname of another scan.

* `FileTable` — the rows of `file` with their scans.
* `trusted`, `sameObject`, `crossScanSource` — what a digest may be taken from.
* `propagateTrustedDigests`, `propagateCommittedObjects` — the pass over a scan, and the pass over
  the objects of a checkpoint.
* `conflictingDigestObjects`, `conflictingInheritanceObjects` — what is refused.
* `recordHashesVerified`, `propagateInheritedHashes`, `inheritHashes` — the three calls.
-/

set_option autoImplicit false

namespace DedupCommando

open Sql (Value)

/-- The rows of `file`, each with its scan. -/
abbrev FileTable := List (Int × FileRow)

/-! ## Sources -/

/-- A digest that was verified on a descriptor, or taken over from one that was. -/
def FileRow.trusted (f : FileRow) : Bool := decide (f.identityVersion = 1 ∧ f.hash ≠ .null)

/-- The complete temporal identity of one physical object, as a join compares it. -/
def FileRow.sameObject (src file : FileRow) : Bool :=
  Value.same src.size file.size &&
    decide (src.device = file.device ∧ src.inode = file.inode ∧ src.mtime = file.mtime ∧
      src.mtimeNsec = file.mtimeNsec ∧ src.ctimeSec = file.ctimeSec ∧
      src.ctimeNsec = file.ctimeNsec)

/-- `TRUSTED_SOURCE` -/
def trustedSource (file src : Int × FileRow) : Bool :=
  decide (src.1 = file.1) && src.2.sameObject file.2 && src.2.trusted

/-- `CROSS_SCAN_SOURCE`: device and inode are no part of it. -/
def crossScanSource (cur prev : Int × FileRow) : Bool :=
  Value.same prev.2.path cur.2.path && Value.same prev.2.size cur.2.size &&
    decide (prev.2.mtime = cur.2.mtime ∧ prev.2.mtimeNsec = cur.2.mtimeNsec ∧
      prev.2.ctimeSec = cur.2.ctimeSec ∧ prev.2.ctimeNsec = cur.2.ctimeNsec) &&
    prev.2.trusted && decide (prev.1 ≠ cur.1)

/-- A row that has received a digest, and is a source from now on. -/
def filled (r : Int × FileRow) (digest : Value) : Int × FileRow :=
  (r.1, { r.2 with hash := digest, identityVersion := 1 })

/-! ## Propagation -/

/-- The rows that a propagation statement fills. -/
def propagates (scanId : Int) (chosen : FileRow → Bool) (t : FileTable) (r : Int × FileRow) : Bool :=
  decide (r.1 = scanId ∧ r.2.hash = .null) && chosen r.2 && t.any (trustedSource r)

/-- The digest of the first source that the engine finds. -/
def sourceDigest (t : FileTable) (r : Int × FileRow) : Value :=
  cellOf (fun src : Int × FileRow => src.2.hash) (t.find? (trustedSource r))

/-- One propagation statement over the rows that are chosen: how many it fills, and the rows behind
it. -/
def propagateChosen (scanId : Int) (chosen : FileRow → Bool) (t : FileTable) : Nat × FileTable :=
  (t.countP (propagates scanId chosen t),
    t.map fun r => if propagates scanId chosen t r then filled r (sourceDigest t r) else r)

/-- `propagate_trusted_digests`: the whole scan. -/
def propagateTrustedDigests (scanId : Int) (t : FileTable) : Nat × FileTable :=
  propagateChosen scanId (fun _ => true) t

/-- `propagate_object_sql`: one physical object by device and inode. -/
def propagateObject (scanId : Int) (object : Nat × Nat) (t : FileTable) : Nat × FileTable :=
  propagateChosen scanId
    (fun f => decide (f.device = castI64 object.1 ∧ f.inode = castI64 object.2)) t

/-- `propagate_committed_objects`: one statement for each object, however often it was committed. -/
def propagateCommittedObjects (scanId : Int) (seen : List (Nat × Nat)) :
    List (Nat × Nat) → Nat → FileTable → Nat × FileTable
  | [], filled, t => (filled, t)
  | object :: objects, filled, t =>
    if object ∈ seen then propagateCommittedObjects scanId seen objects filled t
    else
      let step := propagateObject scanId object t
      propagateCommittedObjects scanId (object :: seen) objects (filled + step.1) step.2

/-! ## Checkpoints -/

/-- The row still carries the identity that was verified on the descriptor, and has no digest. -/
def verifiedRow (scanId : Int) (row : ManifestRow) (r : Int × FileRow) : Bool :=
  decide (r.1 = scanId ∧ r.2.path = .text (lossyUtf8 row.path) ∧ r.2.hash = .null) &&
    Value.same r.2.size (.integer (castI64 row.size)) &&
    decide (r.2.mtime = row.mtime ∧ r.2.mtimeNsec = row.mtimeNsec ∧ r.2.ctimeSec = row.ctimeSec ∧
      r.2.ctimeNsec = row.ctimeNsec ∧ r.2.device = castI64 row.device ∧
      r.2.inode = castI64 row.inode)

/-- The conditional update of one representative. -/
def commitRow (scanId : Int) (row : ManifestRow) (digest : Bytes) (t : FileTable) : Nat × FileTable :=
  (t.countP (verifiedRow scanId row),
    t.map fun r => if verifiedRow scanId row r then filled r (.blob digest) else r)

structure PersistedHashes where
  files : Nat
  bytes : Nat
  representatives : Nat

/-- The representatives of a checkpoint, with the objects that were committed. -/
def commitRows (scanId : Int) : List (ManifestRow × Bytes) →
    PersistedHashes × List (Nat × Nat) × FileTable → PersistedHashes × List (Nat × Nat) × FileTable
  | [], state => state
  | (row, digest) :: rows, (persisted, committed, t) =>
    let update := commitRow scanId row digest t
    commitRows scanId rows <|
      if 0 < update.1 then
        ({ files := persisted.files + update.1
           bytes := (persisted.bytes + row.size) % 2 ^ 64
           representatives := persisted.representatives + update.1 },
          committed ++ [(row.device, row.inode)], update.2)
      else (persisted, committed, update.2)

/-- `record_hashes_verified` -/
def recordHashesVerified (scanId : Int) (rows : List (ManifestRow × Bytes)) :
    Tx FileTable String PersistedHashes :=
  Tx.atomically fun t =>
    let (persisted, committed, t) := commitRows scanId rows (⟨0, 0, 0⟩, [], t)
    let (spread, t) := propagateCommittedObjects scanId [] committed 0 t
    (.ok { persisted with files := persisted.files + spread }, t)

/-! ## Conflicts and inheritance -/

/-- The objects among the evidence that carry more than one distinct digest. -/
def conflictingObjects (evidence : List (FileRow × Value)) : Nat :=
  (Grouping.groupByKey (fun e : FileRow × Value => e.1.objectKey) evidence).countP fun g =>
    decide (1 < Sql.countDistinct (g.2.map Prod.snd))

/-- The trusted digests of a scan, each with its row. -/
def trustedEvidence (scanId : Int) (t : FileTable) : List (FileRow × Value) :=
  (t.filter fun r => decide (r.1 = scanId) && r.2.trusted).map fun r => (r.2, r.2.hash)

/-- What other scans offer to the rows of a scan that have no digest. -/
def offeredEvidence (scanId : Int) (t : FileTable) : List (FileRow × Value) :=
  (t.filter fun r => decide (r.1 = scanId ∧ r.2.hash = .null)).flatMap fun cur =>
    (t.filter (crossScanSource cur)).map fun prev => (cur.2, prev.2.hash)

/-- `conflicting_digest_objects` -/
def conflictingDigestObjects (scanId : Int) (t : FileTable) : Nat :=
  conflictingObjects (trustedEvidence scanId t)

/-- `conflicting_inheritance_objects` -/
def conflictingInheritanceObjects (scanId : Int) (t : FileTable) : Nat :=
  conflictingObjects (trustedEvidence scanId t ++ offeredEvidence scanId t)

/-- `propagate_inherited_hashes` -/
def propagateInheritedHashes (scanId : Int) : Tx FileTable String Nat :=
  Tx.atomically fun t =>
    let conflicts := conflictingDigestObjects scanId t
    if 0 < conflicts then
      (.error (s!"{conflicts} physical object(s) in this scan carry more than one inherited hash. " ++
        "The checkpoint disagrees with itself; rescan without hash reuse, or move the old " ++
        "dedcom.db aside."), t)
    else
      let (propagated, t) := propagateTrustedDigests scanId t
      (.ok propagated, t)

/-- The rows that inherit. -/
def inherits (scanId : Int) (t : FileTable) (r : Int × FileRow) : Bool :=
  decide (r.1 = scanId ∧ r.2.hash = .null) && t.any (crossScanSource r)

/-- `MIN(prev.hash)` -/
def offeredDigest (t : FileTable) (r : Int × FileRow) : Value :=
  Sql.minimum ((t.filter (crossScanSource r)).map fun prev => prev.2.hash)

/-- `inherit_sql` -/
def inheritOffered (scanId : Int) (t : FileTable) : Nat × FileTable :=
  (t.countP (inherits scanId t),
    t.map fun r => if inherits scanId t r then filled r (offeredDigest t r) else r)

/-- `inherit_hashes` -/
def inheritHashes (scanId : Int) : Tx FileTable String Nat :=
  Tx.atomically fun t =>
    let conflicts := conflictingInheritanceObjects scanId t
    if 0 < conflicts then
      (.error (s!"the checkpoint offers more than one hash for {conflicts} physical object(s) of " ++
        "this scan. Reusing either would be a guess; rescan without hash reuse, or move the old " ++
        "dedcom.db aside."), t)
    else
      let (updated, t) := inheritOffered scanId t
      (.ok updated, t)

end DedupCommando
