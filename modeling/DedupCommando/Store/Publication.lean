import DedupCommando.Model.GroupReclaim
import DedupCommando.Store.OmissionLedger
import DedupCommando.Store.Tables

/-!
# Publishing a scan's results

`publish_results` with the two writers it replaces a scan's membership by, and the operations that
begin the manifest again.

* `groupObjects`, `groupRows`, `refuseUntrustworthyGroupObjects` — the aggregation over the manifest
  and the refusal in front of it.
* `insertDerived`, `insertExplicit` — the two writers.
* `recordScanReclaim`, `markPrepared`, `publishResults` — the totals and the one transaction.
* `clearFiles`, `recordFiles` — the manifest.
-/

set_option autoImplicit false

namespace DedupCommando

open Sql (Value)

/-! ## The object relation -/

/-- `OBJECT_KEY`, as GROUP BY compares it. -/
def FileRow.objectKey (f : FileRow) :
    ℤ ×ₗ ℤ ×ₗ (ℕ ×ₗ ℚ ×ₗ Bytes) ×ₗ ℤ ×ₗ ℤ ×ₗ ℤ ×ₗ ℤ :=
  toLex (f.device, toLex (f.inode, toLex (f.size.key, toLex (f.mtime, toLex (f.mtimeNsec,
    toLex (f.ctimeSec, f.ctimeNsec))))))

/-- One row for each digest and object. -/
structure ObjectRow where
  digest : Value
  size : Value
  observed : Nat
  nlink : Value
  nlinkDistinct : Nat
  nlinkMinClass : String
  nlinkMaxClass : String
  named : Value

/-- The aggregates over the manifest rows of one digest and object. -/
def ObjectRow.of (files : List FileRow) : ObjectRow where
  digest := cellOf FileRow.hash files.head?
  size := cellOf FileRow.size files.head?
  observed := files.length
  nlink := Sql.minimum (files.map FileRow.nlink)
  nlinkDistinct := Sql.countDistinct (files.map FileRow.nlink)
  nlinkMinClass := ((files.map fun f => f.nlink.typeof).min?).getD ""
  nlinkMaxClass := ((files.map fun f => f.nlink.typeof).max?).getD ""
  named := Sql.minimum (files.map FileRow.path)

/-- `group_objects_sql` -/
def groupObjects (files : List FileRow) : List ObjectRow :=
  (Grouping.groupByKey (fun f : FileRow => toLex (f.hash.key, f.objectKey))
    (files.filter fun f => decide (f.hash ≠ .null))).map fun g => ObjectRow.of g.2

/-- One duplicate-content group. -/
structure GroupFigures where
  digest : Value
  fileCount : Nat
  size : Value
  objectCount : Nat
  ceiling : Value
  state : Int

/-- The checkpoint's rule over the objects of a group: an unrecorded count makes it unknown, a
    partially observed object an upper bound. -/
def groupState (objects : List ObjectRow) : Int :=
  if objects.any fun o => !Value.less (.integer 0) o.nlink then 0
  else if objects.any fun o => Value.less (.integer o.observed) o.nlink then 2
  else 1

/-- The aggregates over the objects of one digest. -/
def GroupFigures.of (objects : List ObjectRow) : GroupFigures where
  digest := cellOf ObjectRow.digest objects.head?
  fileCount := (objects.map ObjectRow.observed).sum
  size := Sql.minimum (objects.map ObjectRow.size)
  objectCount := objects.length
  ceiling := (Sql.minimum (objects.map ObjectRow.size)).times (objects.length - 1 : Int)
  state := groupState objects

/-- `group_rows_sql`: the digests of at least two objects. -/
def groupRows (objects : List ObjectRow) : List GroupFigures :=
  ((Grouping.groupByKey (fun o : ObjectRow => o.digest.key) objects).filter fun g =>
    decide (2 ≤ g.2.length)).map fun g => GroupFigures.of g.2

/-! ## The refusal in front of the writer -/

/-- `link_count_from_sql` -/
def linkCountFromSql (v : Value) : Except AppError LinkCount :=
  match v with
  | .integer raw => LinkCount.fromI64 raw
  | other => .error ⟨s!"dedcom.db holds a link count stored as {other.typeof}, not an integer. " ++
      "Rescan, or move the old dedcom.db aside."⟩

/-- `size_from_sql` -/
def sizeFromSql (v : Value) (named : String) : Except AppError Nat :=
  match v with
  | .integer raw =>
    if 0 ≤ raw then .ok raw.toNat
    else .error ⟨s!"dedcom.db holds a negative file size ({raw}) for {named}. Rescan, or move the " ++
      "old dedcom.db aside."⟩
  | other => .error ⟨s!"dedcom.db holds the size of {named} as {other.typeof}, not an integer. " ++
      "Rescan, or move the old dedcom.db aside."⟩

/-- `GroupedLinkCount::decode` -/
def ObjectRow.links (o : ObjectRow) (named : String) : Except AppError LinkCount :=
  if o.nlinkMinClass ≠ o.nlinkMaxClass then
    .error ⟨s!"dedcom.db holds link counts of two different types ({o.nlinkMinClass} and " ++
      s!"{o.nlinkMaxClass}) for the one allocation behind {named}. Rescan, or move the old " ++
      "dedcom.db aside."⟩
  else if 1 < o.nlinkDistinct then
    .error ⟨s!"dedcom.db holds {o.nlinkDistinct} different link counts for the one allocation " ++
      s!"behind {named}; its pathnames are the same inode and cannot disagree. Rescan, or move the " ++
      "old dedcom.db aside."⟩
  else linkCountFromSql o.nlink

/-- What makes an object of a group, or its group, impossible to measure. -/
def untrustworthy (o : ObjectRow) (g : GroupFigures) : Bool :=
  decide (o.nlinkMinClass ≠ o.nlinkMaxClass) || decide (1 < o.nlinkDistinct) ||
  decide (o.nlink.typeof ≠ "integer") || Value.less o.nlink (.integer 0) ||
  (Value.less (.integer 0) o.nlink && Value.less o.nlink (.integer o.observed)) ||
  decide (g.size.typeof ≠ "integer") || decide (g.ceiling.typeof ≠ "integer")

/-- The refusal that the offending row itself fails with. -/
def offenderRefusal (o : ObjectRow) (g : GroupFigures) : AppError :=
  match getText o.named with
  | .error e => ⟨e⟩
  | .ok path =>
    let sanitized := terminal (Bytes.display path)
    match o.links sanitized with
    | .error e => e
    | .ok links =>
      match sizeFromSql g.size sanitized with
      | .error e => e
      | .ok size =>
        match ReclaimEstimate.forObjects size [⟨o.observed, links⟩] sanitized with
        | .error e => e
        | .ok _ =>
          match ReclaimEstimate.objectCeiling size g.objectCount with
          | .error e => e
          | .ok _ => ⟨"the reclaim of the group behind " ++ sanitized ++
              " cannot be established. Rescan, or move the old dedcom.db aside."⟩

/-- The objects of every group with the group. -/
def groupedObjects (files : List FileRow) : List (ObjectRow × GroupFigures) :=
  (groupObjects files).flatMap fun o =>
    ((groupRows (groupObjects files)).filter fun g => Value.same g.digest o.digest).map fun g => (o, g)

/-- `refuse_untrustworthy_group_objects` -/
def refuseUntrustworthyGroupObjects (files : List FileRow) : Except AppError Unit :=
  match (Sql.orderBy (fun p : ObjectRow × GroupFigures => p.1.named.key)
      ((groupedObjects files).filter fun p => untrustworthy p.1 p.2)).head? with
  | some (o, g) => .error (offenderRefusal o g)
  | none => .ok ()

/-! ## The writers -/

/-- The bytes a group promises, in the two columns of the order. -/
def GroupFigures.guaranteed (g : GroupFigures) : Value := if g.state = 1 then g.ceiling else .integer 0

def GroupFigures.reclaim (g : GroupFigures) : Value := if g.state = 0 then .integer 0 else g.ceiling

/-- `ORDER BY guaranteed DESC, reclaim DESC, hash ASC` -/
def GroupFigures.order (g : GroupFigures) :
    (ℕ ×ₗ ℚ ×ₗ Bytes)ᵒᵈ ×ₗ (ℕ ×ₗ ℚ ×ₗ Bytes)ᵒᵈ ×ₗ Bytes :=
  toLex (OrderDual.toDual g.guaranteed.key, toLex (OrderDual.toDual g.reclaim.key,
    Sql.lowerHex g.digest))

/-- The summary row of a rank. -/
def GroupFigures.row (rank : Nat) (g : GroupFigures) : GroupRow where
  rowid := rank
  rank := .integer rank
  hash := .text (Sql.lowerHex g.digest)
  fileCount := .integer g.fileCount
  size := g.size
  reclaim := g.reclaim
  objectCount := .integer g.objectCount
  reclaimState := .integer g.state

/-- The derived writer: the summaries of the manifest by digest. -/
def insertDerived : Tx ScanTables AppError Unit := fun t =>
  match refuseUntrustworthyGroupObjects t.file with
  | .error e => (.error e, t)
  | .ok () =>
    (.ok (), { t with fileGroup := t.fileGroup ++
      (Sql.orderBy GroupFigures.order (groupRows (groupObjects t.file))).mapIdx GroupFigures.row })

/-- A word of 64 bits read as a signed one. -/
def castI64 (n : Nat) : Int := if n % 2 ^ 64 < 2 ^ 63 then n % 2 ^ 64 else n % 2 ^ 64 - 2 ^ 64

/-- The figures of the groups, and which of them are duplicates. -/
def measureGroups : List DuplicateGroup → Except AppError (List (DuplicateGroup × GroupReclaim))
  | [] => .ok []
  | group :: groups =>
    match group.physicalReclaim with
    | .error e => .error e
    | .ok reclaim =>
      match measureGroups groups with
      | .error e => .error e
      | .ok rows => .ok (if 2 ≤ reclaim.objectCount then (group, reclaim) :: rows else rows)

/-- The total order of the explicit writer. -/
def explicitOrder (row : DuplicateGroup × GroupReclaim) : ℕᵒᵈ ×ₗ ℕᵒᵈ ×ₗ Bytes :=
  toLex (OrderDual.toDual row.2.estimate.orderKey.1,
    toLex (OrderDual.toDual row.2.estimate.orderKey.2, row.1.hash))

/-- The summary row of an explicit group.  The counts are of pathnames held in memory, so their cast
    to `i64` changes nothing. -/
def explicitRow (rank : Nat) (row : DuplicateGroup × GroupReclaim) : GroupRow where
  rowid := rank
  rank := .integer rank
  hash := .text row.1.hash
  fileCount := .integer row.2.observedPaths
  size := .integer (castI64 row.1.sizeBytes)
  reclaim := .integer (castI64 row.2.estimate.persistedBytes)
  objectCount := .integer row.2.objectCount
  reclaimState := .integer row.2.estimate.state.asI64

/-- The member rows of one group, inserted one by one. -/
def insertMembers (rank : Nat) (generation : Int) : List FileEntry → Tx ScanTables AppError Unit
  | [], t => (.ok (), t)
  | file :: files, t =>
    let path := lossyUtf8 file.path
    if path = [] then (.error ⟨"CHECK constraint failed: path <> ''"⟩, t)
    else if t.member.any fun m => decide (m.path = .text path) then
      (.error ⟨"UNIQUE constraint failed: file_group_member.scan_id, file_group_member.path"⟩, t)
    else
      insertMembers rank generation files
        { t with member := t.member ++ [⟨.integer rank, .text path, .integer generation⟩] }

/-- The ranked groups, inserted one by one with their members. -/
def insertGroups (generation : Int) :
    Nat → List (DuplicateGroup × GroupReclaim) → Tx ScanTables AppError Unit
  | _, [], t => (.ok (), t)
  | rank, row :: rows, t =>
    match insertMembers rank generation row.1.files
        { t with fileGroup := t.fileGroup ++ [explicitRow rank row] } with
    | (.error e, t) => (.error e, t)
    | (.ok (), t) => insertGroups generation (rank + 1) rows t

/-- The explicit writer: the figures before anything is written. -/
def insertExplicit (generation : Int) (groups : List DuplicateGroup) :
    Tx ScanTables AppError Unit := fun t =>
  match measureGroups groups with
  | .error e => (.error e, t)
  | .ok rows => insertGroups generation 0 (Sql.orderBy explicitOrder rows) t

/-! ## The totals -/

/-- The estimates the summary rows carry. -/
def persistedEstimates : List GroupRow → Except AppError (List ReclaimEstimate)
  | [] => .ok []
  | row :: rows =>
    match getInteger row.reclaim with
    | .error e => .error ⟨e⟩
    | .ok reclaim =>
      match getInteger row.reclaimState with
      | .error e => .error ⟨e⟩
      | .ok state =>
        match ReclaimEstimate.fromPersisted reclaim state with
        | .error e => .error e
        | .ok estimate =>
          match persistedEstimates rows with
          | .error e => .error e
          | .ok estimates => .ok (estimate :: estimates)

/-- `record_scan_reclaim`: the totals, where the scan has a row for them. -/
def recordScanReclaim : Tx ScanTables AppError Unit := fun t =>
  match persistedEstimates t.fileGroup with
  | .error e => (.error e, t)
  | .ok groups =>
    match ReclaimEstimate.forFreshScan groups with
    | .error e => (.error e, t)
    | .ok total =>
      (.ok (), { t with stats := t.stats.map fun s =>
        { s with reclaimableBytes := castI64 total.persistedBytes
                 reclaimState := total.state.asI64 } })

/-- `mark_prepared` -/
def markPrepared (t : ScanTables) : ScanTables :=
  { t with stats := some { (t.stats.getD ⟨0, 0, false⟩) with resultsMaterialized := true } }

/-! ## Publication -/

/-- `PublishMode` -/
inductive PublishMode where
  | derived
  | explicit (groups : List DuplicateGroup)

/-- The value of `scan_membership.mode`. -/
def PublishMode.value : PublishMode → Int
  | .derived => 1
  | .explicit _ => 2

/-- The generation of the next publication. -/
def nextPublication (scanId : Int) (membership : Option (Value × Value)) : Except AppError Int :=
  match membership with
  | none => .ok 1
  | some (_, previous) =>
    let corrupt : Except AppError Int := .error
      ⟨s!"scan_membership.generation for scan {scanId} holds {authorityCell previous} — refusing " ++
        "to publish over corrupt authority"⟩
    match previous with
    | .integer p =>
      if 0 < p then
        if p + 1 < 2 ^ 63 then .ok (p + 1)
        else .error ⟨s!"scan {scanId} has exhausted its publication generations ({p}); " ++
          "republication would overflow"⟩
      else corrupt
    | _ => corrupt

/-- The scan's previous results are gone. -/
def ScanTables.withoutResults (t : ScanTables) : ScanTables := { t with fileGroup := [], member := [] }

/-- The rows of the mode. -/
def insertResults (generation : Int) : PublishMode → Tx ScanTables AppError Unit
  | .derived => insertDerived
  | .explicit groups => insertExplicit generation groups

/-- What `publish_results` does inside its transaction. -/
def publishBody (scanId : Int) (hasScan : Bool) (mode : PublishMode) : Tx ScanTables AppError Int :=
  fun t =>
  match nextPublication scanId t.membership with
  | .error e => (.error e, t)
  | .ok generation =>
    match insertResults generation mode t.withoutResults with
    | (.error e, t) => (.error e, t)
    | (.ok (), t) =>
      match recordScanReclaim t with
      | (.error e, t) => (.error e, t)
      | (.ok (), t) =>
        let t := markPrepared t
        if hasScan then
          (.ok generation, { t with membership := some (.integer mode.value, .integer generation) })
        else (.error ⟨"FOREIGN KEY constraint failed"⟩, t)

/-- `publish_results` -/
def publishResults (scanId : Int) (hasScan : Bool) (mode : PublishMode) : Tx ScanTables AppError Int :=
  Tx.atomically (publishBody scanId hasScan mode)

/-! ## The manifest -/

/-- A regular file as the walk hands it over. -/
structure ManifestRow where
  path : Bytes
  size : Nat
  mtime : Int
  mtimeNsec : Int
  ctimeSec : Int
  ctimeNsec : Int
  device : Nat
  inode : Nat
  nlink : Nat

/-- `INSERT OR REPLACE INTO file`, row by row. -/
def insertFiles : List ManifestRow → Tx ScanTables AppError Unit
  | [], t => (.ok (), t)
  | file :: files, t =>
    match (LinkCount.fromU64 file.nlink).toI64 with
    | .error e => (.error e, t)
    | .ok nlink =>
      let path := lossyUtf8 file.path
      insertFiles files { t with
        file := (t.file.filter fun f => !decide (f.path = .text path)) ++
          [{ path := .text path
             size := .integer (castI64 file.size)
             mtime := file.mtime
             mtimeNsec := file.mtimeNsec
             ctimeSec := file.ctimeSec
             ctimeNsec := file.ctimeNsec
             identityVersion := 0
             device := castI64 file.device
             inode := castI64 file.inode
             nlink := .integer nlink
             hash := .null }] }

/-- `record_files` -/
def recordFiles (files : List ManifestRow) : Tx ScanTables AppError Unit :=
  Tx.atomically (insertFiles files)

/-- A scan's tables with its omission ledger. -/
structure ScanState where
  tables : ScanTables
  ledger : OmissionLedger

/-- `revoke_published_results_tx` -/
def revokePublishedResults (t : ScanTables) : ScanTables :=
  { t with stats := t.stats.map fun _ => ⟨0, 0, false⟩ }

/-- What `clear_files` does inside its transaction. -/
def clearFilesBody : Tx ScanState AppError Unit := fun s =>
  let tables : ScanTables := { s.tables with file := [], member := [], membership := none, fileGroup := [] }
  match OmissionLedger.clearFilesLedger s.ledger with
  | (.error e, ledger) => (.error ⟨e⟩, ⟨revokePublishedResults tables, ledger⟩)
  | (.ok _, ledger) => (.ok (), ⟨revokePublishedResults tables, ledger⟩)

/-- `clear_files` -/
def clearFiles : Tx ScanState AppError Unit := Tx.atomically clearFilesBody

end DedupCommando
