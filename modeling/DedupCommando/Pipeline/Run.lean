import DedupCommando.Lib.CrashJob
import DedupCommando.Pipeline.Walk
import DedupCommando.Store.Authority
import DedupCommando.Store.Candidates
import DedupCommando.Store.DirRows
import DedupCommando.Store.Retention

/-!
# A run of a scan

`run_scan` as the chain of transactions that it is (`pipeline/mod.rs`): the manifest and the ledger
of a walk, the digests, the groups of directories, the publication and the status.

* `ScanConfig`, `ScanDb` — the configuration of a scan, and what the database holds of it.
* `RunInput` — what a run meets outside: the tree, the other scans, the reads.
* `walkPhase`, `hashPhase`, `runPhases` — the phases.
* `firstRun`, `resume` — `scan_steps`, on a new scan and on one that is there.
-/

set_option autoImplicit false

namespace DedupCommando

namespace Pipeline

open Browse (DirSigAlgo)
open Sessions (ScanStatus)
open Signatures (KeptDir SignatureContext)

/-! ## The scan -/

/-- What a run reads of `ScanConfig`. -/
structure ScanConfig where
  walk : WalkConfig
  reuseHashes : Bool
  dirSigAlgo : DirSigAlgo

/-- The rows of one scan: its status, its tables with the ledger, and `dir_dedup`. -/
structure ScanDb where
  status : ScanStatus
  state : ScanState
  dirs : List DirRow

/-- A scan as `begin_scan` leaves it. -/
def begun (config : ScanConfig) : ScanDb where
  status := .walking
  state := ⟨⟨[], [], [], none, some ⟨0, 0, false⟩⟩, OmissionLedger.beginScan config.walk.roots⟩
  dirs := []

/-- What one run finds outside the scan: the file system as the guard, the walk and the readers see
it, the rows of the other scans, and whether it was asked to verify. -/
structure RunInput where
  roots : RootLook
  walker : Walker
  /-- How the iterator's library words an error. -/
  shown : WalkError → String
  ownDatabase : List (Nat × Nat)
  walkCancelled : Nat → Bool
  others : FileTable
  outcome : ManifestRow → HashOutcome
  verify : Bool
  filesEqual : Bytes → Bytes → Except AppError Bool
  /-- Whether the counters of the scan say that it was finished and found nothing. -/
  foundNothing : Bool
  /-- The order in which the hash map of the directories is iterated over. -/
  iterate : List KeptDir → List KeptDir
  iterate_perm : ∀ dirs, (iterate dirs).Perm dirs

namespace ScanDb

variable {α : Type}

def onTables (tx : Tx ScanTables AppError α) : Tx ScanDb AppError α := fun db =>
  let r := tx db.state.tables
  (r.1, { db with state := { db.state with tables := r.2 } })

def onLedger (tx : Tx OmissionLedger String α) : Tx ScanDb AppError α := fun db =>
  let r := tx db.state.ledger
  (r.1.mapError AppError.mk, { db with state := { db.state with ledger := r.2 } })

def onDirs (tx : Tx (List DirRow) AppError α) : Tx ScanDb AppError α := fun db =>
  let r := tx db.dirs
  (r.1, { db with dirs := r.2 })

/-- The table of files, the rows of this scan before those of the others. -/
def fileTable (scanId : Int) (others : FileTable) (db : ScanDb) : FileTable :=
  (db.state.tables.file.map fun f => (scanId, f)) ++ others.filter fun r => decide (r.1 ≠ scanId)

def setFiles (files : List FileRow) (db : ScanDb) : ScanDb :=
  { db with state := { db.state with tables := { db.state.tables with file := files } } }

def onFiles (scanId : Int) (others : FileTable) (tx : Tx FileTable String α) :
    Tx ScanDb AppError α := fun db =>
  let r := tx (db.fileTable scanId others)
  (r.1.mapError AppError.mk, db.setFiles (scanFiles scanId r.2))

/-- `clear_files` -/
def clearFiles : Tx ScanDb AppError Unit := fun db =>
  match DedupCommando.clearFiles db.state with
  | (.error e, state) => (.error e, { db with state := state })
  | (.ok (), state) => (.ok (), { db with state := state, dirs := [] })

/-- `set_status` -/
def setStatus (status : ScanStatus) : Tx ScanDb AppError Unit := fun db =>
  (.ok (), { db with status := status })

/-- `ensure_scan_stats` -/
def ensureScanStats : Tx ScanDb AppError Unit := onTables fun t =>
  (.ok (), { t with stats := some (t.stats.getD ⟨0, 0, false⟩) })

end ScanDb

/-! ## Preparation for viewing -/

/-- `describe_miss` -/
def describeMiss : MembershipMiss → String
  | .noSuchScan => "no such scan"
  | .noSuchGroup => "no such group"
  | .unknown => "the scan has no membership authority"
  | .stale expected found => s!"the plan carries generation {expected}, the database {found}"
  | .inconsistent detail => detail
  | .store detail => detail

/-- `materialize_browse_summaries`: summaries without an authority. -/
def materializeBrowseSummaries : Tx ScanTables AppError Unit :=
  Tx.atomically fun t =>
    match insertDerived { t with fileGroup := [] } with
    | (.error e, t) => (.error e, t)
    | (.ok (), t) =>
      match recordScanReclaim t with
      | (.error e, t) => (.error e, t)
      | (.ok (), t) => (.ok (), markPrepared t)

/-- `prepare_browse_summaries` -/
def prepareBrowseSummaries (foundNothing : Bool) : Tx ScanTables AppError Unit := fun t =>
  if (t.stats.elim false ScanStats.resultsMaterialized) = true then (.ok (), t)
  else if t.fileGroup ≠ [] ∨ foundNothing = true then (.ok (), markPrepared t)
  else materializeBrowseSummaries t

/-- `prepare_legacy_for_viewing`: a scan with an authority is validated and left as it is. -/
def prepareLegacyForViewing (scanId : Int) (foundNothing : Bool) :
    Tx ScanDb AppError Unit := fun db =>
  match membershipSnapshot ⟨fun _ => true, fun _ => db.state.tables⟩ scanId with
  | .error miss => (.error ⟨s!"scan {scanId} cannot be prepared: " ++ describeMiss miss⟩, db)
  | .ok snapshot =>
    if snapshot.mode = .unknown then ScanDb.onTables (prepareBrowseSummaries foundNothing) db
    else
      match snapshot.inconsistentRanks with
      | rank :: _ =>
        (.error ⟨s!"scan {scanId} holds a group (rank {rank}) whose summary and membership " ++
          "disagree — refusing to prepare corrupt authority"⟩, db)
      | [] => (.ok (), db)

/-! ## The walk -/

/-- `WalkPublication` -/
inductive WalkPublication where
  | committed
  | noAuthority (observed : OmissionSummary)
  | cancelled

/-- `WALK_BATCH` -/
def walkBatch : Nat := 2048

def WalkedFile.row (file : WalkedFile) : ManifestRow where
  path := file.path.bytes
  size := file.size
  mtime := file.mtime
  mtimeNsec := file.mtimeNsec
  ctimeSec := file.ctimeSec
  ctimeNsec := file.ctimeNsec
  device := file.device
  inode := file.inode
  nlink := file.nlink

/-- The batches of the manifest; `false` where a stop is seen behind one. -/
def recordBatches : List (List ManifestRow) → Job ScanDb AppError Bool
  | [] => pure true
  | batch :: batches => do
    Job.transact (ScanDb.onTables (recordFiles batch))
    if ← Job.look then pure false else recordBatches batches

/-- `collector_failure` -/
def collectorFailure (scanId : Int) (why : SnapshotUnavailable) : AppError :=
  let cell (root directory : PathKey) (reason : OmissionReason) : String :=
    reason.asStr ++ " at " ++ terminal directory.display ++ " under root " ++ terminal root.display
  match why with
  | .countOverflow root directory reason =>
    ⟨s!"scan {scanId} aborted: the omission count overflowed while aggregating " ++
      cell root directory reason ++ " — the walk cannot truthfully account what it left out. " ++
      "Rescan into a fresh session."⟩
  | .countNotStorable root directory reason =>
    ⟨s!"scan {scanId} aborted: the omission count for " ++ cell root directory reason ++
      " exceeds what the checkpoint can store, so the ledger cannot be published truthfully. " ++
      "Rescan into a fresh session."⟩
  | .unregisteredRoot root directory reason =>
    ⟨s!"scan {scanId} aborted: an omission event (" ++ cell root directory reason ++
      ") arrived for a root the collector was never seeded with — a wiring defect, not an " ++
      "operator problem. Please report it."⟩
  | .observedOverflow reason =>
    ⟨s!"scan {scanId} aborted: the global omission tally overflowed while counting " ++
      reason.asStr ++ " events — the walk cannot truthfully account what it left out. Rescan into " ++
      "a fresh session."⟩
  | .roots .. => ⟨"Roots is the expected fallback and is routed before failure construction"⟩

/-- `publish_walk_omissions` -/
def publishWalkOmissions (scanId : Int) (omissions : OmissionSnapshot) :
    Job ScanDb AppError WalkPublication :=
  match omissions with
  | .publishable perRoot => do
    Job.transact (ScanDb.onLedger (Tx.atomically (OmissionLedger.commitOmissions scanId perRoot)))
    pure .committed
  | .unavailable (.roots _ observed) => pure (.noAuthority observed)
  | .unavailable why => Job.ofExcept (.error (collectorFailure scanId why))

/-- `walk_phase` -/
def walkPhase (scanId : Int) (config : ScanConfig) (input : RunInput) :
    Job ScanDb AppError WalkPublication := do
  let outcome ← Job.ofExcept
    ((walkCollecting input.walker config.walk input.ownDatabase input.walkCancelled).mapError
      fun refusal => AppError.mk (refusal.message input.shown))
  match outcome with
  | .cancelled _ => pure .cancelled
  | .finished files omissions =>
    if ← Job.look then pure .cancelled
    else
      if ← recordBatches (Chunks.chunks (walkBatch - 1) (files.map WalkedFile.row)) then
        if ← Job.look then pure .cancelled else publishWalkOmissions scanId omissions
      else pure .cancelled

/-! ## The digests -/

/-- The chunks of candidates, each with its checkpoint; `false` where a stop is seen. -/
def hashChunks (scanId : Int) (input : RunInput) :
    List (List ManifestRow) → HashProgress → Job ScanDb AppError Bool
  | [], _ => pure true
  | chunk :: chunks, p => do
    if ← Job.look then pure false
    else
      let p ← Job.transact (ScanDb.onFiles scanId input.others
        (hashBatch scanId (chunk.map fun row => (row, input.outcome row)) p))
      if ← Job.look then pure false else hashChunks scanId input chunks p

/-- `hash_phase` -/
def hashPhase (scanId : Int) (input : RunInput) : Job ScanDb AppError Bool := do
  let _ ← Job.transact (ScanDb.onFiles scanId input.others (propagateInheritedHashes scanId))
  let stats ← Job.read fun db : ScanDb =>
    (candidateStats scanId (db.fileTable scanId input.others)).mapError AppError.mk
  let candidates ← Job.read fun db : ScanDb =>
    candidateObjects scanId (db.fileTable scanId input.others)
  hashChunks scanId input
    (Chunks.chunks (hashChunk - 1)
      (Sql.orderBy (fun row : ManifestRow => toLex (row.device, row.inode)) candidates))
    ⟨stats.hashedFiles, stats.hashedBytes, 0, 0⟩

/-! ## Completion -/

/-- `is_intentional_filter` -/
def OmissionReason.isIntentionalFilter : OmissionReason → Bool
  | .minSize | .maxSize | .extensionFiltered => true
  | _ => false

/-- `warning_events_of`, from a sum on. -/
def addWarnings : Nat → List (OmissionReason × EventCount) → Except AppError Nat
  | total, [] => .ok total
  | total, (reason, count) :: rest =>
    if OmissionReason.isIntentionalFilter reason then addWarnings total rest
    else
      match Checked.checkedAdd 64 total count.get with
      | some total => addWarnings total rest
      | none => .error ⟨"omission counts overflowed while aggregating"⟩

/-- `warning_events_of` -/
def warningEventsOf (totals : OmissionSummary) : Except AppError Nat :=
  addWarnings 0 totals.perReason.entries

/-- `ScanStatus::on_completion` -/
def onCompletion (hashFailures warningEvents : Nat) : ScanStatus :=
  if 0 < hashFailures ∨ 0 < warningEvents then .completeWithWarnings else .complete

/-- The account that a run completes with: the ledger's, or what its own walk observed. -/
def completionAccount (scanId : Int) (outcome : SnapshotOutcome) (walk : Option WalkPublication) :
    Except AppError OmissionSummary :=
  match outcome with
  | .bounded snapshot =>
    match snapshot.scanAccounting with
    | .error e => .error ⟨e⟩
    | .ok (.exact totals) => .ok totals
    | .ok .unavailable => .error
      ⟨s!"scan {scanId} reached completion without an authoritative completeness ledger; this is " ++
        "a wiring defect — the resume rule re-walks exactly this state"⟩
  | .unavailable _ =>
    match walk with
    | some (.noAuthority observed) => .ok observed
    | _ => .error
      ⟨s!"scan {scanId} has no completeness authority and no observed account; this is a wiring " ++
        "defect — a no-authority completion always walked in this run"⟩

/-- `verify_and_publish`, or the derived publication. -/
def publish (scanId : Int) (input : RunInput) : Job ScanDb AppError Unit :=
  if input.verify = true then do
    let groups ← Job.read fun db : ScanDb => duplicateGroups db.state.tables.file
    let groups ← Job.ofExcept (verifyGroups input.filesEqual groups)
    let _ ← Job.transact (ScanDb.onTables (publishResults scanId true (.explicit groups)))
  else do
    let _ ← Job.transact (ScanDb.onTables (publishResults scanId true .derived))

/-- How a run that did not fail came out. -/
inductive ScanOutcome where
  | completed
  | cancelled

/-- What is left to do for a scan that was not complete before: the groups of directories, the
publication and the status. -/
def finish (scanId : Int) (config : ScanConfig) (input : RunInput)
    (signatureOf : List (Bytes × Bytes) → Bytes) (hashFailures : Nat)
    (walk : Option WalkPublication) : Job ScanDb AppError ScanOutcome := do
  let (outcome, ctx) ← Job.read fun db : ScanDb =>
    (Signatures.ledgerContext db.state.ledger).mapError AppError.mk
  let files ← Job.read fun db : ScanDb =>
    (Signatures.fileHashStatus db.state.tables.file).mapError AppError.mk
  Job.transact (ScanDb.onDirs
    (Signatures.storeDirGroups signatureOf config.dirSigAlgo input.iterate ctx files))
  if ← Job.look then pure .cancelled
  else
    publish scanId input
    let totals ← Job.ofExcept (completionAccount scanId outcome walk)
    let events ← Job.ofExcept (warningEventsOf totals)
    Job.transact (ScanDb.setStatus (onCompletion hashFailures events))
    Job.transact (prepareLegacyForViewing scanId input.foundNothing)
    pure .completed

/-- Whether a run begins with a walk. -/
def needWalk (resumed : Bool) : Job ScanDb AppError Bool := do
  let status ← Job.read fun db : ScanDb => .ok db.status
  if resumed = false ∨ status = .walking then pure true
  else if status = .hashing then
    let outcome ← Job.read fun db : ScanDb =>
      (completenessSnapshot db.state.ledger).mapError AppError.mk
    match outcome with
    | .bounded snapshot => pure (!snapshot.fullyAuthoritative)
    | .unavailable _ => pure true
  else pure false

/-- `run_phases` behind the walk. -/
def hashAndFinish (scanId : Int) (config : ScanConfig) (input : RunInput)
    (signatureOf : List (Bytes × Bytes) → Bytes) (walk : Option WalkPublication) :
    Job ScanDb AppError ScanOutcome := do
  if config.reuseHashes = true then
    let _ ← Job.transact (ScanDb.onFiles scanId input.others (inheritHashes scanId))
  if ← hashPhase scanId input then
    let status ← Job.read fun db : ScanDb => .ok db.status
    if ← Job.look then pure .cancelled
    else
      let recon ← Job.read fun db : ScanDb =>
        (candidateStats scanId (db.fileTable scanId input.others)).mapError AppError.mk
      let hashFailures := (2 ^ 64 + recon.totalFiles - recon.hashedFiles) % 2 ^ 64
      if status.isCompleted = true then
        Job.transact (prepareLegacyForViewing scanId input.foundNothing)
        pure .completed
      else finish scanId config input signatureOf hashFailures walk
  else pure .cancelled

/-- `run_phases` -/
def runPhases (scanId : Int) (config : ScanConfig) (input : RunInput)
    (signatureOf : List (Bytes × Bytes) → Bytes) (resumed : Bool) :
    Job ScanDb AppError ScanOutcome := do
  if ← needWalk resumed then
    if resumed = true then Job.transact ScanDb.clearFiles
    let publication ← walkPhase scanId config input
    match publication with
    | .cancelled => pure .cancelled
    | publication =>
      Job.transact (ScanDb.setStatus .hashing)
      hashAndFinish scanId config input signatureOf (some publication)
  else hashAndFinish scanId config input signatureOf none

/-- `scan_steps` behind `begin_scan`. -/
def firstRun (scanId : Int) (config : ScanConfig) (signatureOf : List (Bytes × Bytes) → Bytes)
    (input : RunInput) : Job ScanDb AppError ScanOutcome := do
  Job.transact ScanDb.ensureScanStats
  runPhases scanId config input signatureOf false

/-- `scan_steps` on a scan that is there: its roots are asked about again, and a finished one is
shown as it is. -/
def resume (scanId : Int) (config : ScanConfig) (signatureOf : List (Bytes × Bytes) → Bytes)
    (input : RunInput) : Job ScanDb AppError ScanOutcome := do
  Job.ofExcept ((ensureDisjoint input.roots config.walk.roots).mapError AppError.mk)
  Job.transact ScanDb.ensureScanStats
  let status ← Job.read fun db : ScanDb => .ok db.status
  if status.isCompleted = true then
    Job.transact (prepareLegacyForViewing scanId input.foundNothing)
    pure .completed
  else runPhases scanId config input signatureOf true

end Pipeline

end DedupCommando
