import DedupCommando.Lib.Chunks
import DedupCommando.Store.Authority
import DedupCommando.Store.Marks
import DedupCommando.Store.DuplicateGroups

/-!
# The auto-select sweep

`run_sweep` of the browsing actor: every group of a publication keeps its newest file and marks
the others for deletion, a chunk of groups at a time.

* `readSummary`, `summaryIds`, `Snapshot.group` — the readers it stands on.
* `pickKeeper`, `markMembers` — the marks of one group.
* `SweepFaults` — where the sweep is stopped and which of its reads and writes fail.
* `sweepChunks`, `runSweep`, `autoSelect` — the loop over the chunks and what is reported.
-/

set_option autoImplicit false

namespace DedupCommando

open Sql (Value)

/-! ## Readers -/

/-- The rank and the declared count of a summary row, once every cell of it was read. -/
def readSummary (g : GroupRow) : Except MembershipMiss (Int × Nat) :=
  let cells : Except String (Int × Int × Int × Int) :=
    match getInteger g.rank, getString g.hash, getInteger g.fileCount, getInteger g.size with
    | .error e, _, _, _ => .error e
    | .ok _, .error e, _, _ => .error e
    | .ok _, .ok _, .error e, _ => .error e
    | .ok _, .ok _, .ok _, .error e => .error e
    | .ok rank, .ok _, .ok count, .ok _ =>
      match getInteger g.objectCount, getInteger g.reclaim, getInteger g.reclaimState with
      | .error e, _, _ => .error e
      | .ok _, .error e, _ => .error e
      | .ok _, .ok _, .error e => .error e
      | .ok _, .ok reclaim, .ok state => .ok (rank, count, reclaim, state)
  match cells with
  | .error e => .error (.store e)
  | .ok (rank, count, reclaim, state) =>
    match ReclaimEstimate.fromPersisted reclaim state with
    | .error e => .error (.inconsistent e.message)
    | .ok _ => .ok (rank, castU64 count)

def readSummaries : List GroupRow → Except MembershipMiss (List (Int × Nat))
  | [] => .ok []
  | g :: gs =>
    match readSummary g with
    | .error e => .error e
    | .ok summary =>
      match readSummaries gs with
      | .error e => .error e
      | .ok summaries => .ok (summary :: summaries)

/-- A `GROUP_FILE_COLUMNS` row: a link count that cannot be read is unknown here. -/
def groupFileRow (scanId : Int) (marks : List MarkRow) (f : FileRow) : Except String MarkedEntry :=
  let mark := marks.find? fun m => decide (m.scanId = scanId) && Value.same m.path f.path
  match getText f.path, getInteger f.size with
  | .error e, _ => .error e
  | .ok _, .error e => .error e
  | .ok path, .ok size =>
    match getOptInteger (cellOf MarkRow.isKeeper mark), getOptText (cellOf MarkRow.action mark) with
    | .error e, _ => .error e
    | .ok _, .error e => .error e
    | .ok keeper, .ok action =>
      .ok
        { path := path
          size := castU64 size
          mtime := f.mtime
          mtimeNsec := f.mtimeNsec
          ctimeSec := f.ctimeSec
          ctimeNsec := f.ctimeNsec
          device := castU64 f.device
          inode := castU64 f.inode
          nlink := (match linkCountFromSql f.nlink with
            | .ok n => n
            | .error _ => .unknown).toU64
          isKeeper := decide (keeper.getD 0 ≠ 0)
          action := action.bind ActionKind.parse }

def groupFileRows (scanId : Int) (marks : List MarkRow) :
    List FileRow → Except String (List MarkedEntry)
  | [] => .ok []
  | f :: fs =>
    match groupFileRow scanId marks f with
    | .error e => .error e
    | .ok entry =>
      match groupFileRows scanId marks fs with
      | .error e => .error e
      | .ok entries => .ok (entry :: entries)

namespace Snapshot

/-- The identities `summaries` lists, in rank order. -/
def summaryIds (s : Snapshot) : Except MembershipMiss (List GroupId) :=
  match s.requireAuthority with
  | .error e => .error e
  | .ok () =>
    match readSummaries (Sql.orderBy (fun g : GroupRow => g.rank.key) s.tables.fileGroup) with
    | .error e => .error e
    | .ok summaries => .ok (summaries.map fun r => ⟨s.scanId, r.1, s.generation⟩)

/-- `group`: the members of an identity of the current publication, with their marks. -/
def group (s : Snapshot) (marks : List MarkRow) (id : GroupId) :
    Except MembershipMiss (List MarkedEntry) :=
  match s.requireCurrent id with
  | .error e => .error e
  | .ok () =>
    match (s.tables.groupsAt (.integer id.rank)).head? with
    | none => .error .noSuchGroup
    | some g =>
      match readSummary g with
      | .error e => .error e
      | .ok (_, declared) =>
        match groupFileRows s.scanId marks (s.memberRows id.rank) with
        | .error e => .error (.store e)
        | .ok members =>
          if members.length ≠ declared then
            .error (.inconsistent (s!"group rank {id.rank} returned {members.length} members " ++
              s!"against a declared {declared}"))
          else .ok members

end Snapshot

/-! ## The marks of one group -/

/-- The first file is the greater one: it is newer, or as new with a shorter pathname. -/
def keeperBefore (a b : MarkedEntry) : Bool :=
  decide (b.mtime < a.mtime ∨ (a.mtime = b.mtime ∧ a.path.length < b.path.length))

/-- `pick_keeper`: `max_by` keeps the last of the greatest. -/
def pickKeeper (files : List MarkedEntry) : Nat :=
  match files.zipIdx with
  | [] => 0
  | first :: rest => (rest.foldl (fun x y => if keeperBefore x.1 y.1 then x else y) first).2

/-- The members of one group with the marks of the sweep. -/
def markMembers (members : List MarkedEntry) : List MarkedEntry :=
  let keeper := pickKeeper members
  members.zipIdx.map fun m =>
    { m.1 with
      isKeeper := decide (m.2 = keeper)
      action := if m.2 = keeper then none else some .delete }

/-! ## The sweep -/

/-- `SweepFailure` -/
inductive SweepFailure where
  | snapshot (miss : MembershipMiss)
  | read (rank : Int) (miss : MembershipMiss)
  | write (error : MarkWriteError)

/-- What stops a sweep, and which of its calls fail; calls are counted by chunk. -/
structure SweepFaults where
  stop : Nat → Bool
  summaries : Option MembershipMiss
  snapshot : Nat → Option MembershipMiss
  read : GroupId → Option MembershipMiss
  write : Nat → Option MarkWriteError

/-- `SweepEnd` -/
inductive SweepEnd where
  | unknown
  | done (groups marks : Nat)
  | cancelledEarly
  | cancelledAfter (groups : Nat) (lastRank : Int)
  | failed (committed : Option (Nat × Int)) (failure : SweepFailure)

/-- The counters of the loop. -/
structure SweepProgress where
  committedGroups : Nat
  lastRank : Int
  marks : Nat

namespace SweepProgress

def start : SweepProgress := ⟨0, 0, 0⟩

/-- `committed_so_far` -/
def committedSoFar (p : SweepProgress) : Option (Nat × Int) :=
  if p.committedGroups = 0 then none else some (p.committedGroups, p.lastRank)

/-- The end of a stopped sweep. -/
def cancelled (p : SweepProgress) : SweepEnd :=
  match p.committedSoFar with
  | none => .cancelledEarly
  | some (groups, rank) => .cancelledAfter groups rank

/-- One chunk is durable. -/
def commit (p : SweepProgress) (chunk : List GroupId) (marks : Nat) : SweepProgress :=
  { committedGroups := p.committedGroups + chunk.length
    lastRank := (chunk.getLast?.map GroupId.rank).getD p.lastRank
    marks := p.marks + marks }

end SweepProgress

/-- A read under a fault of its own. -/
def orFault {α : Type} (fault : Option MembershipMiss) (read : Except MembershipMiss α) :
    Except MembershipMiss α :=
  match fault with
  | some miss => .error miss
  | none => read

/-- The read half of a chunk: its marked members, group after group. -/
def gatherChunk (s : Snapshot) (rows : List MarkRow) (fault : GroupId → Option MembershipMiss) :
    List GroupId → Except SweepFailure (List MarkedEntry)
  | [] => .ok []
  | id :: ids =>
    match orFault (fault id) (s.group rows id) with
    | .error miss => .error (.read id.rank miss)
    | .ok members =>
      match gatherChunk s rows fault ids with
      | .error e => .error e
      | .ok batch => .ok (markMembers members ++ batch)

/-- The loop over the chunks from number `index` on. -/
def sweepChunks (db : Database) (faults : SweepFaults) (scanId : Int) :
    Nat → SweepProgress → List (List GroupId) → List MarkRow → SweepEnd × List MarkRow
  | _, p, [], rows => (.done p.committedGroups p.marks, rows)
  | index, p, chunk :: chunks, rows =>
    if faults.stop index then (p.cancelled, rows)
    else
      match orFault (faults.snapshot index) (membershipSnapshot db scanId) with
      | .error miss => (.failed p.committedSoFar (.snapshot miss), rows)
      | .ok s =>
        match gatherChunk s rows faults.read chunk with
        | .error failure => (.failed p.committedSoFar failure, rows)
        | .ok batch =>
          match saveMarksSettled (faults.write index) scanId (db.tables scanId).file batch rows with
          | (.error e, rows) => (.failed p.committedSoFar (.write e), rows)
          | (.ok _, rows) =>
            sweepChunks db faults scanId (index + 1)
              (p.commit chunk (batch.countP fun f => f.action.isSome)) chunks rows

/-- `SAVE_CHUNK_GROUPS` -/
def saveChunkGroups : Nat := 500

/-- `run_sweep` -/
def runSweep (db : Database) (faults : SweepFaults) (scanId : Int) (rows : List MarkRow) :
    SweepEnd × List MarkRow :=
  match orFault faults.summaries (membershipSnapshot db scanId) with
  | .error miss => (.failed none (.snapshot miss), rows)
  | .ok s =>
    if s.mode = .unknown then (.unknown, rows)
    else
      match s.summaryIds with
      | .error miss => (.failed none (.snapshot miss), rows)
      | .ok ids =>
        sweepChunks db faults scanId 0 .start (Chunks.chunks (saveChunkGroups - 1) ids) rows

/-! ## The report -/

/-- Why a sweep that committed nothing refused. -/
inductive AutoSelectRefusal where
  | unknown
  | cancelledBeforeFirstCommit
  | pathChanged (detail : String)
  | firstChunk (error : MarkWriteError)
  | snapshot (miss : MembershipMiss)
  | read (rank : Int) (miss : MembershipMiss)

/-- `AutoSelectOutcome`; a partial sweep without a cause was cancelled by the operator. -/
inductive AutoSelectOutcome where
  | completed (groups marks : Nat)
  | partialSweep (committedGroups : Nat) (lastCommittedRank : Int) (cause : Option SweepFailure)
  | refused (refusal : AutoSelectRefusal)

/-- `auto_select_failed` -/
def autoSelectFailed (committed : Option (Nat × Int)) (failure : SweepFailure) :
    AutoSelectOutcome :=
  match committed with
  | some (groups, rank) => .partialSweep groups rank (some failure)
  | none =>
    .refused (match failure with
      | .write (.pathChanged detail) => .pathChanged detail
      | .write error => .firstChunk error
      | .snapshot miss => .snapshot miss
      | .read rank miss => .read rank miss)

/-- What `auto_select` emits for the end of its sweep. -/
def SweepEnd.outcome : SweepEnd → AutoSelectOutcome
  | unknown => .refused .unknown
  | done groups marks => .completed groups marks
  | cancelledEarly => .refused .cancelledBeforeFirstCommit
  | cancelledAfter groups lastRank => .partialSweep groups lastRank none
  | failed committed failure => autoSelectFailed committed failure

/-- `auto_select` past its gate: the report, and the marks that are durable at the end. -/
def autoSelect (db : Database) (faults : SweepFaults) (scanId : Int) (rows : List MarkRow) :
    AutoSelectOutcome × List MarkRow :=
  match runSweep db faults scanId rows with
  | (sweepEnd, rows) => (sweepEnd.outcome, rows)

end DedupCommando
