import DedupCommando.Lib.Runs
import DedupCommando.Store.Authority

/-!
# The apply lease

The last gate of a destructive batch: the witness of its plan, compared with the live authority,
summaries and members.

* `explicitRows`, `derivedRows` — the two validation statements.
* `readExplicit`, `readDerived` — a row read column by column, with the refusals met on the way.
* `WitnessedRank`, `checkWitnessedRank` — one rank gathered and judged.
* `preflight`, `validateLeaseWitness`, `acquireMembershipLease`.
-/

set_option autoImplicit false

namespace DedupCommando

open Sql (Value)

/-- Why a lease was refused. -/
inductive LeaseRefusal where
  | databaseBusy
  | noSuchScan
  | unknown
  | stale (expected found : Int)
  | rankMissing (rank : Int)
  | digestChanged (rank : Int) (expected found : String)
  | memberCountChanged (rank : Int) (expected found : Nat)
  | membershipChanged (path : Bytes)
  | inconsistent (detail : String)
  | store (detail : String)

/-! ## The statements -/

/-- The columns of both statements.  The derived one has no `generation`, `has_manifest` and
    `digest_state`. -/
structure WitnessRow where
  rank : Int
  witnessDigest : String
  hash : Value
  fileCount : Value
  path : Value
  generation : Value
  hasManifest : Bool
  digestState : Nat

/-- The rows of one wanted rank under explicit membership. -/
def explicitRowsOf (t : ScanTables) (want : GroupWitness) : List WitnessRow :=
  (Sql.outer (fun g => Value.same g.rank (.integer want.id.rank)) t.fileGroup).flatMap fun g =>
    (Sql.outer (fun m => Value.same m.groupRank (.integer want.id.rank)) t.member).flatMap fun m =>
      (Sql.outer (fun f => Value.same f.path (cellOf MemberRow.path m)) t.file).map fun f =>
        { rank := want.id.rank
          witnessDigest := want.digest
          hash := cellOf GroupRow.hash g
          fileCount := cellOf GroupRow.fileCount g
          path := cellOf MemberRow.path m
          generation := cellOf MemberRow.generation m
          hasManifest := f.isSome
          digestState := digestState f (cellOf GroupRow.hash g) }

/-- The rows of one wanted rank under derived membership. -/
def derivedRowsOf (t : ScanTables) (want : GroupWitness) : List WitnessRow :=
  (Sql.outer (fun g => Value.same g.rank (.integer want.id.rank)) t.fileGroup).flatMap fun g =>
    (Sql.outer (fun f => Value.same f.hash (Sql.unhex (cellOf GroupRow.hash g))) t.file).map fun f =>
      { rank := want.id.rank
        witnessDigest := want.digest
        hash := cellOf GroupRow.hash g
        fileCount := cellOf GroupRow.fileCount g
        path := cellOf FileRow.path f
        generation := .null
        hasManifest := true
        digestState := 6 }

/-- A whole statement: every wanted rank, in the order of rank and pathname. -/
def witnessRows (rowsOf : GroupWitness → List WitnessRow) (wants : List GroupWitness) :
    List WitnessRow :=
  Sql.orderBy (fun r : WitnessRow => toLex (r.rank, r.path.key)) (wants.flatMap rowsOf)

/-- `COUNT(path) OVER (PARTITION BY want.rank)` -/
def observedAt (rows : List WitnessRow) (rank : Int) : Nat :=
  (rows.filter fun r => decide (r.rank = rank ∧ r.path ≠ .null)).length

/-! ## Reading a row -/

/-- A row as it has been read. -/
structure ReadRow where
  rank : Int
  witnessDigest : String
  currentDigest : Option String
  declaredCount : Option Int
  memberPath : Option Bytes
  memberGeneration : Option Int
  observed : Nat
  digestState : Nat

/-- The columns that both statements begin with. -/
def readColumns (observed : Nat) (r : WitnessRow) : Except String ReadRow :=
  match getOptString r.hash with
  | .error e => .error e
  | .ok currentDigest =>
    match getOptInteger r.fileCount with
    | .error e => .error e
    | .ok declaredCount =>
      match getOptText r.path with
      | .error e => .error e
      | .ok memberPath =>
        match getOptInteger r.generation with
        | .error e => .error e
        | .ok memberGeneration =>
          .ok ⟨r.rank, r.witnessDigest, currentDigest, declaredCount, memberPath, memberGeneration,
            observed, r.digestState⟩

/-- A row of the explicit statement. -/
def readExplicit (observed : Int → Nat) (duplicated : Nat) (r : WitnessRow) :
    Except LeaseRefusal ReadRow :=
  match readColumns (observed r.rank) r with
  | .error e => .error (.store e)
  | .ok row =>
    if row.memberPath.isSome ∧ r.hasManifest = false then
      .error (.inconsistent (s!"rank {r.rank} carries member " ++
        terminal (Bytes.display (row.memberPath.getD [])) ++ " with no manifest row"))
    else if duplicated ≠ 0 then
      .error (.inconsistent s!"the scan holds {duplicated} pathname(s) belonging to two ranks")
    else .ok row

/-- A row of the derived statement. -/
def readDerived (observed : Int → Nat) (duplicateDigests : Nat) (r : WitnessRow) :
    Except LeaseRefusal ReadRow :=
  match readColumns (observed r.rank) r with
  | .error e => .error (.store e)
  | .ok row =>
    if duplicateDigests ≠ 0 then
      .error (.inconsistent (s!"derived authority holds {duplicateDigests} digest(s) naming two " ++
        "group summaries"))
    else .ok row

/-! ## One rank -/

/-- One witnessed rank as its rows said it. -/
structure WitnessedRank where
  rank : Int
  witnessDigest : String
  currentDigest : Option String
  members : List (Bytes × Option Int × Nat)
  declaredCount : Option Int
  observed : Nat

/-- A rank opened by its first row. -/
def WitnessedRank.start (r : ReadRow) : WitnessedRank :=
  ⟨r.rank, r.witnessDigest, r.currentDigest, [], r.declaredCount, r.observed⟩

/-- A row joins its rank. -/
def WitnessedRank.push (w : WitnessedRank) (r : ReadRow) : WitnessedRank :=
  match r.memberPath with
  | some path => { w with members := w.members ++ [(path, r.memberGeneration, r.digestState)] }
  | none => w

/-- What is wrong with a member's live digest. -/
def wrongDigest (state : Nat) : Option String :=
  match state with
  | 1 => some "no digest"
  | 2 => some "a digest that is not a blob"
  | 3 => some "a digest of the wrong length"
  | 4 => some "a group digest that does not decode"
  | 5 => some "a digest that is not this group's"
  | _ => none

/-- The judgement of one live member, in its order. -/
def memberRefusal (group : GroupWitness) (generation : Option Int) (rank : Int)
    (m : Bytes × Option Int × Nat) : Option LeaseRefusal :=
  if !group.members.any fun p => decide (Path.ofText m.1 = some p) then
    some (.membershipChanged m.1)
  else
    let stale := match generation, m.2.1 with
      | some expected, some found => if found ≠ expected then some (expected, found) else none
      | _, _ => none
    match stale with
    | some (expected, found) =>
      some (.inconsistent (s!"rank {rank} carries a member of generation {found} under authority " ++
        s!"generation {expected}"))
    | none =>
      (wrongDigest m.2.2).map fun what =>
        .inconsistent (s!"rank {rank} carries member " ++ terminal (Bytes.display m.1) ++
          " with " ++ what)

/-- `check_witnessed_rank`, in the frozen order of its refusals. -/
def checkWitnessedRank (groups : List GroupWitness) (generation : Option Int)
    (checked : WitnessedRank) : Except LeaseRefusal Unit :=
  match groups.find? fun g => decide (g.id.rank = checked.rank) with
  | none => .error (.inconsistent s!"validation returned unwitnessed rank {checked.rank}")
  | some group =>
    match checked.currentDigest with
    | none =>
      if checked.members = [] then .error (.rankMissing checked.rank)
      else .error (.inconsistent s!"rank {checked.rank} has member rows but no summary row")
    | some currentDigest =>
      if currentDigest ≠ checked.witnessDigest then
        .error (.digestChanged checked.rank checked.witnessDigest currentDigest)
      else if checked.declaredCount.getD (-1) ≠ checked.observed then
        .error (.inconsistent (s!"rank {checked.rank} declares {checked.declaredCount.getD (-1)} " ++
          s!"members while its membership holds {checked.observed}"))
      else if checked.observed ≠ group.members.length then
        .error (.memberCountChanged checked.rank group.members.length checked.observed)
      else
        match checked.members.findSome? (memberRefusal group generation checked.rank) with
        | some refusal => .error refusal
        | none =>
          match group.members.find? fun p =>
              !checked.members.any fun m => decide (Path.ofText m.1 = some p) with
          | some p => .error (.membershipChanged p.bytes)
          | none => .ok ()

/-! ## The lease -/

/-- `stream_witnessed_ranks` over the rows of one statement. -/
def witnessLoop (read : WitnessRow → Except LeaseRefusal ReadRow)
    (check : WitnessedRank → Except LeaseRefusal Unit) :
    RunLoop WitnessRow ReadRow WitnessedRank Int LeaseRefusal where
  key := WitnessRow.rank
  read := read
  start := WitnessedRank.start
  push := WitnessedRank.push
  close := check

def streamWitnessedRanks (witness : PlanWitness) (generation : Option Int)
    (read : WitnessRow → Except LeaseRefusal ReadRow) (rows : List WitnessRow) :
    Except LeaseRefusal Unit :=
  match (witnessLoop read (checkWitnessedRank witness.groups generation)).loop none 0 rows with
  | .error e => .error e
  | .ok seen =>
    if seen ≠ witness.groups.length then
      .error (.inconsistent (s!"validation covered {seen} of {witness.groups.length} witnessed " ++
        "ranks"))
    else .ok ()

/-- `validate_explicit_witness` -/
def validateExplicitWitness (t : ScanTables) (witness : PlanWitness) (generation : Int) :
    Except LeaseRefusal Unit :=
  let rows := witnessRows (explicitRowsOf t) witness.groups
  streamWitnessedRanks witness (some generation)
    (readExplicit (observedAt rows) (Sql.repeated (t.member.map MemberRow.path))) rows

/-- `validate_derived_witness` -/
def validateDerivedWitness (t : ScanTables) (witness : PlanWitness) : Except LeaseRefusal Unit :=
  let rows := witnessRows (derivedRowsOf t) witness.groups
  match streamWitnessedRanks witness none
      (readDerived (observedAt rows) (Sql.repeated (t.fileGroup.map GroupRow.hash))) rows with
  | .error e => .error e
  | .ok () =>
    if t.member ≠ [] then .error (.inconsistent "derived authority with explicit member rows")
    else .ok ()

/-- `validate_lease_witness` -/
def validateLeaseWitness (db : Database) (witness : PlanWitness) : Except LeaseRefusal Unit :=
  if db.hasScan witness.scanId then
    let t := db.tables witness.scanId
    match t.membership with
    | none => .error .unknown
    | some (mode, generation) =>
      match decodeAuthority mode generation with
      | .error detail => .error (.inconsistent detail)
      | .ok (mode, generation) =>
        if generation ≠ witness.generation then
          .error (.stale witness.generation generation)
        else
          match mode with
          | .explicit => validateExplicitWitness t witness generation
          | _ => validateDerivedWitness t witness
  else .error .noSuchScan

/-- The witness on its own, group by group, with the ranks that have been seen. -/
def preflightFrom (witness : PlanWitness) (ranks : List Int) :
    List GroupWitness → Option LeaseRefusal
  | [] => none
  | g :: gs =>
    if g.id.scanId ≠ witness.scanId then
      some (.inconsistent (s!"witnessed rank {g.id.rank} belongs to scan {g.id.scanId}, not scan " ++
        s!"{witness.scanId}"))
    else if g.id.generation ≠ witness.generation then
      some (.inconsistent (s!"witnessed rank {g.id.rank} carries generation {g.id.generation}, " ++
        s!"the witness {witness.generation}"))
    else if g.id.rank < 0 then
      some (.inconsistent s!"witnessed rank {g.id.rank} is negative")
    else if g.id.rank ∈ ranks then
      some (.inconsistent s!"rank {g.id.rank} is witnessed twice")
    else if g.members = [] then
      some (.inconsistent s!"witnessed rank {g.id.rank} carries no members")
    else preflightFrom witness (g.id.rank :: ranks) gs

def preflight (witness : PlanWitness) : Option LeaseRefusal :=
  if witness.groups = [] then some (.inconsistent "the witness carries no groups")
  else preflightFrom witness [] witness.groups

/-- `acquire_membership_lease`; `begin` is what the attempt to take the write lock refuses with. -/
def acquireMembershipLease (begin : Option LeaseRefusal) (db : Database) (witness : PlanWitness) :
    Except LeaseRefusal Unit :=
  match preflight witness with
  | some refusal => .error refusal
  | none =>
    match begin with
    | some refusal => .error refusal
    | none => validateLeaseWitness db witness

end DedupCommando
