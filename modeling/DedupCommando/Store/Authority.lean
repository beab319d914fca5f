import DedupCommando.Lib.Grouping
import DedupCommando.Store.Tables

/-!
# The membership authority of a scan

One validation of everything a scan's published membership is made of, the snapshot that every
trusted answer is given from, and the witness a plan takes out of it.

* `GroupRow.offence`, `memberOffence`, `digestState` — the domains of the cells.
* `validateAuthority` — the whole-authority validation; the ranks whose declared count disagrees
  are carried out, anything else refuses.
* `Snapshot`, `membershipSnapshot`, `requireCurrent`, `memberPaths`, `witnessOf`.
-/

set_option autoImplicit false

namespace DedupCommando

open Sql (Value)

/-- Why a membership question has no answer. -/
inductive MembershipMiss where
  | noSuchScan
  | noSuchGroup
  | unknown
  | stale (expected found : Int)
  | inconsistent (detail : String)
  | store (detail : String)

/-! ## Cell domains -/

/-- `typeof(v) <> 'integer' OR v < 0` -/
def badCount (v : Value) : Bool :=
  match v with
  | .integer n => decide (n < 0)
  | _ => true

/-- `typeof(v) <> 'text' OR length(v) <> 64 OR v GLOB '*[^0-9a-f]*'`, on the text before a NUL. -/
def badHash (v : Value) : Bool :=
  match v with
  | .text b => !decide ((Sql.cText b).length = 64) ||
      (Sql.cText b).any fun c => !decide ((48 ≤ c.val ∧ c.val ≤ 57) ∨ (97 ≤ c.val ∧ c.val ≤ 102))
  | _ => true

/-- `typeof(v) <> 'integer' OR v NOT IN (0, 1, 2)` -/
def badReclaimState (v : Value) : Bool :=
  match v with
  | .integer n => !decide (n = 0 ∨ n = 1 ∨ n = 2)
  | _ => true

/-- The cells of a summary row in the order they are judged. -/
def GroupRow.cells (g : GroupRow) : List (String × Value × Bool) :=
  [("rank", g.rank, badCount g.rank), ("hash", g.hash, badHash g.hash),
   ("file_count", g.fileCount, badCount g.fileCount), ("size", g.size, badCount g.size),
   ("reclaim", g.reclaim, badCount g.reclaim),
   ("object_count", g.objectCount, badCount g.objectCount),
   ("reclaim_state", g.reclaimState, badReclaimState g.reclaimState)]

/-- The first cell out of its domain. -/
def GroupRow.offence (g : GroupRow) : Option (String × Value) :=
  (g.cells.find? fun c => c.2.2).map fun c => (c.1, c.2.1)

/-- `summary_cell` -/
def summaryCell (cell : String) (v : Value) : String :=
  match v with
  | .text b =>
    if cell = "hash" then
      s!"text of length {(Bytes.display b).length} that is not canonical lower-case hex"
    else authorityCell v
  | _ => authorityCell v

/-- `group_locator` -/
def groupLocator (rank : Value) (rowid : Int) : String :=
  match rank with
  | .integer n => if 0 ≤ n then s!"group rank {n}" else s!"group rowid {rowid}"
  | _ => s!"group rowid {rowid}"

/-- A member row whose cells are out of domain. -/
def memberOffence (m : MemberRow) : Bool :=
  (match m.path with
    | .text b => decide (b = [])
    | _ => true) ||
  badCount m.groupRank ||
  (match m.generation with
    | .integer _ => false
    | _ => true)

/-- The state of a manifest digest against the digest text of its group: NULL and a failed decode
    are settled before the comparison, which neither would fail. -/
def digestState (file : Option FileRow) (groupHash : Value) : Nat :=
  match file with
  | none => 0
  | some f =>
    match f.hash with
    | .null => 1
    | .blob d =>
      if d.length ≠ 32 then 3
      else
        match Sql.unhex groupHash with
        | .blob digest => if Value.differs (.blob d) (.blob digest) then 5 else 6
        | _ => 4
    | _ => 2

/-- What a healthy digest is. -/
theorem digestState_some {f : FileRow} {groupHash : Value} :
    digestState (some f) groupHash = 6 ↔
      ∃ d, f.hash = .blob d ∧ d.length = 32 ∧ Sql.unhex groupHash = .blob d := by
  unfold digestState
  simp only
  split
  · rename_i h; simp [h]
  · rename_i d h
    rw [h]
    split
    · rename_i hlen
      constructor
      · intro h36; exact absurd h36 (by decide)
      · rintro ⟨d', hd, hlen', -⟩
        cases hd; exact absurd hlen' hlen
    · rename_i hlen
      rcases Sql.unhex_eq groupHash with hu | ⟨b, hu⟩
      · simp [hu]
      · rw [hu]
        simp only [Value.differs_eq_not_same (a := .blob d) (b := .blob b) (by simp) (by simp)]
        by_cases hb : d = b
        · subst hb
          simp [Value.same_blob.2 rfl, not_not.1 hlen]
        · have hs : Value.same (.blob d) (.blob b) = false := by simp [Value.same, Value.key, hb]
          simp [hs, Ne.symm hb]
  · rename_i h₁ h₂
    constructor
    · intro h26; exact absurd h26 (by decide)
    · rintro ⟨d, hd, -⟩; exact absurd hd (h₂ d)

/-! ## The validation -/

/-- The members of a rank in explicit mode, and the manifest rows of a digest in derived mode. -/
def ScanTables.membersAt (t : ScanTables) (rank : Value) : List MemberRow :=
  t.member.filter fun m => Value.same m.groupRank rank

def ScanTables.filesAt (t : ScanTables) (path : Value) : List FileRow :=
  t.file.filter fun f => Value.same f.path path

def ScanTables.filesOf (t : ScanTables) (groupHash : Value) : List FileRow :=
  t.file.filter fun f => Value.same f.hash (Sql.unhex groupHash)

def ScanTables.groupsAt (t : ScanTables) (rank : Value) : List GroupRow :=
  t.fileGroup.filter fun g => Value.same g.rank rank

/-- The structural counters of explicit membership with what each of them counts, in order. -/
def explicitCounters (t : ScanTables) (generation : Int) : List (Nat × String) :=
  [((t.member.filter memberOffence).length, "member row(s) whose stored values are out of domain"),
   ((t.member.filter fun m => Value.differs m.generation (.integer generation)).length,
     "member row(s) of a generation other than the current publication"),
   ((t.member.flatMap fun m =>
      (Sql.outer (fun f => Value.same f.path m.path) t.file).filter fun f => f.all fun f =>
        decide (f.path = .null)).length,
     "member row(s) with no manifest row"),
   ((t.member.flatMap fun m =>
      (Sql.outer (fun g => Value.same g.rank m.groupRank) t.fileGroup).filter fun g => g.all fun g =>
        decide (g.rank = .null)).length,
     "member row(s) with no group summary"),
   (Sql.repeated (t.member.map MemberRow.path), "pathname(s) belonging to two ranks"),
   ((t.fileGroup.flatMap fun g =>
      (Sql.outer (fun m => Value.same m.groupRank g.rank) t.member).filter fun m => m.all fun m =>
        decide (m.path = .null)).length,
     "explicit group(s) with no members"),
   ((t.member.flatMap fun m => (t.groupsAt m.groupRank).flatMap fun g =>
      (t.filesAt m.path).filter fun f => !decide (digestState (some f) g.hash = 6)).length,
     "member row(s) whose manifest digest is not their group's own")]

/-- The mode's own structure. -/
def validateStructure (t : ScanTables) (scanId : Int) (mode : MembershipMode) (generation : Int) :
    Except MembershipMiss Unit :=
  match mode with
  | .unknown => .ok ()
  | .explicit =>
    match (explicitCounters t generation).find? fun c => !decide (c.1 = 0) with
    | some (count, what) => .error (.inconsistent s!"scan {scanId} holds {count} {what}")
    | none => .ok ()
  | .derived =>
    if t.member.length ≠ 0 then
      .error (.inconsistent (s!"scan {scanId} declares derived membership but holds " ++
        s!"{t.member.length} explicit member row(s)"))
    else if Sql.repeated (t.fileGroup.map GroupRow.hash) ≠ 0 then
      .error (.inconsistent (s!"scan {scanId} derives membership from digests but holds " ++
        s!"{Sql.repeated (t.fileGroup.map GroupRow.hash)} digest(s) naming two group summaries"))
    else .ok ()

/-- How many members a summary has by its mode's own relation. -/
def memberCount (t : ScanTables) (mode : MembershipMode) (g : GroupRow) : Nat :=
  match mode with
  | .explicit => (t.membersAt g.rank).length
  | _ => (t.filesOf g.hash).length

/-- A summary that declares another count than its membership holds. -/
def disagrees (t : ScanTables) (mode : MembershipMode) (g : GroupRow) : Bool :=
  Value.differs (.integer (memberCount t mode g)) g.fileCount

/-- The cells of a list, read one by one. -/
def getIntegers : List Value → Except String (List Int)
  | [] => .ok []
  | v :: vs =>
    match getInteger v with
    | .error e => .error e
    | .ok n =>
      match getIntegers vs with
      | .error e => .error e
      | .ok ns => .ok (n :: ns)

/-- `validate_authority`: the inconsistent ranks, ascending. -/
def validateAuthority (t : ScanTables) (scanId : Int) (mode : MembershipMode) (generation : Int) :
    Except MembershipMiss (List Int) :=
  if mode = .unknown then .ok []
  else
    -- Valid ranks sort first, so that the report does not depend on the damage.
    match (Sql.orderBy (fun g : GroupRow => toLex (badCount g.rank, toLex (g.rank.key, g.rowid)))
        (t.fileGroup.filter fun g => g.offence.isSome)).head? with
    | some g =>
      let cell := g.offence.getD ("reclaim_state", g.reclaimState)
      .error (.inconsistent (s!"file_group.{cell.1} holds {summaryCell cell.1 cell.2} for " ++
        groupLocator g.rank g.rowid ++ " — not in the domain this build can read. " ++
        "Nothing was written."))
    | none =>
      match validateStructure t scanId mode generation with
      | .error e => .error e
      | .ok () =>
        match getIntegers ((Sql.orderBy (fun g : GroupRow => g.rank.key)
            (t.fileGroup.filter fun g => disagrees t mode g)).map GroupRow.rank) with
        | .error e => .error (.store e)
        | .ok ranks => .ok (Grouping.keysOf id ranks)

/-! ## Snapshots -/

/-- One consistent read of a scan's membership. -/
structure Snapshot where
  tables : ScanTables
  scanId : Int
  mode : MembershipMode
  generation : Int
  inconsistentRanks : List Int

/-- `membership_snapshot`, with a validation of its own. -/
def membershipSnapshot (db : Database) (scanId : Int) : Except MembershipMiss Snapshot :=
  if db.hasScan scanId then
    let t := db.tables scanId
    let authority : Except MembershipMiss (MembershipMode × Int) :=
      match t.membership with
      | none => .ok (.unknown, 0)
      | some (mode, generation) =>
        match decodeAuthority mode generation with
        | .error detail => .error (.inconsistent detail)
        | .ok a => .ok a
    match authority with
    | .error e => .error e
    | .ok (mode, generation) =>
      match validateAuthority t scanId mode generation with
      | .error e => .error e
      | .ok ranks => .ok ⟨t, scanId, mode, generation, ranks⟩
  else .error .noSuchScan

namespace Snapshot

/-- `require_authority` -/
def requireAuthority (s : Snapshot) : Except MembershipMiss Unit :=
  if s.mode = .unknown then .error .unknown else .ok ()

/-- `require_consistent` -/
def requireConsistent (s : Snapshot) (rank : Int) : Except MembershipMiss Unit :=
  if rank ∈ s.inconsistentRanks then
    .error (.inconsistent (s!"group rank {rank} of scan {s.scanId} declares a member count its " ++
      "membership does not hold"))
  else .ok ()

/-- `require_current`: the one gate of every exact answer. -/
def requireCurrent (s : Snapshot) (id : GroupId) : Except MembershipMiss Unit :=
  match s.requireAuthority with
  | .error e => .error e
  | .ok () =>
    if id.scanId ≠ s.scanId ∨ id.rank < 0 then .error .noSuchGroup
    else if id.generation ≠ s.generation then .error (.stale id.generation s.generation)
    else s.requireConsistent id.rank

/-- Pathname cells as pathnames. -/
def readPaths : List Value → Except String (List Path)
  | [] => .ok []
  | v :: vs =>
    match getText v with
    | .error e => .error e
    | .ok b =>
      match Path.ofText b with
      | none => .error "a pathname with a NUL byte"
      | some p =>
        match readPaths vs with
        | .error e => .error e
        | .ok ps => .ok (p :: ps)

/-- The rows `member_paths` reads, in member order. -/
def memberRows (s : Snapshot) (rank : Int) : List FileRow :=
  match s.mode with
  | .explicit =>
    (Sql.orderBy (fun m : MemberRow => m.path.key) (s.tables.membersAt (.integer rank))).flatMap
      fun m => s.tables.filesAt m.path
  | _ =>
    Sql.orderBy (fun f : FileRow => f.path.key)
      ((s.tables.groupsAt (.integer rank)).flatMap fun g => s.tables.filesOf g.hash)

/-- `member_paths` without a limit. -/
def memberPaths (s : Snapshot) (id : GroupId) : Except MembershipMiss (List Path) :=
  match readPaths ((s.memberRows id.rank).map FileRow.path) with
  | .error e => .error (.store e)
  | .ok ps => .ok ps

/-- One identity's part of a witness. -/
def witnessGroup (s : Snapshot) (id : GroupId) : Except MembershipMiss GroupWitness :=
  match s.requireCurrent id with
  | .error e => .error e
  | .ok () =>
    match (s.tables.groupsAt (.integer id.rank)).head? with
    | none => .error .noSuchGroup
    | some g =>
      match getString g.hash with
      | .error e => .error (.store e)
      | .ok digest =>
        match s.memberPaths id with
        | .error e => .error e
        | .ok members => .ok ⟨id, digest, members⟩

def witnessGroups (s : Snapshot) : List GroupId → Except MembershipMiss (List GroupWitness)
  | [] => .ok []
  | id :: ids =>
    match s.witnessGroup id with
    | .error e => .error e
    | .ok g =>
      match s.witnessGroups ids with
      | .error e => .error e
      | .ok gs => .ok (g :: gs)

/-- `witness_of` -/
def witnessOf (s : Snapshot) (ids : List GroupId) : Except MembershipMiss PlanWitness :=
  match s.requireAuthority with
  | .error e => .error e
  | .ok () =>
    match s.witnessGroups ids with
    | .error e => .error e
    | .ok groups => .ok ⟨s.scanId, s.generation, groups⟩

end Snapshot

end DedupCommando
