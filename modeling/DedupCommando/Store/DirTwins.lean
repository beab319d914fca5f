import DedupCommando.Model.OmissionCells
import DedupCommando.Store.DuplicateGroups
import DedupCommando.Store.OmissionLedger

/-!
# Directory twins

The stored twin directories of a scan, and the readers that judge every row again by the ledger as
it stands.

* `DirRow` — a row of `dir_dedup`.
* `completenessSnapshot`, `attributionContext` — what a stored pathname is judged by;
  `dispositionOfText_spell` says that it is what the directory itself is judged by.
* `attributedDirGroupSummaries`, `attributedDirGroup`, `attributedDirGroupAt` — the list of the
  twins, one group by its signature, and the group of a directory.
-/

set_option autoImplicit false

namespace DedupCommando

open Checked
open Sql (Value)

/-- A row of `dir_dedup`. -/
structure DirRow where
  signature : Value
  path : Value
  fileCount : Value
  sizePerDir : Value

/-- What the twin readers read of one scan: its ledger and its stored directories. -/
structure DirTables where
  ledger : OmissionLedger
  dirs : List DirRow

/-! ## What a stored pathname is judged by -/

namespace CompletenessSnapshot

/-- `owning_root` of the pathname with these components. -/
def owningRootOf (snap : CompletenessSnapshot) (key : PathKey) : Option PathKey :=
  snap.configured.find? fun root => root.segments.isPrefixOf key.segments

/-- `disposition` of a pathname given as a string. -/
def dispositionOfText (snap : CompletenessSnapshot) (raw : Bytes) : DirDisposition :=
  match PathKey.ofText raw with
  | none => .untrusted
  | some key =>
    match snap.owningRootOf key with
    | none => .untrusted
    | some root =>
      if ¬ snap.trustedRoot root then .untrusted
      else if snap.omittedAtOrUnder root key then .suppressed
      else .trusted

/-- A keyable directory and its stored spelling are judged alike. -/
theorem dispositionOfText_spell (snap : CompletenessSnapshot) {path : Path} {key : PathKey}
    (h : PathKey.new path = some key) : snap.dispositionOfText key.asStr = snap.disposition path := by
  have hroot : snap.owningRootOf key = snap.owningRoot path := by
    unfold owningRootOf owningRoot
    refine congrArg (List.find? · snap.configured) (funext fun root => ?_)
    rw [Bool.eq_iff_iff, startsWithKey_iff h, PathKey.isAtOrUnder_iff, List.isPrefixOf_iff_prefix]
  unfold dispositionOfText disposition
  cases hown : snap.owningRoot path <;> simp only [PathKey.ofText_asStr, h, hroot, hown]

end CompletenessSnapshot

/-- `completeness_snapshot_tx` -/
def completenessSnapshot (l : OmissionLedger) : Except String SnapshotOutcome :=
  match l.config with
  | none => .error "the scan's configuration cannot be read"
  | some roots => CompletenessSnapshot.build roots l.roots l.omissions

/-- `attribution_context`: nothing is trusted where the configuration carries no authority. -/
def attributionContext : SnapshotOutcome → Bytes → DirDisposition
  | .bounded snap, raw => snap.dispositionOfText raw
  | .unavailable _, _ => .untrusted

inductive DirTrust where
  | trusted
  | untrusted
  deriving DecidableEq

/-- `member_trust_of`: a suppressed member has none. -/
def memberTrustOf (ctx : Bytes → DirDisposition) (path : Bytes) : Option DirTrust :=
  match ctx path with
  | .suppressed => none
  | .trusted => some .trusted
  | .untrusted => some .untrusted

/-! ## Summaries -/

structure AttributedDirGroupSummary where
  rank : Nat
  signature : Bytes
  dirCount : Nat
  fileCount : Nat
  sizePerDir : Nat
  trust : DirTrust

/-- `reclaim_bytes`, saturating. -/
def AttributedDirGroupSummary.reclaimBytes (s : AttributedDirGroupSummary) : Nat :=
  min (s.sizePerDir * (s.dirCount - 1)) (2 ^ 64 - 1)

structure AttributedDirGroupSummaries where
  groups : List AttributedDirGroupSummary
  trustedReclaimTotal : Nat
  unverifiedGroups : Nat

/-- What the readers take of one row. -/
structure DirEntry where
  signature : Bytes
  path : Bytes
  fileCount : Nat
  sizePerDir : Nat

/-- A signed word of 64 bits cut to an unsigned one of 32. -/
def castU32 (n : Int) : Nat := (n % 2 ^ 32).toNat

def readDirRow (r : DirRow) : Except String DirEntry :=
  match getText r.signature with
  | .error e => .error e
  | .ok signature =>
    match getText r.path with
    | .error e => .error e
    | .ok path =>
      match getInteger r.fileCount with
      | .error e => .error e
      | .ok fileCount =>
        match getInteger r.sizePerDir with
        | .error e => .error e
        | .ok sizePerDir => .ok ⟨signature, path, castU32 fileCount, castU64 sizePerDir⟩

def readDirRows : List DirRow → Except String (List DirEntry)
  | [] => .ok []
  | r :: rs =>
    match readDirRow r with
    | .error e => .error e
    | .ok entry =>
      match readDirRows rs with
      | .error e => .error e
      | .ok entries => .ok (entry :: entries)

/-- The rows of one signature, as far as they have been folded. -/
structure SignatureRun where
  signature : Bytes
  fileCount : Nat
  sizePerDir : Nat
  survivors : Nat
  anyUntrusted : Bool

/-- A run that has just been opened. -/
def SignatureRun.opened (e : DirEntry) : SignatureRun :=
  ⟨e.signature, e.fileCount, e.sizePerDir, 0, false⟩

/-- One more row of the run; the survivors are counted in 32 bits. -/
def SignatureRun.take (ctx : Bytes → DirDisposition) (run : SignatureRun) (e : DirEntry) :
    SignatureRun :=
  match memberTrustOf ctx e.path with
  | none => run
  | some .trusted => { run with survivors := (run.survivors + 1) % 2 ^ 32 }
  | some .untrusted =>
    { run with survivors := (run.survivors + 1) % 2 ^ 32, anyUntrusted := true }

/-- A closed run is a group while two of its members survive. -/
def SignatureRun.flush : Option SignatureRun → List AttributedDirGroupSummary
  | none => []
  | some run =>
    if 2 ≤ run.survivors then
      [{ rank := 0
         signature := run.signature
         dirCount := run.survivors
         fileCount := run.fileCount
         sizePerDir := run.sizePerDir
         trust := if run.anyUntrusted then .untrusted else .trusted }]
    else []

/-- One row: it joins the open run when it has its signature, and opens one otherwise. -/
def foldRow (ctx : Bytes → DirDisposition)
    (state : List AttributedDirGroupSummary × Option SignatureRun) (e : DirEntry) :
    List AttributedDirGroupSummary × Option SignatureRun :=
  match state.2 with
  | some run =>
    if run.signature = e.signature then (state.1, some (run.take ctx e))
    else (state.1 ++ SignatureRun.flush state.2, some ((SignatureRun.opened e).take ctx e))
  | none => (state.1, some ((SignatureRun.opened e).take ctx e))

/-- The groups that the rows of all signatures make, in the order of the rows. -/
def summariesOf (ctx : Bytes → DirDisposition) (entries : List DirEntry) :
    List AttributedDirGroupSummary :=
  let state := entries.foldl (foldRow ctx) ([], none)
  state.1 ++ SignatureRun.flush state.2

/-- The checked sum over the trusted groups. -/
def trustedTotal : Nat → List AttributedDirGroupSummary → Except String Nat
  | total, [] => .ok total
  | total, group :: groups =>
    match group.trust with
    | .untrusted => trustedTotal total groups
    | .trusted =>
      match checkedAdd 64 total group.reclaimBytes with
      | none => .error "the trusted reclaim total overflowed while aggregating"
      | some total => trustedTotal total groups

/-- By benefit, the largest first, and then by signature. -/
def byBenefit (groups : List AttributedDirGroupSummary) : List AttributedDirGroupSummary :=
  groups.insertionSort fun a b =>
    b.reclaimBytes < a.reclaimBytes ∨ b.reclaimBytes = a.reclaimBytes ∧ a.signature ≤ b.signature

/-- `attributed_dir_group_summaries_tx` -/
def attributedDirGroupSummaries (t : DirTables) : Except String AttributedDirGroupSummaries :=
  match completenessSnapshot t.ledger with
  | .error e => .error e
  | .ok outcome =>
    match readDirRows
        (Sql.orderBy (fun r : DirRow => toLex (r.signature.key, r.path.key)) t.dirs) with
    | .error e => .error e
    | .ok entries =>
      let groups := byBenefit (summariesOf (attributionContext outcome) entries)
      match trustedTotal 0 groups with
      | .error e => .error e
      | .ok total =>
        .ok { groups := groups.mapIdx fun i g => { g with rank := (i + 1) % 2 ^ 32 }
              trustedReclaimTotal := total
              unverifiedGroups := (groups.filter fun g => decide (g.trust = .untrusted)).length }

/-! ## One group -/

structure DirGroup where
  signature : Bytes
  paths : List Bytes
  fileCount : Nat
  sizePerDir : Nat

structure AttributedDirGroup where
  group : DirGroup
  memberTrust : List DirTrust
  trust : DirTrust

/-- The members of a group that the ledger leaves, with their trust. -/
def membersOf (ctx : Bytes → DirDisposition) (entries : List DirEntry) : List (Bytes × DirTrust) :=
  entries.filterMap fun e => (memberTrustOf ctx e.path).map fun trust => (e.path, trust)

/-- The group that the rows of one signature make, headed by the first of them. -/
def groupOf (ctx : Bytes → DirDisposition) (entries : List DirEntry) : Option AttributedDirGroup :=
  match entries with
  | [] => none
  | header :: _ =>
    let members := membersOf ctx entries
    if members.length < 2 then none
    else some {
      group := ⟨header.signature, members.map Prod.fst, header.fileCount, header.sizePerDir⟩
      memberTrust := members.map Prod.snd
      trust := if members.all fun m => decide (m.2 = .trusted) then .trusted else .untrusted }

/-- The rows of one signature, in the order of their pathnames. -/
def signatureRows (dirs : List DirRow) (signature : Value) : List DirRow :=
  Sql.orderBy (fun r : DirRow => r.path.key) (dirs.filter fun r => Value.same r.signature signature)

/-- `attributed_dir_group_tx` -/
def attributedDirGroup (t : DirTables) (signature : Bytes) :
    Except String (Option AttributedDirGroup) :=
  match completenessSnapshot t.ledger with
  | .error e => .error e
  | .ok outcome =>
    match readDirRows (signatureRows t.dirs (.text signature)) with
    | .error e => .error e
    | .ok entries => .ok (groupOf (attributionContext outcome) entries)

/-- The scalar subquery: the signature of the first row the engine finds, or NULL. -/
def signatureAt (dirs : List DirRow) (cursor : Bytes) : Value :=
  cellOf DirRow.signature (dirs.find? fun r => Value.same r.path (.text cursor))

/-- `attributed_dir_group_at_tx` of a directory by its name. -/
def attributedDirGroupAt (t : DirTables) (dir : Bytes) : Except String (Option AttributedDirGroup) :=
  match completenessSnapshot t.ledger with
  | .error e => .error e
  | .ok outcome =>
    match readDirRows (signatureRows t.dirs (signatureAt t.dirs dir)) with
    | .error e => .error e
    | .ok entries =>
      let ctx := attributionContext outcome
      -- A cursor that the ledger suppresses is a member of nothing.
      if (membersOf ctx entries).any fun m => decide (pathOrder m.1 = pathOrder dir) then
        .ok (groupOf ctx entries)
      else .ok none

end DedupCommando
