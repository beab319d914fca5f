import DedupCommando.Store.Authority
import DedupCommando.Text

/-!
# The file half of a panel

What the panels and the file-info surface read of a pathname from one snapshot (`state/store.rs`).

* `PathBuf` — a pathname as it is asked for, by its spelling; two of them are equal when their
  components are, and a map is keyed by those.
* `groupOfPath`, `fileInfo` — one pathname alone.
* `panelFiles` — a batch: the three statements and the loops over their rows.
-/

set_option autoImplicit false

namespace DedupCommando

open Sql (Value)

/-- `PathBuf`: a spelling without NUL. -/
structure PathBuf where
  raw : Bytes
  plain : (0 : Byte) ∉ raw
  deriving DecidableEq

/-- `PathBuf::from` a text: what a map is keyed by. -/
def pathOf (text : Bytes) : Path := (Path.ofText text).getD []

namespace PathBuf

/-- `to_string_lossy` -/
def text (p : PathBuf) : Bytes := lossyUtf8 p.raw

def path (p : PathBuf) : Path := pathOf p.raw

end PathBuf

/-! ## The answers -/

inductive PanelMiss where
  | unknown
  | inconsistent (detail : String)

inductive PanelFileStatus where
  | notInScan
  | notHashed
  | likelyBySizeMtime (peers : Nat)
  | inGroup (id : GroupId) (members distinctDevices : Nat)
  | notGrouped
  | unavailable (miss : PanelMiss)

structure PanelFile where
  status : PanelFileStatus
  hashText : Option Bytes

structure FileGroupInfo where
  id : GroupId
  peers : List Path
  total : Nat
  truncated : Bool

inductive FileMembership where
  | notGrouped
  | inGroup (info : FileGroupInfo)

inductive FileInfoAnswer where
  | notInScan
  | nameNotUtf8
  | inScan (hashText : Option Bytes) (membership : Except MembershipMiss FileMembership)

/-- `FILE_INFO_PEER_CAP` -/
def fileInfoPeerCap : Nat := 200

/-- The digest of a manifest row for display: `hex(NULL)` is no NULL, so it is asked for. -/
def digestText (f : FileRow) : Value :=
  if f.hash = .null then .null else .text (Sql.lowerHex f.hash)

namespace Snapshot

/-! ## One pathname -/

/-- The identity of a rank that is consistent. -/
def idOfRank (s : Snapshot) (rank : Int) : Except MembershipMiss (Option GroupId) :=
  match s.requireConsistent rank with
  | .error e => .error e
  | .ok () => .ok (some ⟨s.scanId, rank, s.generation⟩)

/-- `GROUP_OF_PATH_DERIVED_SQL` -/
def ranksOfPath (s : Snapshot) (text : Bytes) : List Value :=
  (((s.tables.filesAt (.text text)).flatMap fun f =>
    s.tables.fileGroup.filter fun g => Value.same g.hash (.text (Sql.lowerHex f.hash))).map
      GroupRow.rank).take 2

/-- `group_of_path` -/
def groupOfPath (s : Snapshot) (p : PathBuf) : Except MembershipMiss (Option GroupId) :=
  if isUtf8 p.raw = false then .ok none
  else
    match s.requireAuthority with
    | .error e => .error e
    | .ok () =>
      match s.mode with
      | .explicit =>
        match (s.tables.member.filter fun m => Value.same m.path (.text p.text)).head? with
        | none => .ok none
        | some m =>
          match getInteger m.groupRank with
          | .error e => .error (.store e)
          | .ok rank => s.idOfRank rank
      | _ =>
        match getIntegers (s.ranksOfPath p.text) with
        | .error e => .error (.store e)
        | .ok [] => .ok none
        | .ok [rank] => s.idOfRank rank
        | .ok _ =>
          .error (.inconsistent
            s!"one digest resolves {terminal (Bytes.display p.text)} to two ranks under derived authority")

/-- `group_member_count` -/
def groupMemberCount (s : Snapshot) (id : GroupId) : Except MembershipMiss Nat :=
  match s.requireCurrent id with
  | .error e => .error e
  | .ok () =>
    match s.mode with
    | .explicit => .ok (s.tables.membersAt (.integer id.rank)).length
    | _ => .ok ((s.tables.groupsAt (.integer id.rank)).flatMap fun g => s.tables.filesOf g.hash).length

/-- `file_membership` -/
def fileMembership (s : Snapshot) (p : PathBuf) : Except MembershipMiss FileMembership :=
  match s.requireAuthority with
  | .error e => .error e
  | .ok () =>
    match s.groupOfPath p with
    | .error e => .error e
    | .ok none => .ok .notGrouped
    | .ok (some id) =>
      match s.groupMemberCount id with
      | .error e => .error e
      | .ok total =>
        match readPaths (((s.memberRows id.rank).map FileRow.path).take (fileInfoPeerCap + 1)) with
        | .error e => .error (.store e)
        | .ok members =>
          let peers := (members.filter fun member => decide (member ≠ p.path)).take fileInfoPeerCap
          .ok (.inGroup
            { id := id, peers := peers, total := total
              truncated := decide (peers.length < total - 1) })

/-- `file_info` -/
def fileInfo (s : Snapshot) (p : PathBuf) : Except MembershipMiss FileInfoAnswer :=
  if isUtf8 p.raw = false then .ok .nameNotUtf8
  else
    match (s.tables.filesAt (.text p.text)).head? with
    | none => .ok .notInScan
    | some f =>
      match getOptText (digestText f) with
      | .error e => .error (.store e)
      | .ok hashText => .ok (.inScan hashText (s.fileMembership p))

/-! ## The three statements of a batch -/

/-- `PANEL_MANIFEST_SQL`: the pathname, whether it has a row, and the row's digest. -/
def panelManifest (s : Snapshot) (want : List Bytes) : List (Value × Bool × Value) :=
  want.flatMap fun w =>
    (Sql.outer (fun f => Value.same f.path (.text w)) s.tables.file).map fun f =>
      (.text w, f.isSome, f.elim .null digestText)

/-- A rank found for a pathname, against the ranks' own rows: how many there are, and on how many
    devices. -/
def panelJoin (hit : List (Bytes × Value)) (rows : List (Value × Int)) :
    List (Value × Value × Nat × Nat) :=
  let agg := Grouping.groupByKey (fun r : Value × Int => r.1.key)
    (rows.filter fun r => hit.any fun h => Value.same r.1 h.2)
  hit.flatMap fun h =>
    (agg.filter fun g => decide (h.2 ≠ .null ∧ g.1 = h.2.key)).map fun g =>
      (.text h.1, h.2, g.2.length, Sql.countDistinct (g.2.map fun r => .integer r.2))

/-- The pathnames asked for with the ranks they are found in. -/
def panelHits (s : Snapshot) (text : Bytes) : List Value :=
  match s.mode with
  | .explicit => (s.tables.member.filter fun m => Value.same m.path (.text text)).map MemberRow.groupRank
  | _ =>
    ((s.tables.filesAt (.text text)).filter fun f => decide (f.hash ≠ .null)).flatMap fun f =>
      (s.tables.fileGroup.filter fun g => Value.same g.hash (.text (Sql.lowerHex f.hash))).map
        GroupRow.rank

/-- The manifest rows of every rank, with their devices. -/
def panelRows (s : Snapshot) : List (Value × Int) :=
  match s.mode with
  | .explicit => s.tables.member.flatMap fun m =>
      (s.tables.filesAt m.path).map fun f => (m.groupRank, f.device)
  | _ => s.tables.fileGroup.flatMap fun g =>
      (s.tables.filesOf g.hash).map fun f => (g.rank, f.device)

/-- `PANEL_MEMBERSHIP_EXPLICIT_SQL` and `PANEL_MEMBERSHIP_DERIVED_SQL` -/
def panelMembership (s : Snapshot) (want : List Bytes) : List (Value × Value × Nat × Nat) :=
  panelJoin (want.flatMap fun w => (s.panelHits w).map fun rank => (w, rank)) s.panelRows

/-- `PANEL_CANDIDATE_SQL` -/
def panelCandidates (s : Snapshot) (want : List Bytes) : List (Value × Nat) :=
  want.flatMap fun w =>
    ((s.tables.filesAt (.text w)).filter fun f => decide (f.hash = .null)).map fun f =>
      (.text w, (s.tables.file.filter fun p =>
        Value.same p.size f.size && decide (p.mtime = f.mtime)).length)

/-! ## The loops over their rows -/

/-- What a panel knows of each pathname. -/
abbrev Panel := Path → Option PanelFile

/-- What a manifest row says alone. -/
def manifestStatus (s : Snapshot) (present hashed : Bool) : PanelFileStatus :=
  match present, hashed, s.mode with
  | false, _, _ => .notInScan
  | true, false, _ => .notHashed
  | true, true, .unknown => .unavailable .unknown
  | true, true, _ => .notGrouped

def readManifest (s : Snapshot) : List (Value × Bool × Value) → Panel → Except String Panel
  | [], out => .ok out
  | (path, present, hash) :: rows, out =>
    match getText path with
    | .error e => .error e
    | .ok text =>
      match getOptText hash with
      | .error e => .error e
      | .ok hashText =>
        readManifest s rows
          (Function.update out (pathOf text)
            (some ⟨s.manifestStatus present hashText.isSome, hashText⟩))

/-- `out.get_mut(path)`, with its status set. -/
def setStatus (text : Bytes) (status : PanelFileStatus) (out : Panel) : Panel :=
  Function.update out (pathOf text) ((out (pathOf text)).map fun f => { f with status := status })

/-- What a rank found for a pathname says. -/
def rankStatus (s : Snapshot) (rank : Int) (members devices : Nat) : PanelFileStatus :=
  if rank ∈ s.inconsistentRanks then
    .unavailable (.inconsistent (s!"group rank {rank} of scan {s.scanId} declares a member count its " ++
      "membership does not hold"))
  else .inGroup ⟨s.scanId, rank, s.generation⟩ members devices

def readMembership (s : Snapshot) : List (Value × Value × Nat × Nat) → Panel → Except String Panel
  | [], out => .ok out
  | (path, rank, members, devices) :: rows, out =>
    match getText path with
    | .error e => .error e
    | .ok text =>
      match getInteger rank with
      | .error e => .error e
      | .ok rank => readMembership s rows (setStatus text (s.rankStatus rank members devices) out)

def readCandidates : List (Value × Nat) → Panel → Except String Panel
  | [], out => .ok out
  | (path, peers) :: rows, out =>
    match getText path with
    | .error e => .error e
    | .ok text =>
      if peers < 2 then readCandidates rows out
      else readCandidates rows (setStatus text (.likelyBySizeMtime peers) out)

/-- `panel_files` -/
def panelFiles (s : Snapshot) (paths : List PathBuf) : Except MembershipMiss Panel :=
  let want := paths.map PathBuf.text
  match s.readManifest (s.panelManifest want) fun _ => none with
  | .error e => .error (.store e)
  | .ok out =>
    let grouped : Except String Panel :=
      if s.mode = .unknown then .ok out else s.readMembership (s.panelMembership want) out
    match grouped with
    | .error e => .error (.store e)
    | .ok out =>
      match readCandidates (s.panelCandidates want) out with
      | .error e => .error (.store e)
      | .ok out => .ok out

end Snapshot

end DedupCommando
