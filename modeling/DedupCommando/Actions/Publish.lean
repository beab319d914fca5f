import DedupCommando.Actions.MoveFile

/-!
# Publishing a replacement without destroying the original

`evacuate_then_publish` of `actions/mod.rs` with its two callers, `hardlink` and `reflink`, and the
metadata a clone is given (`actions/meta.rs`).

* `evacuateThenPublish` — build under a temporary name, put the original aside, publish into the
  freed slot, and put the original back when that fails.
* `hardlinkBuild`, `cloneBuild` — the two replacements.
-/

set_option autoImplicit false

namespace DedupCommando

/-! ## What became of the original -/

/-- `actions::Publication`. -/
inductive Publication where
  | published (quarantined : Path)
  | notMoved (detail : String)
  | rolledBack (detail : String)
  | stranded (quarantined : Path) (detail : String)
  deriving DecidableEq

def Publication.isPublished : Publication → Bool
  | .published _ => true
  | _ => false

/-- `Step`: which of the two renames of a publication failed. -/
inductive PublishStep where
  | publish
  | putBack
  deriving DecidableEq, Repr

/-- `rename_cause`: why a rename failed, in words, then in the system's own. -/
def renameCause (step : PublishStep) (e : IoError) : String :=
  let why : Option String :=
    match e.errno, step with
    | some 17, _ => some "another file took the path in the meantime"
    | some 2, .publish => some "the prepared replacement or its directory disappeared"
    | some 2, .putBack => some "the original or the target's directory disappeared"
    | some 28, _ => some "no space left on the dataset"
    | some 122, _ => some "the dataset's quota is exhausted"
    | some 30, _ => some "the filesystem became read-only"
    | some 5, _ => some "an I/O error on the pool (check `zpool status`)"
    | some 1, _ => some "permission denied (an immutable or append-only directory?)"
    | some 13, _ => some "permission denied (an immutable or append-only directory?)"
    | _, _ => none
  match why with
  | some why => s!"{why} ({e.text})"
  | none => e.text

/-- `remove_replacement`: removes what a failed publication left, and names it if it stays. -/
def removeReplacement (temp : Path) (w : World) : String × World :=
  match w.removeFile temp with
  | (.ok (), w) => ("", w)
  | (.error e, w) =>
    if e.errno = some 2 then ("", w)
    else
      (s!"; the temporary file {temp.display} could not be removed ({e.text}) — " ++
        "delete it by hand", w)

/-- The text of a publication undone. -/
def rolledBackDetail (publish : IoError) (leftover : String) : String :=
  s!"the replacement could not be published: {renameCause .publish publish} — action cancelled, " ++
    s!"original restored{leftover}"

/-- The text of an original left in quarantine. -/
def strandedDetail (publish back : IoError) (evacuated target : Path) (leftover : String) :
    String :=
  let whereabouts :=
    if back.errno = some 2 then "was moved to quarantine" else "is kept in quarantine"
  s!"the replacement could not be published: {renameCause .publish publish}; putting the " ++
    s!"original back failed as well: {renameCause .putBack back} — the original {whereabouts}: " ++
    s!"{evacuated.display}; its place: {target.display}{leftover}"

/-! ## The publication -/

/-- What makes a replacement under a temporary name. -/
abbrev Build := Path → World → Except AppError Unit × World

/-- Step (3) of `evacuate_then_publish`: the replacement into the freed slot, or the original back
    from quarantine. -/
def publishEvacuated (temp target evacuated : Path) (w : World) : Publication × World :=
  match w.renameNoreplace temp target with
  | (.ok (), w) => (.published evacuated, w)
  | (.error publish, w) =>
    match removeReplacement temp w with
    | (leftover, w) =>
      match w.renameNoreplace evacuated target with
      | (.ok (), w) => (.rolledBack (rolledBackDetail publish leftover), w)
      | (.error back, w) =>
        (.stranded evacuated (strandedDetail publish back evacuated target leftover), w)

/-- Steps (1) and (2), under the temporary name `temp`. -/
def publishAt (temp target : Path) (build : Build) (mountpoint dir : Path) (w : World) :
    Publication × World :=
  match build temp w with
  | (.error e, w) => (.notMoved e.message, (w.removeFile temp).2)
  | (.ok (), w) =>
    match deleteToQuarantine target mountpoint dir w with
    | (.error e, w) => (.notMoved e.message, (w.removeFile temp).2)
    | (.ok evacuated, w) => publishEvacuated temp target evacuated w.pause

/-- `evacuate_then_publish`. -/
def evacuateThenPublish (target : Path) (build : Build) (mountpoint dir : Path) (w : World) :
    Publication × World :=
  match target.parent with
  | none => (.notMoved "target file has no parent directory", w)
  | some parent =>
    match stagingPath parent target.fileName w with
    | (temp, w) => publishAt temp target build mountpoint dir w

/-! ## The two replacements -/

/-- The build of `hardlink`: one more name of the keeper. -/
def hardlinkBuild (keeper : Path) : Build := fun temp w =>
  match w.hardLink keeper temp with
  | (.error e, w) => (.error (.io e), w)
  | (.ok (), w) => (.ok (), w)

/-- `hardlink`. -/
def hardlink (target keeper mountpoint dir : Path) (w : World) : Publication × World :=
  evacuateThenPublish target (hardlinkBuild keeper) mountpoint dir w

/-- `meta::FileMetadata`: what has to survive the replacement. -/
structure FileMetadata where
  uid : Nat
  gid : Nat
  mode : Nat
  atime : Timespec
  mtime : Timespec
  xattrs : List (Bytes × Bytes)
  deriving DecidableEq

def carryError (path : Path) (what : String) (e : IoError) : AppError :=
  ⟨s!"cannot carry over the {what} of {path.display}: {e.text}"⟩

/-- `no_xattr_support`: the filesystem does no extended attributes at all. -/
def noXattrSupport (e : IoError) : Bool := decide (e.errno = some 95)

/-- `split(0)` with the empty pieces left out. -/
def namesOf : Bytes → Bytes → List Bytes
  | [], [] => []
  | piece, [] => [piece]
  | piece, b :: bytes =>
    if b = 0 then
      if piece = [] then namesOf [] bytes else piece :: namesOf [] bytes
    else namesOf (piece ++ [b]) bytes

/-- `list_xattr_names`; `none` says that the list grew between the size probe and the read. -/
def listXattrNames (path : Path) (w : World) : Except AppError (Option (List Bytes)) × World :=
  match w.listXattrs path 0 with
  | (.error e, w) =>
    if noXattrSupport e then (.ok (some []), w)
    else (.error (carryError path "list of extended attributes" e), w)
  | (.ok probed, w) =>
    if probed.length = 0 then (.ok (some []), w)
    else
      match w.listXattrs path probed.length with
      | (.error e, w) =>
        if e.errno = some 34 then (.ok none, w)
        else if noXattrSupport e then (.ok (some []), w)
        else (.error (carryError path "list of extended attributes" e), w)
      | (.ok names, w) => (.ok (some (namesOf [] names)), w)

/-- `raced_or_error`; `none` is `XattrValue::Raced`. -/
def racedOrError (name : Bytes) (e : IoError) : Except AppError (Option Bytes) :=
  if e.errno = some 61 ∨ e.errno = some 34 then .ok none
  else .error ⟨s!"cannot read the extended attribute {Bytes.display name}: {e.text}"⟩

/-- `read_xattr_value`: the length probe, then the read into a buffer of that length. -/
def readXattrValue (path : Path) (name : Bytes) (w : World) :
    Except AppError (Option Bytes) × World :=
  match w.getXattr path name 0 with
  | (.error e, w) => (racedOrError name e, w)
  | (.ok probed, w) =>
    match w.getXattr path name probed.length with
    | (.error e, w) => (racedOrError name e, w)
    | (.ok value, w) => (.ok (some (value.take probed.length)), w)

/-- The loop of `snapshot_xattrs` over the names; `none` says that one of them raced. -/
def readValues (path : Path) :
    List Bytes → World → Except AppError (Option (List (Bytes × Bytes))) × World
  | [], w => (.ok (some []), w)
  | name :: names, w =>
    match readXattrValue path name w with
    | (.error e, w) => (.error e, w)
    | (.ok none, w) => (.ok none, w)
    | (.ok (some value), w) =>
      match readValues path names w with
      | (.ok (some xattrs), w) => (.ok (some ((name, value) :: xattrs)), w)
      | raced => raced

/-- `snapshot_xattrs`: one pass over the attributes. -/
def snapshotXattrs (path : Path) (w : World) :
    Except AppError (Option (List (Bytes × Bytes))) × World :=
  match listXattrNames path w with
  | (.error e, w) => (.error e, w)
  | (.ok none, w) => (.ok none, w)
  | (.ok (some names), w) => readValues path names w

/-- `XATTR_ATTEMPTS`. -/
def xattrAttempts : Nat := 3

/-- The loop of `read_xattrs`, with so many attempts left. -/
def readXattrs (path : Path) : Nat → World → Except AppError (List (Bytes × Bytes)) × World
  | 0, w =>
    (.error ⟨s!"the extended attributes of {path.display} keep changing while being read — " ++
      "refusing to publish a clone without them"⟩, w)
  | attempts + 1, w =>
    match snapshotXattrs path w with
    | (.error e, w) => (.error e, w)
    | (.ok (some xattrs), w) => (.ok xattrs, w)
    | (.ok none, w) => readXattrs path attempts w

/-- `meta::read`. -/
def metaRead (path : Path) (w : World) : Except AppError FileMetadata × World :=
  match w.lstat path with
  | (.error e, w) => (.error (.io e), w)
  | (.ok (_, n), w) =>
    match readXattrs path xattrAttempts w with
    | (.error e, w) => (.error e, w)
    | (.ok xattrs, w) =>
      (.ok
        { uid := n.uid, gid := n.gid, mode := n.mode, atime := n.atime, mtime := n.mtime
          xattrs := xattrs }, w)

theorem listXattrNames_looked (path : Path) (w : World) :
    World.Looked w (listXattrNames path w).2 := by
  have hprobe := World.listXattrs_looked path 0 w
  unfold listXattrNames
  split
  · rename_i h
    rw [h] at hprobe
    split <;> exact hprobe
  · rename_i probed w₁ h
    rw [h] at hprobe
    have hread := hprobe.trans (World.listXattrs_looked path probed.length w₁)
    split
    · exact hprobe
    · split
      · rename_i h₂
        rw [h₂] at hread
        split
        · exact hread
        · split <;> exact hread
      · rename_i h₂; rw [h₂] at hread; exact hread

theorem readXattrValue_looked (path : Path) (name : Bytes) (w : World) :
    World.Looked w (readXattrValue path name w).2 := by
  have hprobe := World.getXattr_looked path name 0 w
  unfold readXattrValue
  split
  · rename_i h; rw [h] at hprobe; exact hprobe
  · rename_i probed w₁ h
    rw [h] at hprobe
    have hread := hprobe.trans (World.getXattr_looked path name probed.length w₁)
    split
    · rename_i h₂; rw [h₂] at hread; exact hread
    · rename_i h₂; rw [h₂] at hread; exact hread

theorem readValues_looked (path : Path) :
    ∀ (names : List Bytes) (w : World), World.Looked w (readValues path names w).2
  | [], w => World.Looked.refl w
  | name :: names, w => by
    have hread := readXattrValue_looked path name w
    unfold readValues
    split
    · rename_i h; rw [h] at hread; exact hread
    · rename_i h; rw [h] at hread; exact hread
    · rename_i value w₁ h
      rw [h] at hread
      have hrest := hread.trans (readValues_looked path names w₁)
      split
      · rename_i h₂; rw [h₂] at hrest; exact hrest
      · exact hrest

theorem snapshotXattrs_looked (path : Path) (w : World) :
    World.Looked w (snapshotXattrs path w).2 := by
  have hnames := listXattrNames_looked path w
  unfold snapshotXattrs
  split
  · rename_i h; rw [h] at hnames; exact hnames
  · rename_i h; rw [h] at hnames; exact hnames
  · rename_i names w₁ h
    rw [h] at hnames
    exact hnames.trans (readValues_looked path names w₁)

theorem readXattrs_looked (path : Path) :
    ∀ (attempts : Nat) (w : World), World.Looked w (readXattrs path attempts w).2
  | 0, w => World.Looked.refl w
  | attempts + 1, w => by
    have hpass := snapshotXattrs_looked path w
    unfold readXattrs
    split
    · rename_i h; rw [h] at hpass; exact hpass
    · rename_i h; rw [h] at hpass; exact hpass
    · rename_i w₁ h
      rw [h] at hpass
      exact hpass.trans (readXattrs_looked path attempts w₁)

theorem metaRead_looked (path : Path) (w : World) : World.Looked w (metaRead path w).2 := by
  have hstat : World.Looked w (w.lstat path).2 := World.lstat_looked path w
  unfold metaRead
  split
  · rename_i h; rw [h] at hstat; exact hstat
  · rename_i w₁ h
    rw [h] at hstat
    have hxattrs := hstat.trans (readXattrs_looked path xattrAttempts w₁)
    split
    · rename_i h₂; rw [h₂] at hxattrs; exact hxattrs
    · rename_i h₂; rw [h₂] at hxattrs; exact hxattrs

/-- The extended attributes of `meta::apply`, one call each. -/
def applyXattrs (path : Path) (file : InodeId) :
    List (Bytes × Bytes) → World → Except AppError Unit × World
  | [], w => (.ok (), w)
  | (name, value) :: xattrs, w =>
    match w.setXattr file name value with
    | (.error e, w) =>
      (.error (carryError path s!"extended attribute {Bytes.display name}" e), w)
    | (.ok (), w) => applyXattrs path file xattrs w

/-- `fchown`, when it would change something. -/
def applyOwner (file : InodeId) (current : Node) (carried : FileMetadata) (w : World) :
    Except IoError Unit × World :=
  if current.uid ≠ carried.uid ∨ current.gid ≠ carried.gid then
    w.chown file carried.uid carried.gid
  else (.ok (), w)

/-- `meta::apply`: owner, mode, extended attributes, timestamps, in this order. -/
def metaApply (path : Path) (carried : FileMetadata) (w : World) : Except AppError Unit × World :=
  match w.openFile path with
  | (.error e, w) =>
    (.error ⟨s!"cannot open the replacement {path.display} to write its metadata: {e.text}"⟩, w)
  | (.ok (file, current), w) =>
    if current.kind ≠ .regular then
      (.error ⟨s!"{path.display} is not a regular file — refusing to write the replaced file's " ++
        "metadata onto it"⟩, w)
    else
      match applyOwner file current carried w with
      | (.error e, w) => (.error (carryError path "owner" e), w)
      | (.ok (), w) =>
        match w.chmod file (carried.mode % 4096) with
        | (.error e, w) => (.error (carryError path "mode" e), w)
        | (.ok (), w) =>
          match applyXattrs path file carried.xattrs w with
          | (.error e, w) => (.error e, w)
          | (.ok (), w) =>
            match w.utimens file carried.atime carried.mtime with
            | (.error e, w) => (.error (carryError path "timestamps" e), w)
            | (.ok (), w) => (.ok (), w)

/-- The build of `publish_clone`: a clone of the keeper, given the replaced file's identity. -/
def cloneBuild (keeper : Path) (carried : FileMetadata) : Build := fun temp w =>
  match w.cloneFile keeper temp with
  | (.error e, w) => (.error ⟨s!"reflink failed: {e.text}"⟩, w)
  | (.ok (), w) => metaApply temp carried w

/-- `reflink`. -/
def reflink (target keeper mountpoint dir : Path) (w : World) : Publication × World :=
  match metaRead target w with
  | (.error e, w) => (.notMoved e.message, w)
  | (.ok carried, w) =>
    evacuateThenPublish target (cloneBuild keeper carried) mountpoint dir w

end DedupCommando
