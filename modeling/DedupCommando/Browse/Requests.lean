import DedupCommando.Store.Sweep
import DedupCommando.Actions.Preflight

/-!
# The browsing actor: requests, answers and refusals

* `StoreError`, `SnapshotMiss`, `StoreMiss`, `PanelFailure`, `BrowseOpenFailure` — the error
  domains; `PathMismatch` is the face a replaced database wears in each of them.
* `BrowseRequest`, `BrowseEvent` — the protocol; `BrowseEvent.answers` pairs a request with the
  terminal event of its own kind and identity.

What the store answers and the actor only hands on is the type parameter `δ`.
-/

set_option autoImplicit false

namespace DedupCommando

namespace Browse

/-- Which installed scan a request talks about. -/
abbrev Activation := Nat

abbrev RequestId := Nat

/-- Which cancellation flag: every clone of a token is one flag. -/
abbrev CancelToken := Nat

inductive BrowseRole where
  | operator
  | observer
  deriving DecidableEq

/-- `DirSigAlgo` -/
inductive DirSigAlgo where
  | old
  | merkle
  deriving DecidableEq

/-- `RequestedMark` -/
structure RequestedMark where
  path : Bytes
  intent : MarkIntent

/-! ## Error domains -/

/-- `AppError`: a replaced database file, and every other error by its text. -/
inductive StoreError where
  | pathChanged (path detail : String)
  | other (text : String)

def StoreError.text : StoreError → String
  | pathChanged _ detail => detail
  | other text => text

/-- `MembershipMiss`, with its case of a replaced database. -/
inductive SnapshotMiss where
  | reopenRequired (detail : String)
  | answered (miss : MembershipMiss)

/-- `miss_text` -/
def SnapshotMiss.text : SnapshotMiss → String
  | reopenRequired detail => detail
  | answered .noSuchScan => "no such scan"
  | answered .noSuchGroup => "no such group"
  | answered .unknown => "the scan has no membership authority"
  | answered (.stale expected found) =>
    s!"generation {expected} is no longer current ({found} is)"
  | answered (.inconsistent detail) => detail
  | answered (.store detail) => detail

/-- `describe_miss`: the store's own wording of the same. -/
def SnapshotMiss.describe : SnapshotMiss → String
  | answered (.stale expected found) =>
    s!"the plan carries generation {expected}, the database {found}"
  | miss => miss.text

/-- Why a store-typed answer does not exist. -/
inductive StoreMiss where
  | notOpen
  | closing
  | pathChanged (detail : String)
  | noActiveScan
  | staleActivation (expected found : Activation)
  | readOnlyRole
  | noSuchScan
  | read (detail : String)

/-- Why a whole panel refresh did not happen. -/
inductive PanelFailure where
  | notOpen
  | closing
  | pathChanged (detail : String)
  | noActiveScan
  | staleActivation (expected found : Activation)
  | snapshot (miss : SnapshotMiss)
  | directories (detail : String)
  | files (detail : String)

/-- Why an `Open` did not install its scan. -/
inductive BrowseOpenFailure where
  | openFailed (detail : String)
  | closing
  | pathChanged (detail : String)
  | prepare (detail : String)
  | snapshot (miss : SnapshotMiss)
  | summaries (miss : SnapshotMiss)
  | scanSummary (detail : String)
  | scanStatus (detail : String)
  | createdAt (detail : String)
  | markedCount (detail : String)
  | dirGroups (detail : String)
  | config (detail : String)
  | noSuchScan

/-- A typed mid-sweep failure. -/
inductive SweepFailure where
  | snapshot (miss : SnapshotMiss)
  | read (rank : Int) (miss : SnapshotMiss)
  | write (error : MarkWriteError)

/-- The typed faces of a replaced database. -/
class PathMismatch (ε : Type) where
  pathMismatch : ε → Option String

export PathMismatch (pathMismatch)

instance : PathMismatch StoreError where
  pathMismatch
    | .pathChanged _ detail => some detail
    | .other _ => none

instance : PathMismatch SnapshotMiss where
  pathMismatch
    | .reopenRequired detail => some detail
    | .answered _ => none

instance : PathMismatch MarkWriteError where
  pathMismatch
    | .pathChanged detail => some detail
    | .requestContradictsItself _ | .notInManifest _ | .nameNotUtf8 _ | .decode _ | .store _ => none

instance : PathMismatch StoreMiss where
  pathMismatch
    | .pathChanged detail => some detail
    | .notOpen | .closing | .noActiveScan | .staleActivation _ _ | .readOnlyRole | .noSuchScan
    | .read _ => none

instance : PathMismatch PanelFailure where
  pathMismatch
    | .pathChanged detail => some detail
    | .snapshot miss => pathMismatch miss
    | .notOpen | .closing | .noActiveScan | .staleActivation _ _ | .directories _ | .files _ => none

/-- The `Open` handler poisons by itself, before it emits. -/
instance : PathMismatch BrowseOpenFailure where
  pathMismatch _ := none

instance : PathMismatch SweepFailure where
  pathMismatch
    | .snapshot miss => pathMismatch miss
    | .read _ miss => pathMismatch miss
    | .write error => pathMismatch error

/-- A refusal of the plan is text, whatever it was before. -/
instance : PathMismatch PlanRefusal where
  pathMismatch _ := none

/-! ## Outcomes -/

/-- `MarkOutcome`; a failed write with an after-image is never built. -/
inductive MarkOutcome where
  | settled (after : List (Bytes × Option MarkIntent))
  | cleared (count : Nat)
  | unreadable (error : MarkWriteError)

/-- `AutoSelectRefusal` -/
inductive AutoSelectRefusal where
  | closing
  | notOpen
  | pathChanged (detail : String)
  | readOnlyRole
  | noActiveScan
  | staleActivation (expected found : Activation)
  | unknown
  | snapshot (miss : SnapshotMiss)
  | read (detail : String)
  | firstChunk (error : MarkWriteError)
  | cancelledBeforeFirstCommit

/-- `AutoSelectOutcome` -/
inductive AutoSelectOutcome where
  | completed (groups marks : Nat)
  | partialSweep (committedGroups : Nat) (lastCommittedRank : Int) (cancelled : Bool)
      (detail : String)
  | refused (refusal : AutoSelectRefusal)

/-- `OpenedBrowse` -/
structure OpenedBrowse (δ : Type) where
  scanId : Int
  status : δ
  createdAt : δ
  summary : δ
  markedCount : δ
  dirGroups : δ
  published : Bool
  presentation : δ

/-- `PanelData` -/
structure PanelData (δ : Type) where
  files : δ
  marks : δ
  dirs : δ

/-! ## The protocol -/

/-- Everything the actor can be asked. -/
inductive BrowseRequest where
  | «open» (act : Activation) (req : RequestId) (scanId : Int)
  | panelData (act : Activation) (req : RequestId) (files dirs : List Bytes)
  | groupOpen (act : Activation) (req : RequestId) (id : GroupId) (offset limit : Nat)
  | groupCount (act : Activation) (req : RequestId) (id : GroupId)
  | fileInfo (act : Activation) (req : RequestId) (path : Bytes)
  | dirGroupAt (act : Activation) (req : RequestId) (dir : Bytes)
  | openDirGroup (act : Activation) (req : RequestId) (signature : String)
  | markedCount (act : Activation) (req : RequestId)
  | setMarks (act : Activation) (req : RequestId) (entries : List MarkedEntry)
  | clearMarks (act : Activation) (req : RequestId)
  | autoSelect (act : Activation) (req : RequestId) (cancel : CancelToken)
  | buildPlan (act : Activation) (req : RequestId) (requested : List RequestedMark)
      (datasets : List Dataset) (reflinkSafe : Bool)
  | reconcileAfterBatch (act : Activation) (req : RequestId) (spent : List Bytes)
  | latestScan (act : Activation) (req : RequestId)
  | coveringScan (act : Activation) (req : RequestId) (cwd : Bytes)
  | cacheHash (act : Activation) (req : RequestId) (device inode size : Nat) (mtime : Int)
      (digest : Bytes)
  | shutdown

/-- Every reply the actor can give. -/
inductive BrowseEvent (δ : Type) where
  | openFinished (act : Activation) (req : RequestId)
      (result : Except BrowseOpenFailure (OpenedBrowse δ))
  | panelData (act : Activation) (req : RequestId) (result : Except PanelFailure (PanelData δ))
  | group (act : Activation) (req : RequestId) (result : Except SnapshotMiss δ)
  | groupCount (act : Activation) (req : RequestId) (result : Except SnapshotMiss δ)
  | fileInfo (act : Activation) (req : RequestId) (result : Except StoreMiss δ)
  | dirGroupAt (act : Activation) (req : RequestId) (result : Except StoreMiss δ)
  | dirGroupOpened (act : Activation) (req : RequestId) (result : Except StoreMiss δ)
  | markedCount (act : Activation) (req : RequestId) (result : Except StoreMiss δ)
  | markAck (act : Activation) (req : RequestId) (outcome : MarkOutcome)
  | autoSelectDone (act : Activation) (req : RequestId) (outcome : AutoSelectOutcome)
  | planReady (act : Activation) (req : RequestId) (plan : ActionPlan) (unrunnable : Unrunnable)
  | planRefused (act : Activation) (req : RequestId) (refusal : PlanRefusal)
  | reconcileAck (act : Activation) (req : RequestId) (result : Except StoreMiss δ)
  | latestScan (act : Activation) (req : RequestId) (result : Except StoreMiss δ)
  | coveringScan (act : Activation) (req : RequestId) (cwd : Bytes) (result : Except StoreMiss δ)
  | cacheHashAck (act : Activation) (req : RequestId) (result : Except StoreMiss δ)

namespace BrowseRequest

def act : BrowseRequest → Option Activation
  | «open» act _ _ | panelData act _ _ _ | groupOpen act _ _ _ _ | groupCount act _ _
  | fileInfo act _ _ | dirGroupAt act _ _ | openDirGroup act _ _ | markedCount act _
  | setMarks act _ _ | clearMarks act _ | autoSelect act _ _ | buildPlan act _ _ _ _
  | reconcileAfterBatch act _ _ | latestScan act _ | coveringScan act _ _
  | cacheHash act _ _ _ _ _ _ => some act
  | shutdown => none

def req : BrowseRequest → Option RequestId
  | «open» _ req _ | panelData _ req _ _ | groupOpen _ req _ _ _ | groupCount _ req _
  | fileInfo _ req _ | dirGroupAt _ req _ | openDirGroup _ req _ | markedCount _ req
  | setMarks _ req _ | clearMarks _ req | autoSelect _ req _ | buildPlan _ req _ _ _
  | reconcileAfterBatch _ req _ | latestScan _ req | coveringScan _ req _
  | cacheHash _ req _ _ _ _ _ => some req
  | shutdown => none

/-- `Open` alone is exempt from the gates. -/
def isOpen : BrowseRequest → Bool
  | «open» _ _ _ => true
  | _ => false

/-- The requests that write. -/
def writes : BrowseRequest → Bool
  | setMarks _ _ _ | clearMarks _ _ | autoSelect _ _ _ | reconcileAfterBatch _ _ _
  | cacheHash _ _ _ _ _ _ _ => true
  | _ => false

/-- The connection-scoped requests: they bootstrap the connection, and name no installed scan. -/
def connectionScoped : BrowseRequest → Bool
  | latestScan _ _ | coveringScan _ _ _ | cacheHash _ _ _ _ _ _ _ => true
  | _ => false

end BrowseRequest

namespace BrowseEvent

variable {δ : Type}

/-- The event is the terminal of that request: of its kind, with its identity. -/
def answers : BrowseEvent δ → BrowseRequest → Prop
  | openFinished act req _, .open act' req' _ => act = act' ∧ req = req'
  | panelData act req _, .panelData act' req' _ _ => act = act' ∧ req = req'
  | group act req _, .groupOpen act' req' _ _ _ => act = act' ∧ req = req'
  | groupCount act req _, .groupCount act' req' _ => act = act' ∧ req = req'
  | fileInfo act req _, .fileInfo act' req' _ => act = act' ∧ req = req'
  | dirGroupAt act req _, .dirGroupAt act' req' _ => act = act' ∧ req = req'
  | dirGroupOpened act req _, .openDirGroup act' req' _ => act = act' ∧ req = req'
  | markedCount act req _, .markedCount act' req' => act = act' ∧ req = req'
  | markAck act req _, .setMarks act' req' _ => act = act' ∧ req = req'
  | markAck act req _, .clearMarks act' req' => act = act' ∧ req = req'
  | autoSelectDone act req _, .autoSelect act' req' _ => act = act' ∧ req = req'
  | planReady act req _ _, .buildPlan act' req' _ _ _ => act = act' ∧ req = req'
  | planRefused act req _, .buildPlan act' req' _ _ _ => act = act' ∧ req = req'
  | reconcileAck act req _, .reconcileAfterBatch act' req' _ => act = act' ∧ req = req'
  | latestScan act req _, .latestScan act' req' => act = act' ∧ req = req'
  | coveringScan act req cwd _, .coveringScan act' req' cwd' =>
    act = act' ∧ req = req' ∧ cwd = cwd'
  | cacheHashAck act req _, .cacheHash act' req' _ _ _ _ _ => act = act' ∧ req = req'
  | _, _ => False

/-- The request was not carried out. -/
def refused : BrowseEvent δ → Bool
  | openFinished _ _ (.error _) | panelData _ _ (.error _) | group _ _ (.error _)
  | groupCount _ _ (.error _) | fileInfo _ _ (.error _) | dirGroupAt _ _ (.error _)
  | dirGroupOpened _ _ (.error _) | markedCount _ _ (.error _) | reconcileAck _ _ (.error _)
  | latestScan _ _ (.error _) | coveringScan _ _ _ (.error _) | cacheHashAck _ _ (.error _)
  | markAck _ _ (.unreadable _) | autoSelectDone _ _ (.refused _) | planRefused _ _ _ => true
  | _ => false

end BrowseEvent

end Browse

end DedupCommando
