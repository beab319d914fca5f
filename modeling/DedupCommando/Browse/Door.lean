import DedupCommando.Lib.Talk
import DedupCommando.Browse.Requests

/-!
# The one door from the actor to the store

* `Ask` — the store's operations, each with its error and answer types; `Backend` — whatever
  answers them.
* `Call`, `Session` — what was asked, and whether the answer said that the database was replaced.
* `Guarded.*` — the door: which operations pay their own identity probe.
* `Snapshot.*` — the readers of a membership snapshot.
-/

set_option autoImplicit false

namespace DedupCommando

namespace Browse

/-- Which connection: one for each successful open. -/
abbrev Connection := Nat

/-- `MembershipSummaries`: the group identities in rank order, the inconsistent ones, the rest. -/
structure Summaries (δ : Type) where
  groups : List GroupId
  inconsistent : List GroupId
  data : δ

/-- The store's operations, by the types of their error and of their answer. -/
inductive Ask (δ : Type) : Type → Type → Type 1 where
  | connect (role : BrowseRole) : Ask δ StoreError Connection
  | ensureCurrentPath (c : Connection) : Ask δ StoreError Unit
  | membershipSnapshot (c : Connection) (scanId : Int) : Ask δ SnapshotMiss MembershipMode
  | unknownCandidates (c : Connection) : Ask δ SnapshotMiss (Option δ)
  | summaries (c : Connection) : Ask δ SnapshotMiss (Summaries δ)
  | scanConfig (c : Connection) : Ask δ StoreError DirSigAlgo
  | scanStatus (c : Connection) : Ask δ StoreError δ
  | scanSummary (c : Connection) : Ask δ StoreError δ
  | scanCreatedAt (c : Connection) : Ask δ StoreError δ
  | markedCount (c : Connection) : Ask δ StoreError δ
  | dirGroupSummaries (c : Connection) : Ask δ StoreError δ
  | panelFiles (c : Connection) (files : List Bytes) : Ask δ SnapshotMiss δ
  | panelMarks (c : Connection) (files : List Bytes) : Ask δ SnapshotMiss δ
  | groupPage (c : Connection) (id : GroupId) (offset limit : Nat) : Ask δ SnapshotMiss δ
  | groupMemberCount (c : Connection) (id : GroupId) : Ask δ SnapshotMiss δ
  | group (c : Connection) (id : GroupId) : Ask δ SnapshotMiss (List MarkedEntry)
  | fileInfo (c : Connection) (path : Bytes) : Ask δ SnapshotMiss δ
  | dirGroupAt (c : Connection) (dir : Bytes) : Ask δ SnapshotMiss δ
  | attributedDirGroup (c : Connection) (scanId : Int) (signature : String) : Ask δ StoreError δ
  | scanMarkedCount (c : Connection) (scanId : Int) : Ask δ StoreError δ
  | dirAggregates (c : Connection) (scanId : Int) (dirs : List Bytes) (algo : DirSigAlgo) :
      Ask δ StoreError δ
  | latestScanId (c : Connection) : Ask δ StoreError δ
  | latestScanCovering (c : Connection) (cwd : Bytes) : Ask δ StoreError δ
  | prepareBrowseSummaries (c : Connection) (scanId : Int) : Ask δ StoreError Unit
  | saveMarksSettled (c : Connection) (scanId : Int) (files : List MarkedEntry) :
      Ask δ MarkWriteError (List (Bytes × Option MarkIntent))
  | clearMarksSettled (c : Connection) (scanId : Int) : Ask δ MarkWriteError Nat
  | reconcileMarks (c : Connection) (scanId : Int) (spent : List Bytes) : Ask δ StoreError δ
  | upsertHash (c : Connection) (device inode size : Nat) (mtime : Int) (digest : Bytes) :
      Ask δ StoreError δ
  | planFromSnapshot (c : Connection) (scanId : Int) (requested : List RequestedMark) :
      Ask δ PlanRefusal ActionPlan

/-- What stands behind the door: a state, what it answers, when a sweep is told to stop, what the
    preflight reads about a plan, and the derived texts of two errors. -/
structure Backend (σ δ : Type) where
  answer : {ε α : Type} → Ask δ ε α → σ → Except ε α × σ
  stop : CancelToken → σ → Bool × σ
  unrunnable : ActionPlan → List Dataset → Bool → σ → Unrunnable × σ
  debugOpen : BrowseOpenFailure → String
  debugWrite : MarkWriteError → String

/-- Who asked: the actor through the door, or an operation of the store on its own account. -/
inductive Caller where
  | actor
  | prepare
  | plan
  deriving DecidableEq

/-- One question that was asked. -/
structure Call where
  caller : Caller
  /-- it was the opening of a connection -/
  opening : Bool
  /-- the answer said that the database path changed -/
  mismatch : Option String

/-- The store and the log of what it was asked. -/
structure Session (σ : Type) where
  store : σ
  calls : List Call

def Ask.opening {δ ε α : Type} : Ask δ ε α → Bool
  | .connect _ => true
  | _ => false

/-- What an answer says about the database path. -/
def mismatchOf {ε α : Type} [PathMismatch ε] : Except ε α → Option String
  | .ok _ => none
  | .error e => pathMismatch e

section

variable {σ δ ε α : Type}

/-- One question on somebody's account, with its entry in the log. -/
def askAs [PathMismatch ε] (B : Backend σ δ) (caller : Caller) (q : Ask δ ε α) :
    Talk (Session σ) ε α :=
  Talk.ask fun s =>
    match B.answer q s.store with
    | (x, store) => (x, ⟨store, s.calls ++ [⟨caller, q.opening, mismatchOf x⟩]⟩)

/-- A look at the outside that no store is asked for. -/
def glance (f : σ → α × σ) : Talk (Session σ) ε α :=
  Talk.ask fun s =>
    match f s.store with
    | (x, store) => (.ok x, { s with store := store })

end

variable {σ δ : Type} (B : Backend σ δ)

/-! ## The door -/

namespace Guarded

/-- `open`: by the actor's own role. -/
def «open» (role : BrowseRole) : Talk (Session σ) StoreError Connection :=
  askAs B .actor (.connect role)

def identityCheck (c : Connection) : Talk (Session σ) StoreError Unit :=
  askAs B .actor (.ensureCurrentPath c)

def membershipSnapshot (c : Connection) (scanId : Int) :
    Talk (Session σ) SnapshotMiss MembershipMode :=
  askAs B .actor (.membershipSnapshot c scanId)

/-- `prepare_legacy_for_viewing`: the refusals of its own snapshot leave it as text. -/
def prepareLegacyForViewing (c : Connection) (scanId : Int) : Talk (Session σ) StoreError Unit := do
  let asText (miss : SnapshotMiss) : StoreError :=
    .other s!"scan {scanId} cannot be prepared: {miss.describe}"
  let mode ← (askAs B .prepare (.membershipSnapshot c scanId)).mapError asText
  if mode = .unknown then
    askAs B .actor (.prepareBrowseSummaries c scanId)
  else
    let summaries ← (askAs B .prepare (.summaries c)).mapError asText
    match summaries.inconsistent with
    | [] => pure ()
    | id :: _ =>
      Talk.fail (.other (s!"scan {scanId} holds a group (rank {id.rank}) whose summary and " ++
        "membership disagree — refusing to prepare corrupt authority"))

def saveMarksSettled (c : Connection) (scanId : Int) (files : List MarkedEntry) :
    Talk (Session σ) MarkWriteError (List (Bytes × Option MarkIntent)) :=
  askAs B .actor (.saveMarksSettled c scanId files)

def clearMarksSettled (c : Connection) (scanId : Int) : Talk (Session σ) MarkWriteError Nat :=
  askAs B .actor (.clearMarksSettled c scanId)

/-- An operation the store does not guard: one probe, immediately before it. -/
def probed {α : Type} (c : Connection) (q : Ask δ StoreError α) : Talk (Session σ) StoreError α := do
  askAs B .actor (.ensureCurrentPath c)
  askAs B .actor q

def markedCount (c : Connection) (scanId : Int) : Talk (Session σ) StoreError δ :=
  probed B c (.scanMarkedCount c scanId)

def latestScanId (c : Connection) : Talk (Session σ) StoreError δ := probed B c (.latestScanId c)

def latestScanCovering (c : Connection) (cwd : Bytes) : Talk (Session σ) StoreError δ :=
  probed B c (.latestScanCovering c cwd)

def attributedDirGroup (c : Connection) (scanId : Int) (signature : String) :
    Talk (Session σ) StoreError δ :=
  probed B c (.attributedDirGroup c scanId signature)

def dirAggregates (c : Connection) (scanId : Int) (dirs : List Bytes) (algo : DirSigAlgo) :
    Talk (Session σ) StoreError δ :=
  probed B c (.dirAggregates c scanId dirs algo)

def reconcileMarksAfterBatch (c : Connection) (scanId : Int) (spent : List Bytes) :
    Talk (Session σ) StoreError δ :=
  probed B c (.reconcileMarks c scanId spent)

def upsertHash (c : Connection) (device inode size : Nat) (mtime : Int) (digest : Bytes) :
    Talk (Session σ) StoreError δ :=
  probed B c (.upsertHash c device inode size mtime digest)

/-- `ScanStore::build_action_plan` -/
def planOf (c : Connection) (scanId : Int) (requested : List RequestedMark) :
    Talk (Session σ) PlanRefusal ActionPlan := do
  let asRefusal : SnapshotMiss → PlanRefusal
    | .answered .unknown => .rescanRequired
    | miss => .store miss.describe
  let _ ← (askAs B .plan (.membershipSnapshot c scanId)).mapError asRefusal
  askAs B .plan (.planFromSnapshot c scanId requested)

/-- `build_action_plan`: the probe's error outside, the plan's own refusal inside. -/
def buildActionPlan (c : Connection) (scanId : Int) (requested : List RequestedMark) :
    Talk (Session σ) StoreError (Except PlanRefusal ActionPlan) := do
  askAs B .actor (.ensureCurrentPath c)
  (planOf B c scanId requested).attempt

end Guarded

end Browse

end DedupCommando
