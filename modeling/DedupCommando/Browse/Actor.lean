import DedupCommando.Browse.Door

/-!
# The browsing actor

* `Slot`, `Actor` — the connection, the installed scan, and what was emitted so far.
* `connectionGate`, `scanGate` — what a request has to pass before a store operation.
* `finish`, `markAck`, `autoSelectDone`, `autoSelectFailed` — the funnels of every reply, which
  poison the actor on a replaced database.
* `handle`, `refuseClosing` — one request, while the actor serves and once it is closing.
-/

set_option autoImplicit false

namespace DedupCommando

namespace Browse

/-! ## State -/

inductive Slot where
  | absent
  | «open» (c : Connection)
  | poisoned (detail : String)
  deriving DecidableEq

/-- The scan a successful `Open` installed. -/
structure ActiveScan where
  scanId : Int
  act : Activation
  dirSigAlgo : DirSigAlgo
  deriving DecidableEq

/-- A reply, with the connection and the installed scan at the moment it left. -/
structure Emission (δ : Type) where
  event : BrowseEvent δ
  slot : Slot
  active : Option ActiveScan

/-- `ActorState`, with the store behind it and the replies that left. -/
structure Actor (σ δ : Type) where
  role : BrowseRole
  slot : Slot
  active : Option ActiveScan
  session : Session σ
  emitted : List (Emission δ)

namespace Actor

variable {σ δ ε α : Type}

/-- `spawn`: no connection, no scan. -/
def spawn (role : BrowseRole) (store : σ) : Actor σ δ := ⟨role, .absent, none, ⟨store, []⟩, []⟩

/-- `poison` -/
def poison (a : Actor σ δ) (detail : String) : Actor σ δ :=
  { a with slot := .poisoned detail, active := none }

def talk (a : Actor σ δ) (m : Talk (Session σ) ε α) : Except ε α × Actor σ δ :=
  match m.exec a.session with
  | (r, session) => (r, { a with session := session })

/-- `dir_sig_algo` -/
def dirSigAlgo (a : Actor σ δ) : DirSigAlgo := (a.active.map ActiveScan.dirSigAlgo).getD .old

end Actor

/-! ## Refusal mappings -/

/-- `closing_miss` -/
def closingMiss : SnapshotMiss := .answered (.store "browsing stopped")

/-- `miss_to_membership` -/
def missToMembership : StoreMiss → SnapshotMiss
  | .notOpen => .answered (.store "the browsing store is not open")
  | .closing => closingMiss
  | .pathChanged detail => .reopenRequired detail
  | .noActiveScan => .answered (.store "no scan is installed for browsing")
  | .staleActivation expected found =>
    .answered (.store s!"stale activation: expected {expected}, found {found}")
  | .readOnlyRole => .answered (.store "the observer role may not write")
  | .noSuchScan => .answered .noSuchScan
  | .read detail => .answered (.store detail)

/-- `membership_to_miss` -/
def membershipToMiss : SnapshotMiss → StoreMiss
  | .reopenRequired detail => .pathChanged detail
  | .answered .noSuchScan => .noSuchScan
  | miss => .read miss.text

/-- `app_to_miss` -/
def appToMiss (err : StoreError) : StoreMiss :=
  match pathMismatch err with
  | some detail => .pathChanged detail
  | none => .read err.text

/-- `miss_to_panel` -/
def missToPanel : StoreMiss → PanelFailure
  | .notOpen => .notOpen
  | .closing => .closing
  | .pathChanged detail => .pathChanged detail
  | .noActiveScan => .noActiveScan
  | .staleActivation expected found => .staleActivation expected found
  | .readOnlyRole => .snapshot (.answered (.store "the observer role may not write"))
  | .noSuchScan => .snapshot (.answered .noSuchScan)
  | .read detail => .snapshot (.answered (.store detail))

/-- `miss_to_mark` -/
def missToMark : StoreMiss → MarkWriteError
  | .pathChanged detail => .pathChanged detail
  | .closing => .store "browsing stopped"
  | .notOpen => .store "the browsing store is not open"
  | .noActiveScan => .store "no scan is installed for browsing"
  | .staleActivation expected found =>
    .store s!"stale activation: expected {expected}, found {found}"
  | .readOnlyRole => .store "the observer role may not write marks"
  | .noSuchScan => .store "no such scan"
  | .read detail => .store detail

/-- `miss_to_auto` -/
def missToAuto : StoreMiss → AutoSelectRefusal
  | .closing => .closing
  | .notOpen => .notOpen
  | .pathChanged detail => .pathChanged detail
  | .noActiveScan => .noActiveScan
  | .staleActivation expected found => .staleActivation expected found
  | .readOnlyRole => .readOnlyRole
  | .noSuchScan => .snapshot (.answered .noSuchScan)
  | .read detail => .snapshot (.answered (.store detail))

/-- `miss_to_plan` -/
def missToPlan : StoreMiss → PlanRefusal
  | .closing => .store "browsing stopped"
  | .notOpen => .store "the browsing store is not open"
  | .pathChanged detail => .store detail
  | .noActiveScan => .store "no scan is installed for browsing"
  | .staleActivation expected found =>
    .store s!"stale activation: expected {expected}, found {found}"
  | .readOnlyRole => .store "the observer role may not write"
  | .noSuchScan => .store "no such scan"
  | .read detail => .store detail

namespace Actor

variable {σ δ ε α : Type} (B : Backend σ δ)

/-! ## Gates -/

/-- `door`: the connection, opened when there was none yet. -/
def door (a : Actor σ δ) : Except StoreMiss Connection × Actor σ δ :=
  match a.slot with
  | .poisoned detail => (.error (.pathChanged detail), a)
  | .open c => (.ok c, a)
  | .absent =>
    match a.talk (Guarded.open B a.role) with
    | (.ok c, a) => (.ok c, { a with slot := .open c })
    | (.error err, a) => (.error (appToMiss err), a)

/-- `connection_gate` -/
def connectionGate (write : Bool) (a : Actor σ δ) : Except StoreMiss Unit × Actor σ δ :=
  match a.slot with
  | .poisoned detail => (.error (.pathChanged detail), a)
  | _ =>
    if write = true ∧ a.role = .observer then (.error .readOnlyRole, a)
    else
      match a.door B with
      | (.ok _, a) => (.ok (), a)
      | (.error miss, a) => (.error miss, a)

/-- `scan_gate` -/
def scanGate (act : Activation) (write : Bool) (a : Actor σ δ) : Except StoreMiss Int :=
  match a.slot with
  | .poisoned detail => .error (.pathChanged detail)
  | slot =>
    if write = true ∧ a.role = .observer then .error .readOnlyRole
    else
      match a.active with
      | none => .error .noActiveScan
      | some active =>
        if active.act ≠ act then .error (.staleActivation active.act act)
        else
          match slot with
          | .open _ => .ok active.scanId
          | _ => .error .notOpen

/-! ## Funnels -/

/-- `event` -/
def event (e : BrowseEvent δ) (a : Actor σ δ) : Actor σ δ :=
  { a with emitted := a.emitted ++ [⟨e, a.slot, a.active⟩] }

/-- The poisoning decision of every funnel. -/
def poisonOn (mismatch : Option String) (a : Actor σ δ) : Actor σ δ :=
  match mismatch with
  | some detail => a.poison detail
  | none => a

/-- `finish` -/
def finish [PathMismatch ε] (result : Except ε α) (into : Except ε α → BrowseEvent δ)
    (a : Actor σ δ) : Actor σ δ :=
  (a.poisonOn (mismatchOf result)).event (into result)


/-- What the outcome of a mark request says about the database path. -/
def markMismatch : MarkOutcome → Option String
  | .unreadable error => pathMismatch error
  | _ => none

/-- `mark_ack` -/
def markAck (act : Activation) (req : RequestId) (outcome : MarkOutcome) (a : Actor σ δ) :
    Actor σ δ :=
  (a.poisonOn (markMismatch outcome)).event (.markAck act req outcome)

def autoMismatch : AutoSelectOutcome → Option String
  | .refused (.pathChanged detail) => some detail
  | .refused (.firstChunk error) => pathMismatch error
  | .refused (.snapshot miss) => pathMismatch miss
  | _ => none

/-- `auto_select_done` -/
def autoSelectDone (act : Activation) (req : RequestId) (outcome : AutoSelectOutcome)
    (a : Actor σ δ) : Actor σ δ :=
  (a.poisonOn (autoMismatch outcome)).event (.autoSelectDone act req outcome)

/-- `SweepFailure::text` -/
def sweepText : SweepFailure → String
  | .snapshot miss => s!"membership refused: {miss.text}"
  | .read rank miss => s!"group rank {rank} refused: {miss.text}"
  | .write error => s!"mark write refused: {B.debugWrite error}"

/-- The outcome of a failed sweep. -/
def failedOutcome (committed : Option (Nat × Int)) (failure : SweepFailure) : AutoSelectOutcome :=
  match committed with
  | some (groups, rank) => .partialSweep groups rank false (sweepText B failure)
  | none =>
    .refused (match failure with
      | .write error =>
        match pathMismatch error with
        | some detail => .pathChanged detail
        | none => .firstChunk error
      | .snapshot miss => .snapshot miss
      | .read rank miss => .read s!"group rank {rank}: {miss.text}")

/-- `auto_select_failed`: the failure reaches the funnel typed. -/
def autoSelectFailed (act : Activation) (req : RequestId) (committed : Option (Nat × Int))
    (failure : SweepFailure) (a : Actor σ δ) : Actor σ δ :=
  (a.poisonOn (pathMismatch failure)).event
    (.autoSelectDone act req (failedOutcome B committed failure))

/-! ## Scan-scoped and connection-scoped requests -/

/-- The shape of a scan-scoped request: the gate, then one program over the connection. -/
def scanScoped [PathMismatch ε] (act : Activation) (write : Bool) (refuse : StoreMiss → ε)
    (body : Connection → Int → Talk (Session σ) ε α) (into : Except ε α → BrowseEvent δ)
    (a : Actor σ δ) : Actor σ δ :=
  match a.scanGate act write with
  | .error miss => a.finish (.error (refuse miss)) into
  | .ok scanId =>
    match a.slot with
    | .open c =>
      match a.talk (body c scanId) with
      | (result, a) => a.finish result into
    | _ => a.finish (.error (refuse .notOpen)) into

/-- The shape of a connection-scoped request. -/
def connectionScoped (write : Bool) (body : Connection → Talk (Session σ) StoreError α)
    (into : Except StoreMiss α → BrowseEvent δ) (a : Actor σ δ) : Actor σ δ :=
  match a.connectionGate B write with
  | (.error miss, a) => a.finish (.error miss) into
  | (.ok (), a) =>
    match a.slot with
    | .open c =>
      match a.talk ((body c).mapError appToMiss) with
      | (result, a) => a.finish result into
    | _ => a.finish (.error .notOpen) into

/-- The file half and the directory half of one panel refresh. -/
def panelBody (files dirs : List Bytes) (algo : DirSigAlgo) (c : Connection) (scanId : Int) :
    Talk (Session σ) PanelFailure (PanelData δ) := do
  let fileFail : SnapshotMiss → PanelFailure
    | .reopenRequired detail => .pathChanged detail
    | other => .files other.text
  let dirFail (err : StoreError) : PanelFailure :=
    match pathMismatch err with
    | some detail => .pathChanged detail
    | none => .directories err.text
  let _ ← (Guarded.membershipSnapshot B c scanId).mapError .snapshot
  let answers ← (askAs B .actor (.panelFiles c files)).mapError fileFail
  let marks ← (askAs B .actor (.panelMarks c files)).mapError fileFail
  let dirs ← (Guarded.dirAggregates B c scanId dirs algo).mapError dirFail
  pure ⟨answers, marks, dirs⟩

def panelData (act : Activation) (req : RequestId) (files dirs : List Bytes) (a : Actor σ δ) :
    Actor σ δ :=
  a.scanScoped act false missToPanel (panelBody B files dirs a.dirSigAlgo) (.panelData act req)

/-- One reader of a fresh membership snapshot. -/
def fromSnapshot (q : Connection → Ask δ SnapshotMiss α) (c : Connection) (scanId : Int) :
    Talk (Session σ) SnapshotMiss α := do
  let _ ← Guarded.membershipSnapshot B c scanId
  askAs B .actor (q c)

def groupOpen (act : Activation) (req : RequestId) (id : GroupId) (offset limit : Nat)
    (a : Actor σ δ) : Actor σ δ :=
  a.scanScoped act false missToMembership
    (fromSnapshot B fun c => .groupPage c id offset limit) (.group act req)

def groupCount (act : Activation) (req : RequestId) (id : GroupId) (a : Actor σ δ) : Actor σ δ :=
  a.scanScoped act false missToMembership
    (fromSnapshot B fun c => .groupMemberCount c id) (.groupCount act req)

def fileInfo (act : Activation) (req : RequestId) (path : Bytes) (a : Actor σ δ) : Actor σ δ :=
  a.scanScoped act false id
    (fun c scanId => (fromSnapshot B (fun c => .fileInfo c path) c scanId).mapError membershipToMiss)
    (.fileInfo act req)

def dirGroupAt (act : Activation) (req : RequestId) (dir : Bytes) (a : Actor σ δ) : Actor σ δ :=
  a.scanScoped act false id
    (fun c scanId => (fromSnapshot B (fun c => .dirGroupAt c dir) c scanId).mapError membershipToMiss)
    (.dirGroupAt act req)

def openDirGroup (act : Activation) (req : RequestId) (signature : String) (a : Actor σ δ) :
    Actor σ δ :=
  a.scanScoped act false id
    (fun c scanId => (Guarded.attributedDirGroup B c scanId signature).mapError appToMiss)
    (.dirGroupOpened act req)

def markedCount (act : Activation) (req : RequestId) (a : Actor σ δ) : Actor σ δ :=
  a.scanScoped act false id
    (fun c scanId => (Guarded.markedCount B c scanId).mapError appToMiss) (.markedCount act req)

def reconcile (act : Activation) (req : RequestId) (spent : List Bytes) (a : Actor σ δ) :
    Actor σ δ :=
  a.scanScoped act true id
    (fun c scanId => (Guarded.reconcileMarksAfterBatch B c scanId spent).mapError appToMiss)
    (.reconcileAck act req)

def latestScan (act : Activation) (req : RequestId) (a : Actor σ δ) : Actor σ δ :=
  a.connectionScoped B false (Guarded.latestScanId B) (.latestScan act req)

def coveringScan (act : Activation) (req : RequestId) (cwd : Bytes) (a : Actor σ δ) : Actor σ δ :=
  a.connectionScoped B false (fun c => Guarded.latestScanCovering B c cwd)
    (.coveringScan act req cwd)

def cacheHash (act : Activation) (req : RequestId) (device inode size : Nat) (mtime : Int)
    (digest : Bytes) (a : Actor σ δ) : Actor σ δ :=
  a.connectionScoped B true (fun c => Guarded.upsertHash B c device inode size mtime digest)
    (.cacheHashAck act req)

/-! ## Marks -/

/-- The shape of a mark request: its outcome is a value, and its funnel its own. -/
def markScoped (act : Activation) (req : RequestId)
    (body : Connection → Int → Talk (Session σ) MarkWriteError MarkOutcome) (a : Actor σ δ) :
    Actor σ δ :=
  match a.scanGate act true with
  | .error miss => a.markAck act req (.unreadable (missToMark miss))
  | .ok scanId =>
    match a.slot with
    | .open c =>
      match a.talk (body c scanId) with
      | (.ok outcome, a) => a.markAck act req outcome
      | (.error error, a) => a.markAck act req (.unreadable error)
    | _ => a.markAck act req (.unreadable (missToMark .notOpen))

def setMarks (act : Activation) (req : RequestId) (entries : List MarkedEntry) (a : Actor σ δ) :
    Actor σ δ :=
  a.markScoped act req fun c scanId => do
    let after ← Guarded.saveMarksSettled B c scanId entries
    pure (.settled after)

def clearMarks (act : Activation) (req : RequestId) (a : Actor σ δ) : Actor σ δ :=
  a.markScoped act req fun c scanId => do
    let count ← Guarded.clearMarksSettled B c scanId
    pure (.cleared count)

/-! ## The auto-select sweep -/

/-- `SweepEnd` -/
inductive SweepEnd where
  | unknown
  | done (groups marks : Nat)
  | cancelledEarly
  | cancelledAfter (groups : Nat) (lastRank : Int)
  | failed (committed : Option (Nat × Int)) (failure : SweepFailure)

/-- The end of a stopped sweep. -/
def stopped (p : SweepProgress) : SweepEnd :=
  match p.committedSoFar with
  | none => .cancelledEarly
  | some (groups, rank) => .cancelledAfter groups rank

/-- The read half of a chunk. -/
def gatherChunk (c : Connection) : List GroupId → Talk (Session σ) SweepFailure (List MarkedEntry)
  | [] => pure []
  | id :: ids => do
    let members ← (askAs B .actor (.group c id)).mapError (.read id.rank)
    let batch ← gatherChunk c ids
    pure (markMembers members ++ batch)

/-- One chunk: a snapshot of its own, its groups, and one write. -/
def sweepChunk (c : Connection) (scanId : Int) (chunk : List GroupId) :
    Talk (Session σ) SweepFailure Nat := do
  let _ ← (Guarded.membershipSnapshot B c scanId).mapError .snapshot
  let batch ← gatherChunk B c chunk
  let _ ← (Guarded.saveMarksSettled B c scanId batch).mapError .write
  pure (batch.countP fun f => f.action.isSome)

def sweepChunks (c : Connection) (scanId : Int) (cancel : CancelToken) :
    SweepProgress → List (List GroupId) → Talk (Session σ) SweepEnd SweepEnd
  | p, [] => pure (.done p.committedGroups p.marks)
  | p, chunk :: chunks => do
    let stop ← glance (B.stop cancel)
    if stop then pure (stopped p)
    else
      let marks ← (sweepChunk B c scanId chunk).mapError (.failed p.committedSoFar)
      sweepChunks c scanId cancel (p.commit chunk marks) chunks

/-- `run_sweep` -/
def runSweep (c : Connection) (scanId : Int) (cancel : CancelToken) :
    Talk (Session σ) SweepEnd SweepEnd := do
  let failed (miss : SnapshotMiss) : SweepEnd := .failed none (.snapshot miss)
  let mode ← (Guarded.membershipSnapshot B c scanId).mapError failed
  if mode = .unknown then pure .unknown
  else
    let summaries ← (askAs B .actor (.summaries c)).mapError failed
    sweepChunks B c scanId cancel .start (Chunks.chunks (saveChunkGroups - 1) summaries.groups)

/-- The reply to the end of a sweep. -/
def sweepEnded (act : Activation) (req : RequestId) (sweep : SweepEnd) (a : Actor σ δ) :
    Actor σ δ :=
  match sweep with
  | .unknown => a.autoSelectDone act req (.refused .unknown)
  | .done groups marks => a.autoSelectDone act req (.completed groups marks)
  | .cancelledEarly => a.autoSelectDone act req (.refused .cancelledBeforeFirstCommit)
  | .cancelledAfter groups lastRank =>
    a.autoSelectDone act req (.partialSweep groups lastRank true "cancelled by the operator")
  | .failed committed failure => a.autoSelectFailed B act req committed failure

def autoSelect (act : Activation) (req : RequestId) (cancel : CancelToken) (a : Actor σ δ) :
    Actor σ δ :=
  match a.scanGate act true with
  | .error miss => a.autoSelectDone act req (.refused (missToAuto miss))
  | .ok scanId =>
    match a.slot with
    | .open c =>
      match a.talk (runSweep B c scanId cancel) with
      | (.ok sweep, a) => a.sweepEnded B act req sweep
      | (.error sweep, a) => a.sweepEnded B act req sweep
    | _ => a.autoSelectDone act req (.refused .notOpen)

/-! ## The plan -/

/-- The plan, and what stands in the way of each of its actions. -/
def planBody (requested : List RequestedMark) (datasets : List Dataset) (reflinkSafe : Bool)
    (c : Connection) (scanId : Int) :
    Talk (Session σ) StoreError (Except PlanRefusal (ActionPlan × Unrunnable)) := do
  let built ← Guarded.buildActionPlan B c scanId requested
  match built with
  | .ok plan =>
    let unrunnable ← glance (B.unrunnable plan datasets reflinkSafe)
    pure (.ok (plan, unrunnable))
  | .error refusal => pure (.error refusal)

def planReply (act : Activation) (req : RequestId) :
    Except StoreError (Except PlanRefusal (ActionPlan × Unrunnable)) → BrowseEvent δ
  | .ok (.ok (plan, unrunnable)) => .planReady act req plan unrunnable
  | .ok (.error refusal) => .planRefused act req refusal
  | .error err => .planRefused act req (.store err.text)

/-- The reply to a request for a plan that stopped at the gate. -/
def planGated (act : Activation) (req : RequestId) : Except StoreMiss Empty → BrowseEvent δ
  | .ok never => never.elim
  | .error miss => .planRefused act req (missToPlan miss)

def buildPlan (act : Activation) (req : RequestId) (requested : List RequestedMark)
    (datasets : List Dataset) (reflinkSafe : Bool) (a : Actor σ δ) : Actor σ δ :=
  match a.scanGate act false with
  | .error miss => a.finish (.error miss) (planGated act req)
  | .ok scanId =>
    match a.slot with
    | .open c =>
      match a.talk (planBody B requested datasets reflinkSafe c scanId) with
      | (result, a) => a.finish result (planReply act req)
    | _ => a.finish (.ok (.error (missToPlan .notOpen))) (planReply act req)

/-! ## `Open` -/

/-- The failure of a candidate step, by the type of its error. -/
inductive CandidateFail where
  | typed (failure : BrowseOpenFailure)
  | mismatch (detail : String)

/-- `classify_app` -/
def classifyApp (into : String → BrowseOpenFailure) (err : StoreError) : CandidateFail :=
  match pathMismatch err with
  | some detail => .mismatch detail
  | none => .typed (into err.text)

/-- `classify_miss` -/
def classifyMiss (into : SnapshotMiss → BrowseOpenFailure) : SnapshotMiss → CandidateFail
  | .reopenRequired detail => .mismatch detail
  | .answered .noSuchScan => .typed .noSuchScan
  | miss => .typed (into miss)

/-- The published summaries, or the candidate view of a scan with no authority. -/
def presentationOf (c : Connection) (mode : MembershipMode) :
    Talk (Session σ) CandidateFail (Bool × δ) :=
  if mode = .unknown then do
    let candidates ← (askAs B .actor (.unknownCandidates c)).mapError (classifyMiss .summaries)
    match candidates with
    | some view => pure (false, view)
    | none => Talk.fail (.typed (.summaries (.answered
        (.store "the candidate view is missing for an Unknown scan"))))
  else do
    let summaries ← (askAs B .actor (.summaries c)).mapError (classifyMiss .summaries)
    pure (true, summaries.data)

/-- The legacy preparation of an operator's open. -/
def prepareStep (role : BrowseRole) (c : Connection) (scanId : Int) :
    Talk (Session σ) CandidateFail Unit :=
  if role = .operator then
    (Guarded.prepareLegacyForViewing B c scanId).mapError (classifyApp .prepare)
  else pure ()

/-- `build_candidate` over an open connection. -/
def candidateOf (role : BrowseRole) (c : Connection) (scanId : Int) :
    Talk (Session σ) CandidateFail (OpenedBrowse δ × DirSigAlgo) := do
  prepareStep B role c scanId
  let mode ← (Guarded.membershipSnapshot B c scanId).mapError (classifyMiss .snapshot)
  let presentation ← presentationOf B c mode
  let algo ← (askAs B .actor (.scanConfig c)).mapError (classifyApp .config)
  let status ← (askAs B .actor (.scanStatus c)).mapError (classifyApp .scanStatus)
  let summary ← (askAs B .actor (.scanSummary c)).mapError (classifyApp .scanSummary)
  let createdAt ← (askAs B .actor (.scanCreatedAt c)).mapError (classifyApp .createdAt)
  let marked ← (askAs B .actor (.markedCount c)).mapError (classifyApp .markedCount)
  let dirGroups ← (askAs B .actor (.dirGroupSummaries c)).mapError (classifyApp .dirGroups)
  pure (⟨scanId, status, createdAt, summary, marked, dirGroups, presentation.1, presentation.2⟩, algo)

/-- `build_candidate` -/
def buildCandidate (scanId : Int) (a : Actor σ δ) :
    Except CandidateFail (OpenedBrowse δ × DirSigAlgo) × Actor σ δ :=
  match a.slot with
  | .open c => a.talk (candidateOf B a.role c scanId)
  | _ => (.error (.typed (.openFailed "the browsing store is not open")), a)

/-- The reuse check: the mismatch that discards a live pair, or the one it was poisoned with. -/
def bracket (a : Actor σ δ) : Option String × Actor σ δ :=
  match a.slot with
  | .open c =>
    match a.talk (Guarded.identityCheck B c) with
    | (.ok (), a) => (none, a)
    | (.error err, a) => (some ((pathMismatch err).getD err.text), a)
  | .poisoned detail => (some detail, a)
  | .absent => (none, a)

/-- A connection of its own, over whatever was discarded. -/
def reopen (retained : Option String) (a : Actor σ δ) :
    Except BrowseOpenFailure Unit × Actor σ δ :=
  match Actor.talk { a with slot := .absent, active := none } (Guarded.open B a.role) with
  | (.ok c, a) => (.ok (), { a with slot := .open c })
  | (.error err, a) =>
    match pathMismatch err, retained with
    | some detail, _ => (.error (.pathChanged detail), a.poison detail)
    | none, some mismatch =>
      let detail := s!"{mismatch}; reopening also failed: {err.text}"
      (.error (.pathChanged detail), a.poison detail)
    | none, none => (.error (.openFailed err.text), a)

/-- A healthy connection is reused, everything else is replaced. -/
def reuseOrOpen (retained : Option String) (a : Actor σ δ) :
    Except BrowseOpenFailure Unit × Actor σ δ :=
  match a.slot, retained with
  | .open _, none => (.ok (), a)
  | _, _ => a.reopen B retained

/-- Install, a refusal that keeps the installed scan, or a refusal that uninstalled it. -/
def install (act : Activation) (req : RequestId) (scanId : Int) (retained : Option String)
    (built : Except CandidateFail (OpenedBrowse δ × DirSigAlgo)) (a : Actor σ δ) : Actor σ δ :=
  match built, retained with
  | .ok (payload, algo), _ =>
    finish (.ok payload : Except BrowseOpenFailure (OpenedBrowse δ)) (.openFinished act req)
      { a with active := some ⟨scanId, act, algo⟩ }
  | .error (.typed failure), none => a.finish (.error failure) (.openFinished act req)
  | .error (.typed failure), some mismatch =>
    let detail := s!"{mismatch}; the reopened checkpoint then refused: {B.debugOpen failure}"
    (a.poison detail).finish (.error (.pathChanged detail)) (.openFinished act req)
  | .error (.mismatch detail), _ =>
    (a.poison detail).finish (.error (.pathChanged detail)) (.openFinished act req)

/-- The `Open` arm: reuse or open, build the complete candidate, then install. -/
def openScan (act : Activation) (req : RequestId) (scanId : Int) (a : Actor σ δ) : Actor σ δ :=
  match a.bracket B with
  | (retained, a) =>
    match a.reuseOrOpen B retained with
    | (.error failure, a) => a.finish (.error failure) (.openFinished act req)
    | (.ok (), a) =>
      match a.buildCandidate B scanId with
      | (built, a) => a.install B act req scanId retained built

/-! ## Dispatch -/

/-- `handle` -/
def handle (request : BrowseRequest) (a : Actor σ δ) : Actor σ δ :=
  match request with
  | .open act req scanId => a.openScan B act req scanId
  | .panelData act req files dirs => a.panelData B act req files dirs
  | .groupOpen act req id offset limit => a.groupOpen B act req id offset limit
  | .groupCount act req id => a.groupCount B act req id
  | .fileInfo act req path => a.fileInfo B act req path
  | .dirGroupAt act req dir => a.dirGroupAt B act req dir
  | .openDirGroup act req signature => a.openDirGroup B act req signature
  | .markedCount act req => a.markedCount B act req
  | .setMarks act req entries => a.setMarks B act req entries
  | .clearMarks act req => a.clearMarks B act req
  | .autoSelect act req cancel => a.autoSelect B act req cancel
  | .buildPlan act req requested datasets reflinkSafe =>
    a.buildPlan B act req requested datasets reflinkSafe
  | .reconcileAfterBatch act req spent => a.reconcile B act req spent
  | .latestScan act req => a.latestScan B act req
  | .coveringScan act req cwd => a.coveringScan B act req cwd
  | .cacheHash act req device inode size mtime digest =>
    a.cacheHash B act req device inode size mtime digest
  | .shutdown => a

/-- The refusal of a plan once the actor is closing. -/
def planStopped (act : Activation) (req : RequestId) : Except StoreMiss Empty → BrowseEvent δ
  | .ok never => never.elim
  | .error _ => .planRefused act req (.store "browsing stopped")

/-- `refuse_closing`: one terminal for each request, and no store operation. -/
def refuseClosing (request : BrowseRequest) (a : Actor σ δ) : Actor σ δ :=
  match request with
  | .open act req _ => a.finish (.error .closing) (.openFinished act req)
  | .panelData act req _ _ => a.finish (.error .closing) (.panelData act req)
  | .groupOpen act req _ _ _ => a.finish (.error closingMiss) (.group act req)
  | .groupCount act req _ => a.finish (.error closingMiss) (.groupCount act req)
  | .fileInfo act req _ => a.finish (.error .closing) (.fileInfo act req)
  | .dirGroupAt act req _ => a.finish (.error .closing) (.dirGroupAt act req)
  | .openDirGroup act req _ => a.finish (.error .closing) (.dirGroupOpened act req)
  | .markedCount act req => a.finish (.error .closing) (.markedCount act req)
  | .setMarks act req _ => a.markAck act req (.unreadable (.store "browsing stopped"))
  | .clearMarks act req => a.markAck act req (.unreadable (.store "browsing stopped"))
  | .autoSelect act req _ => a.autoSelectDone act req (.refused .closing)
  | .buildPlan act req _ _ _ => a.finish (.error .closing) (planStopped act req)
  | .reconcileAfterBatch act req _ => a.finish (.error .notOpen) (.reconcileAck act req)
  | .cacheHash act req _ _ _ _ _ => a.finish (.error .notOpen) (.cacheHashAck act req)
  | .latestScan act req => a.finish (.error .closing) (.latestScan act req)
  | .coveringScan act req cwd => a.finish (.error .closing) (.coveringScan act req cwd)
  | .shutdown => a

/-- One dispatch of the run loop. -/
def dispatch (closing : Bool) (request : BrowseRequest) (a : Actor σ δ) : Actor σ δ :=
  if closing then a.refuseClosing request else a.handle B request

end Actor

end Browse

end DedupCommando
