import DedupCommando.Actions.Preflight
import DedupCommando.Actions.Publish
import DedupCommando.Model.Ledger

/-!
# A batch

`run_batch` of `actions/mod.rs` with `Batch` and the content re-check in front of each action.

* `verifyFile`, `revalidate` — symlink, size and digest of the target and of the keeper, with the
  per-batch cache.
* `Batch.admission` — everything that can refuse an action before a file is touched.
* `Batch.carryOut`, `Batch.afterMove`, `Batch.finishPublication` — the action, and what the ledger
  makes of it.
* `Batch.applyAll`, `runBatch` — the loop with its cancellation, and the whole batch.
-/

set_option autoImplicit false

namespace DedupCommando

/-! ## The content re-check -/

/-- `RevalidationMode`. -/
inductive RevalidationMode where
  | strict
  | hybrid
  | fast
  deriving DecidableEq, Repr

/-- `FileIdentity`; `st_mode` is the kind with the permission bits. -/
structure FileIdentity where
  dev : Nat
  ino : Nat
  size : Nat
  mtime : Timespec
  ctime : Timespec
  kind : FileKind
  mode : Nat
  deriving DecidableEq

def Node.fileIdentity (n : Node) (i : InodeId) : FileIdentity :=
  ⟨i.device, i.inode, n.size, n.mtime, n.ctime, n.kind, n.mode⟩

/-- The files a batch has re-checked, newest first. -/
abbrev Verified := List (Path × FileIdentity)

def hexDigit (n : Nat) : Char := Char.ofNat (if n < 10 then 48 + n else 87 + n)

/-- `hex32`. -/
def hex32 (bytes : Bytes) : String :=
  String.ofList (bytes.flatMap fun b => [hexDigit (b.val / 16), hexDigit (b.val % 16)])

/-- `hash_file`: a regular file's digest, its bytes counted. -/
def hashFile (path : Path) (w : World) : Except IoError Bytes × World :=
  match w.openFile path with
  | (.error e, w) => (.error e, w)
  | (.ok (_, n), w) =>
    if n.kind ≠ .regular then
      (.error ⟨none, "not a regular file (FIFO/device/socket) — skipping"⟩, w)
    else
      (.ok (w.outside.hash n.content),
        { w with bytesDone := (w.bytesDone + n.content.length) % 2 ^ 64 })

/-- `verify_file`. -/
def verifyFile (path : Path) (expectedSize : Nat) (expectedHash role : String)
    (mode : RevalidationMode) (verified : Verified) (w : World) :
    Except AppError Unit × Verified × World :=
  match w.lstat path with
  | (.error e, w) => (.error ⟨s!"{role} {path.display}: {e.text}"⟩, verified, w)
  | (.ok (i, n), w) =>
    if n.kind = .symlink then
      (.error ⟨s!"{role} {path.display} — symbolic link; action cancelled"⟩, verified, w)
    else if n.size ≠ expectedSize then
      (.error ⟨s!"{role} {path.display} changed after the scan (size) — action cancelled"⟩,
        verified, w)
    else if mode ≠ .strict ∧ verified.lookup path = some (n.fileIdentity i) then
      (.ok (), verified, w)
    else
      match hashFile path w with
      | (.error e, w) => (.error ⟨s!"{role} {path.display}: {e.text}"⟩, verified, w)
      | (.ok digest, w) =>
        if hex32 digest ≠ expectedHash then
          (.error ⟨s!"{role} {path.display} changed after the scan (content) — action cancelled"⟩,
            verified, w)
        else
          (.ok (), if mode ≠ .strict then (path, n.fileIdentity i) :: verified else verified, w)

/-- `revalidate`. -/
def revalidate (action : PlanAction) (mode : RevalidationMode) (verified : Verified) (w : World) :
    Except AppError Unit × Verified × World :=
  match verifyFile action.target action.size action.expectedHash "target" mode verified w with
  | (.error e, verified, w) => (.error e, verified, w)
  | (.ok (), verified, w) =>
    verifyFile action.keeper action.size action.expectedHash "keeper" mode verified w

/-! ## One action -/

structure ActionOutcome where
  kind : ActionKind
  target : Path
  quarantine : Option Path
  result : Except String Unit

/-- `Publication::split`. -/
def Publication.split : Publication → Option Path × ActionResult × Except String Unit
  | .published q => (some q, .removed, .ok ())
  | .notMoved detail => (none, .refused false, .error detail)
  | .rolledBack detail => (none, .refused true, .error detail)
  | .stranded q detail => (some q, .stranded q detail, .error detail)

inductive Linkage where
  | hardlink
  | reflink
  deriving DecidableEq, Repr

/-- Everything one running batch carries between its actions. -/
structure Batch where
  plan : ActionPlan
  datasets : List Dataset
  timestamp : Name
  reflinkSafe : Bool
  mode : RevalidationMode
  obstacles : List (Option String)
  guarded : List String
  verified : Verified
  quarantineDirs : List Path
  ledger : RuntimeLedger

/-- An action that never moved anything. -/
def refused (action : PlanAction) (detail : String) : ActionOutcome × ActionResult :=
  (⟨action.kind, action.target, none, .error detail⟩, .refused false)

namespace Batch

/-- `guarded_place`: where `action` runs, when this batch took that dataset's snapshot. -/
def guardedPlace (b : Batch) (action : PlanAction) : Except String Dataset :=
  match place b.plan action b.datasets b.reflinkSafe with
  | .error reason => .error reason
  | .ok dataset =>
    if dataset.name ∈ b.guarded then .ok dataset
    else
      .error (s!"no safety snapshot of {dataset.name} was taken in this batch — the action is " ++
        "not performed")

/-- The ledger first: the target's allocation, then the keeper's. -/
def checkBoth (b : Batch) (action : PlanAction) (w : World) : Except PlanRefusal Unit × World :=
  match b.ledger.check action.targetObject w with
  | (.error e, w) => (.error e, w)
  | (.ok (), w) => b.ledger.check action.keeperObject w

/-- What can refuse action `index` before a file is touched: an obstacle, its place, the ledger, the
    content. -/
def admission (index : Nat) (action : PlanAction) (b : Batch) (w : World) :
    Except String Dataset × Batch × World :=
  match (b.obstacles[index]?).join with
  | some obstacle => (.error obstacle, b, w)
  | none =>
    match b.guardedPlace action with
    | .error reason => (.error reason, b, w)
    | .ok dataset =>
      match b.checkBoth action w with
      | (.error e, w) => (.error e.message, b, w)
      | (.ok (), w) =>
        match revalidate action b.mode b.verified w with
        | (.error e, verified, w) => (.error e.message, { b with verified := verified }, w)
        | (.ok (), verified, w) => (.ok dataset, { b with verified := verified }, w)

def noteQuarantine (dir : Path) (b : Batch) : Batch :=
  if dir ∈ b.quarantineDirs then b else { b with quarantineDirs := b.quarantineDirs ++ [dir] }

/-- The second transition of an action that published something, over the ledger of the first. -/
def linkTransition (action : PlanAction) (linkage : Option Linkage) (ledger : RuntimeLedger)
    (w : World) : Except PlanRefusal RuntimeLedger × World :=
  match linkage with
  | none => (.ok ledger, w)
  | some .hardlink => ledger.linked action.keeperObject action.keeper action.target w
  | some .reflink =>
    ledger.cloned action.keeperObject action.targetObject action.keeper action.target w

/-- Neither allocation is trusted again, and the object claims nothing. -/
def unsettled (action : PlanAction) (moved : Path) (refusal : PlanRefusal) (b : Batch) :
    (ActionOutcome × ActionResult) × Batch :=
  ((⟨action.kind, action.target, some moved, .error refusal.message⟩,
      .unsettled moved refusal.message),
    { b with ledger := (b.ledger.poison action.targetObject).poison action.keeperObject })

/-- `after_move`: the ledger transitions of one successful action, in the order the kernel made
    them. -/
def afterMove (action : PlanAction) (moved : Path) (linkage : Option Linkage) (b : Batch)
    (w : World) : (ActionOutcome × ActionResult) × Batch × World :=
  match b.ledger.quarantined action.targetObject action.target moved w with
  | (.error e, w) =>
    match b.unsettled action moved e with
    | (done, b) => (done, b, w)
  | (.ok ledger, w) =>
    match linkTransition action linkage ledger w with
    | (.error e, w) =>
      -- the first transition stays booked on an allocation that is poisoned with it
      match { b with ledger := ledger }.unsettled action moved e with
      | (done, b) => (done, b, w)
    | (.ok ledger, w) =>
      ((⟨action.kind, action.target, some moved, .ok ()⟩, .removed), { b with ledger := ledger }, w)

/-- `settle_or_poison`, on the ledger the transitions left. -/
def settleOrPoison (object : Nat) (outcome : Except PlanRefusal RuntimeLedger)
    (ledger : RuntimeLedger) : Option String × RuntimeLedger :=
  match outcome with
  | .ok _ => (none, ledger)
  | .error refusal => (some refusal.message, ledger.poison object)

/-- The ledger a transition leaves: a failed one changes nothing. -/
def bookedIn (outcome : Except PlanRefusal RuntimeLedger) (ledger : RuntimeLedger) :
    RuntimeLedger :=
  match outcome with
  | .ok ledger => ledger
  | .error _ => ledger

/-- The target's transition after an attempt that published nothing. -/
def targetSettle (action : PlanAction) (published : Publication) (ledger : RuntimeLedger)
    (w : World) : Except PlanRefusal RuntimeLedger × World :=
  match published with
  | .stranded q _ => ledger.quarantined action.targetObject action.target q w
  | _ => ledger.settled action.targetObject action.target w

/-- The tail of `finish_publication`: both allocations are settled, unconditionally and in this
    order, and each one that does not add up is poisoned. -/
def settleBoth (action : PlanAction) (published : Publication) (b : Batch) (w : World) :
    (ActionOutcome × ActionResult) × Batch × World :=
  match targetSettle action published b.ledger w with
  | (target, w) =>
    let ledger := bookedIn target b.ledger
    match ledger.settled action.keeperObject action.keeper w with
    | (keeper, w) =>
      let ledger := bookedIn keeper ledger
      match settleOrPoison action.targetObject target ledger with
      | (first, ledger) =>
        match settleOrPoison action.keeperObject keeper ledger with
        | (second, ledger) =>
          let (quarantine, result, outcome) := published.split
          let detail := match outcome with
            | .error detail => detail
            | .ok () => ""
          let detail := [first, second].reduceOption.foldl (fun d extra => d ++ s!"; {extra}") detail
          ((⟨action.kind, action.target, quarantine, .error detail⟩, result),
            { b with ledger := ledger }, w)

/-- `finish_publication`. -/
def finishPublication (action : PlanAction) (dir : Path) (published : Publication)
    (linkage : Linkage) (b : Batch) (w : World) : (ActionOutcome × ActionResult) × Batch × World :=
  match published with
  | .published moved => (b.noteQuarantine dir).afterMove action moved (some linkage) w
  | .stranded _ _ => (b.noteQuarantine dir).settleBoth action published w
  | _ => b.settleBoth action published w

/-- `apply_delete`, `apply_hardlink`, `apply_reflink`. -/
def carryOut (action : PlanAction) (dataset : Dataset) (b : Batch) (w : World) :
    (ActionOutcome × ActionResult) × Batch × World :=
  let dir := quarantineDir dataset.mountpoint b.timestamp
  match action.kind with
  | .delete =>
    match deleteToQuarantine action.target dataset.mountpoint dir w with
    | (.error e, w) => (refused action e.message, b, w)
    | (.ok moved, w) => (b.noteQuarantine dir).afterMove action moved none w
  | .hardlink =>
    match hardlink action.target action.keeper dataset.mountpoint dir w with
    | (published, w) => b.finishPublication action dir published .hardlink w
  | .reflink =>
    match reflink action.target action.keeper dataset.mountpoint dir w with
    | (published, w) => b.finishPublication action dir published .reflink w

/-- `apply_one`. -/
def applyOne (index : Nat) (action : PlanAction) (b : Batch) (w : World) :
    (ActionOutcome × ActionResult) × Batch × World :=
  match b.admission index action w.pause with
  | (.error reason, b, w) => (refused action reason, b, w)
  | (.ok dataset, b, w) => b.carryOut action dataset w

/-- The loop over the actions from `index` on.  The flag says that it was cancelled. -/
def applyAll : Nat → List PlanAction → Batch → World →
    (List (ActionOutcome × ActionResult) × Bool) × Batch × World
  | _, [], b, w => (([], false), b, w)
  | index, action :: actions, b, w =>
    if w.outside.cancelled w.tick then (([], true), b, w)
    else
      match b.applyOne index action { w with index := index } with
      | (done, b, w) =>
        match applyAll (index + 1) actions b w with
        | ((rest, cancelled), b, w) => ((done :: rest, cancelled), b, w)

end Batch

/-! ## The whole batch -/

structure BatchResult where
  outcomes : List ActionOutcome
  snapshots : List String
  quarantineDirs : List Path
  planned : Nat
  cancelled : Bool
  aborted : Option String
  plan : PlanSummary
  realized : List (PlanObjectKey × ObjectRealization)
  realizedSummary : RealizedSummary
  bytesRead : Nat
  settlement : MarkSettlement

/-- How a batch that got past its first preflight ended. -/
inductive Begun where
  | ran (batch : BatchResult)
  | nothingCanRun (reason : String)

namespace World

def setPhase (phase : ApplyPhase) (w : World) : World := { w with phase := phase }

def note (e : Event) (w : World) : World := { w with log := w.log ++ [e] }

/-- `snapshot_suffix`: local time, nanoseconds, process and counter. -/
def snapshotSuffix (w : World) : Name × World :=
  let bytes := (w.outside.localTime w.tick).bytes ++ 45 ::
    (decimal9 (w.outside.nanos w.tick % 10 ^ 9) ++ 45 ::
      (decimal w.outside.pid ++ 45 :: decimal w.snapshotSeq))
  (Name.ofBytes bytes
    (by
      have h₁ := List.length_pos_iff.2 (w.outside.localTime w.tick).ne_nil
      simp only [bytes, List.length_append, List.length_cons]
      omega)
    (by
      intro x hx
      have hdash : (45 : Byte) ≠ 0 ∧ (45 : Byte) ≠ 47 := by decide
      simp only [bytes, decimal9, List.mem_append, List.mem_cons, List.mem_replicate] at hx
      rcases hx with hx | rfl | (⟨-, rfl⟩ | hx) | rfl | hx | rfl | hx
      · exact Name.byte_ok _ x hx
      · exact hdash
      · decide
      · exact digit_ok (decimal_digits x hx)
      · exact hdash
      · exact digit_ok (decimal_digits x hx)
      · exact hdash
      · exact digit_ok (decimal_digits x hx)),
    { w with snapshotSeq := w.snapshotSeq + 1 })

/-- `create_snapshot` of one dataset. -/
def createSnapshot (dataset : String) (suffix : Name) (w : World) :
    Except AppError String × World :=
  let made := w.outside.snapshot w.tick dataset suffix
  (made, w.pause.note (.snapshot dataset made.isOk))

end World

/-- The reading of `obstacles`, with what the confirmation counted out. -/
def ActionPlan.standing (plan : ActionPlan) (found : List (Option String)) :
    List (Option String) :=
  found.zipIdx.map fun f => f.1.or (if plan.isSetAside f.2 then some setAsideReason else none)

/-- The affected datasets: by the device of each target that can still be acted on. -/
def affectedDatasets (plan : ActionPlan) (datasets : List Dataset)
    (obstacles : List (Option String)) : List Dataset :=
  (plan.actions.zip obstacles).foldl (fun affected a =>
    if a.2.isSome then affected
    else
      match datasetByDevice datasets (plan.targetDevice a.1) with
      | none => affected
      | some dataset =>
        if affected.any fun known => decide (known.name = dataset.name) then affected
        else affected ++ [dataset]) []

/-- The snapshot loop; on a failure, what was made before it and the text. -/
def takeSnapshots (suffix : Name) : List Dataset → List String → World →
    Except (String × List String) (List String) × World
  | [], made, w => (.ok made, w)
  | dataset :: datasets, made, w =>
    match w.createSnapshot dataset.name suffix with
    | (.ok name, w) => takeSnapshots suffix datasets (made ++ [name]) w
    | (.error e, w) =>
      (.error (s!"failed to create snapshot {dataset.name}: {e.message}; batch of actions " ++
        "cancelled", made), w)

/-- `aborted_batch`: nothing was applied, and every snapshot already made is named. -/
def abortedBatch (plan : ActionPlan) (snapshots : List String) (detail : String) :
    Except AppError Begun :=
  match plan.realize [] with
  | .error e => .error ⟨e.message⟩
  | .ok (realized, summary) =>
    .ok (.ran
      { outcomes := [], snapshots := snapshots, quarantineDirs := [], planned := plan.actions.length
        cancelled := false, aborted := some detail, plan := plan.runnableSummary
        realized := realized, realizedSummary := summary, bytesRead := 0
        settlement := plan.settleMarks [] })

/-- Which actions ran: reached, and without an obstacle before the snapshots. -/
def ranOf (plan : ActionPlan) (reached : Nat) (obstacles : List (Option String)) : List Bool :=
  (List.range plan.actions.length).map fun index =>
    decide (index < reached) && ((obstacles[index]?).join).isNone

/-- Step 6: the actions, and what they achieved. -/
def applyStage (b : Batch) (snapshots : List String) (w : World) : Except AppError Begun × World :=
  match b.applyAll 0 b.plan.actions (w.setPhase .applying) with
  | ((done, cancelled), after, w) =>
    let w := w.setPhase .done
    match b.plan.realize (done.map Prod.snd) with
    | .error e => (.error ⟨e.message⟩, w)
    | .ok (realized, summary) =>
      (.ok (.ran
        { outcomes := done.map Prod.fst, snapshots := snapshots
          quarantineDirs := after.quarantineDirs, planned := b.plan.actions.length
          cancelled := cancelled, aborted := none, plan := b.plan.runnableSummary
          realized := realized, realizedSummary := summary, bytesRead := w.bytesDone
          settlement := b.plan.settleMarks (ranOf b.plan done.length after.obstacles) }), w)

/-- Steps 4 and 5: the safety snapshots and the second preflight. -/
def snapshotStage (plan : ActionPlan) (datasets : List Dataset) (reflinkSafe : Bool)
    (mode : RevalidationMode) (timestamp : Name) (obstacles : List (Option String)) (w : World) :
    Except AppError Begun × World :=
  let affected := affectedDatasets plan datasets obstacles
  match takeSnapshots timestamp affected [] w with
  | (.error (detail, made), w) =>
    if made = [] then (.error ⟨detail⟩, w) else (abortedBatch plan made detail, w)
  | (.ok made, w) =>
    match plan.preflight w.pause with
    | (.error e, w) => (abortedBatch plan made e.message, w.note (.preflight false))
    | (.ok live, w) =>
      applyStage
        { plan := plan, datasets := datasets, timestamp := timestamp, reflinkSafe := reflinkSafe
          mode := mode, obstacles := obstacles, guarded := affected.map Dataset.name
          verified := [], quarantineDirs := [], ledger := live }
        made (w.note (.preflight true))

/-- `run_batch`. -/
def runBatch (plan : ActionPlan) (datasets : List Dataset) (reflinkSafe : Bool)
    (mode : RevalidationMode) (w : World) : Except AppError Begun × World :=
  match w.snapshotSuffix with
  | (timestamp, w) =>
    match plan.preflight (w.setPhase .snapshots) with
    | (.error e, w) => (.error ⟨e.message⟩, w.note (.preflight false))
    | (.ok _, w) =>
      match obstacles plan datasets reflinkSafe (w.note (.preflight true)) with
      | (found, w) =>
        match nothingCanRun plan (plan.standing found) with
        | some refusal => (.ok (.nothingCanRun refusal), w)
        | none =>
          snapshotStage plan datasets reflinkSafe mode timestamp (plan.standing found) w

end DedupCommando
