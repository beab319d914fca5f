import DedupCommando.Lib.OrdMap
import DedupCommando.Model.PathKey

/-!
# What a scan left out

* `OmissionReason`, `EventCount` — why an entry never became a row, and how often; an event
  count is never zero and never wraps.
* `OmissionCounts`, `OmissionSummary` — events per directory and reason, and per reason alone.
* `rootKeys` — the keys of the selected roots, or why they carry no authority.
* `CompletenessSnapshot` — one load of the ledger; `build`, `verdict`, `disposition` and
  `scanAccounting` are the program's own.
-/

set_option autoImplicit false

namespace DedupCommando

/-! ## Reasons and counts -/

/-- Why a directory entry that exists on disk never became a manifest row. -/
inductive OmissionReason where
  | minSize
  | maxSize
  | extensionFiltered
  | nonUtf8
  | walkError
  | metadataError
  | unsupportedEntry
  deriving DecidableEq, Repr

namespace OmissionReason

def all : List OmissionReason :=
  [minSize, maxSize, extensionFiltered, nonUtf8, walkError, metadataError, unsupportedEntry]

def asStr : OmissionReason → String
  | minSize => "min_size"
  | maxSize => "max_size"
  | extensionFiltered => "extension_filtered"
  | nonUtf8 => "non_utf8"
  | walkError => "walk_error"
  | metadataError => "metadata_error"
  | unsupportedEntry => "unsupported_entry"

/-- `None` for anything this build does not know. -/
def parse (text : String) : Option OmissionReason := all.find? fun kind => decide (kind.asStr = text)

theorem parse_asStr (r : OmissionReason) : parse r.asStr = some r := by
  cases r <;> decide

/-- The place of a reason in the order of the declaration. -/
def index : OmissionReason → Nat
  | minSize => 0
  | maxSize => 1
  | extensionFiltered => 2
  | nonUtf8 => 3
  | walkError => 4
  | metadataError => 5
  | unsupportedEntry => 6

theorem index_injective : Function.Injective index := by
  intro a b h
  cases a <;> cases b <;> first | rfl | cases h

instance : LinearOrder OmissionReason := LinearOrder.lift' index index_injective

end OmissionReason

/-- A count of omission events: at least one, and a `u64`. -/
structure EventCount where
  get : Nat
  pos : 0 < get
  fits : get < 2 ^ 64
  deriving DecidableEq

namespace EventCount

def one : EventCount := ⟨1, by decide, by decide⟩

/-- A value read from the checkpoint; a stored count is an `i64`. -/
def fromI64 (raw : Int) : Except String EventCount :=
  if h : 0 < raw ∧ raw < 2 ^ 63 then .ok ⟨raw.toNat, by omega, by omega⟩
  else .error (s!"dedcom.db holds a corrupt omission count ({raw}); a recorded omission is never " ++
    "zero or negative. Rescan, or move the old dedcom.db aside.")

/-- What the signed column can hold. -/
def toI64 (c : EventCount) : Except String Int :=
  if c.get < 2 ^ 63 then .ok (c.get : Int)
  else .error s!"omission count {c.get} does not fit dedcom.db's integer column"

def checkedAdd (a b : EventCount) : Except String EventCount :=
  if h : a.get + b.get < 2 ^ 64 then .ok ⟨a.get + b.get, Nat.add_pos_left a.pos _, h⟩
  else .error "omission counts overflowed while aggregating"

theorem checkedAdd_ok {a b c : EventCount} (h : a.checkedAdd b = .ok c) :
    c.get = a.get + b.get := by
  unfold checkedAdd at h
  split at h
  · cases h; rfl
  · cases h

theorem checkedAdd_error {a b : EventCount} {e : String} (h : a.checkedAdd b = .error e) :
    2 ^ 64 ≤ a.get + b.get := by
  unfold checkedAdd at h
  split at h
  · cases h
  · rename_i hn; exact not_lt.1 hn

theorem fromI64_toI64 {c : EventCount} {n : Int} (h : c.toI64 = .ok n) : fromI64 n = .ok c := by
  unfold toI64 at h
  split at h
  · rename_i hc
    cases h
    have hn : 0 < (c.get : Int) ∧ (c.get : Int) < 2 ^ 63 := ⟨by have := c.pos; omega, by omega⟩
    unfold fromI64
    rw [dif_pos hn]
    cases c; simp
  · cases h

end EventCount

/-! ## Aggregation -/

/-- One root's omissions by affected directory and reason. -/
structure OmissionCounts where
  cells : OrdMap (PathKey ×ₗ OmissionReason) EventCount

namespace OmissionCounts

def new : OmissionCounts := ⟨OrdMap.empty⟩

/-- Records `count` events at once. -/
def add (counts : OmissionCounts) (directory : PathKey) (reason : OmissionReason)
    (count : EventCount) : Except String OmissionCounts :=
  let cell := toLex (directory, reason)
  match counts.cells.get? cell with
  | none => .ok ⟨counts.cells.insert cell count⟩
  | some existing =>
    match existing.checkedAdd count with
    | .ok total => .ok ⟨counts.cells.insert cell total⟩
    | .error e => .error e

/-- Records one event. -/
def bump (counts : OmissionCounts) (directory : PathKey) (reason : OmissionReason) :
    Except String OmissionCounts :=
  counts.add directory reason .one

/-- Every recorded cell, in ascending order. -/
def iter (counts : OmissionCounts) : List (PathKey × OmissionReason × EventCount) :=
  counts.cells.entries.map fun e => ((ofLex e.1).1, (ofLex e.1).2, e.2)

end OmissionCounts

/-- What was omitted at or under one directory, per reason. -/
structure OmissionSummary where
  perReason : OrdMap OmissionReason EventCount
  deriving DecidableEq

namespace OmissionSummary

def default : OmissionSummary := ⟨OrdMap.empty⟩

/-- Folds one reason's events in. -/
def add (s : OmissionSummary) (reason : OmissionReason) (count : EventCount) :
    Except String OmissionSummary :=
  match s.perReason.get? reason with
  | some existing =>
    match existing.checkedAdd count with
    | .ok total => .ok ⟨s.perReason.insert reason total⟩
    | .error e => .error e
  | none => .ok ⟨s.perReason.insert reason count⟩

def isEmpty (s : OmissionSummary) : Bool := s.perReason.entries.isEmpty

/-- The events of one reason. -/
def count (s : OmissionSummary) (r : OmissionReason) : Nat :=
  (s.perReason.get? r).elim 0 EventCount.get

/-- Folds a list of events in, one after another. -/
def addAll (s : OmissionSummary) : List (OmissionReason × EventCount) → Except String OmissionSummary
  | [] => .ok s
  | (reason, count) :: rest =>
    match s.add reason count with
    | .ok s' => s'.addAll rest
    | .error e => .error e

end OmissionSummary

/-! ## Verdicts and dispositions -/

/-- What the checkpoint knows about one directory's completeness. -/
inductive DirCompleteness where
  | complete
  | incomplete (summary : OmissionSummary)
  | unknown

/-- What a completeness verdict means for a directory signature. -/
inductive DirDisposition where
  | trusted
  | suppressed
  | untrusted
  deriving DecidableEq, Repr

/-- Where a path sits relative to the scan's selected roots. -/
inductive DirScope where
  | root (key : PathKey)
  | unbounded
  | outside

/-- Why a scan has no completeness authority. -/
inductive AuthorityUnavailable where
  | unkeyableRoot (given : String)
  | ambiguousRoots (outer inner : Bytes)
  | noRoots

def AuthorityUnavailable.explain : AuthorityUnavailable → String
  | unkeyableRoot given => s!"scan root {terminal given} cannot be stored as a completeness key " ++
      "(it must be absolute, free of '..', and valid UTF-8)"
  | ambiguousRoots outer inner => s!"scan roots {terminal outer.display} and " ++
      s!"{terminal inner.display} overlap once normalized, so a directory under them cannot be " ++
      "attributed to one root"
  | noRoots => "the scan has no selected roots"

/-! ## Roots -/

/-- Every root as a key, or the first one that has none. -/
def keyRoots : List Path → Except AuthorityUnavailable (List PathKey)
  | [] => .ok []
  | root :: rest =>
    match PathKey.new root with
    | none => .error (.unkeyableRoot root.display)
    | some key =>
      match keyRoots rest with
      | .ok keys => .ok (key :: keys)
      | .error why => .error why

/-- The first key behind `outer` that lies over it or under it. -/
def overlapWith (outer : PathKey) : List PathKey → Option AuthorityUnavailable
  | [] => none
  | inner :: rest =>
    if inner.isAtOrUnder outer then some (.ambiguousRoots outer.asStr inner.asStr)
    else if outer.isAtOrUnder inner then some (.ambiguousRoots inner.asStr outer.asStr)
    else overlapWith outer rest

/-- The first two keys of which one contains the other. -/
def overlapping : List PathKey → Option AuthorityUnavailable
  | [] => none
  | outer :: rest => (overlapWith outer rest).or (overlapping rest)

/-- The roots as keys none of which contains another, in the order given. -/
def rootKeys (roots : List Path) : Except AuthorityUnavailable (List PathKey) :=
  match keyRoots roots with
  | .error why => .error why
  | .ok keys =>
    match overlapping keys with
    | some why => .error why
    | none => .ok keys

/-! ## The snapshot -/

/-- One stored omission row. -/
structure StoredOmission where
  rootKey : Bytes
  dirKey : Bytes
  reason : String
  eventCount : Int
  generation : Int

/-- One scan's completeness authority. -/
structure CompletenessSnapshot where
  configured : List PathKey
  registered : OrdMap PathKey Int
  rows : OrdMap Bytes (PathKey × OmissionSummary)
  sentinels : OrdMap PathKey EventCount
  agrees : Bool

inductive SnapshotOutcome where
  | bounded (snapshot : CompletenessSnapshot)
  | unavailable (why : AuthorityUnavailable)

inductive ScanAccounting where
  | exact (totals : OmissionSummary)
  | unavailable

/-- The registered authorities by key; a later row of one key replaces an earlier one. -/
def readGenerations : List (Bytes × Int) → OrdMap PathKey Int → Except String (OrdMap PathKey Int)
  | [], acc => .ok acc
  | (raw, generation) :: rest, acc =>
    if generation < 0 then
      .error (s!"dedcom.db holds a corrupt completeness generation ({generation}); rescan, or " ++
        "move the old dedcom.db aside.")
    else
      match PathKey.fromStored raw with
      | .error e => .error e
      | .ok key => readGenerations rest (acc.insert key generation)

/-- One row of the ledger, decoded. -/
structure OmissionCell where
  root : PathKey
  directory : PathKey
  reason : OmissionReason
  count : EventCount

/-- Decodes one row; a superseded or unregistered row is skipped. -/
def decodeRow (generations : OrdMap PathKey Int) (row : StoredOmission) :
    Except String (Option OmissionCell) :=
  match PathKey.fromStored row.rootKey with
  | .error e => .error e
  | .ok root =>
    if ¬ (generations.get? root).any (fun current => decide (0 < current ∧ current = row.generation))
    then .ok none
    else
      match PathKey.fromStored row.dirKey with
      | .error e => .error e
      | .ok directory =>
        if ¬ directory.isAtOrUnder root then
          .error (s!"dedcom.db places {terminal directory.display} outside its scan root " ++
            s!"{terminal root.display}; rescan, or move the old dedcom.db aside.")
        else
          match OmissionReason.parse row.reason with
          | none => .error ("dedcom.db records an omission reason this build does not know (" ++
              terminal row.reason ++ "); upgrade dedcom, or move the old dedcom.db aside.")
          | some reason =>
            match EventCount.fromI64 row.eventCount with
            | .error e => .error e
            | .ok count => .ok (some ⟨root, directory, reason, count⟩)

/-- A `walk_error` stored at its own root stands for the whole root. -/
def addSentinel (sentinels : OrdMap PathKey EventCount) (cell : OmissionCell) :
    Except String (OrdMap PathKey EventCount) :=
  if cell.reason = .walkError ∧ cell.directory = cell.root then
    match sentinels.get? cell.root with
    | none => .ok (sentinels.insert cell.root cell.count)
    | some existing =>
      match existing.checkedAdd cell.count with
      | .ok total => .ok (sentinels.insert cell.root total)
      | .error e => .error e
  else .ok sentinels

/-- Folds one cell into its directory's summary. -/
def addCell (rows : OrdMap Bytes (PathKey × OmissionSummary)) (cell : OmissionCell) :
    Except String (OrdMap Bytes (PathKey × OmissionSummary)) :=
  let slot := (rows.get? cell.directory.asStr).getD (cell.root, .default)
  match slot.2.add cell.reason cell.count with
  | .ok summary => .ok (rows.insert cell.directory.asStr (slot.1, summary))
  | .error e => .error e

def readRows (generations : OrdMap PathKey Int) : List StoredOmission →
    OrdMap Bytes (PathKey × OmissionSummary) → OrdMap PathKey EventCount →
    Except String (OrdMap Bytes (PathKey × OmissionSummary) × OrdMap PathKey EventCount)
  | [], rows, sentinels => .ok (rows, sentinels)
  | row :: rest, rows, sentinels =>
    match decodeRow generations row with
    | .error e => .error e
    | .ok none => readRows generations rest rows sentinels
    | .ok (some cell) =>
      match addSentinel sentinels cell with
      | .error e => .error e
      | .ok sentinels =>
        match addCell rows cell with
        | .error e => .error e
        | .ok rows => readRows generations rest rows sentinels

/-- The name of a `Normal` component. -/
def Component.name? : Component → Option Bytes
  | .normal n => some n.bytes
  | _ => none

namespace CompletenessSnapshot

/-- `CompletenessSnapshot::build`. -/
def build (configuredRoots : List Path) (registered : List (Bytes × Int))
    (rows : List StoredOmission) : Except String SnapshotOutcome :=
  if configuredRoots = [] then .ok (.unavailable .noRoots)
  else
    match rootKeys configuredRoots with
    | .error why => .ok (.unavailable why)
    | .ok keys =>
      let configured := keys.insertionSort (· ≤ ·)
      match readGenerations registered .empty with
      | .error e => .error e
      | .ok generations =>
        let agrees := decide (generations.entries.length = configured.length) &&
          configured.all fun root => generations.contains root
        match readRows generations rows .empty .empty with
        | .error e => .error e
        | .ok (summaries, sentinels) =>
          .ok (.bounded ⟨configured, generations, summaries, sentinels, agrees⟩)

/-- `path.starts_with(root)`, the root as a path. -/
def startsWithKey (path : Path) (root : PathKey) : Bool :=
  match path with
  | .rootDir :: rest => (root.segments.map some).isPrefixOf (rest.map Component.name?)
  | _ => false

/-- The selected root containing `path`. -/
def owningRoot (snap : CompletenessSnapshot) (path : Path) : Option PathKey :=
  snap.configured.find? fun root => startsWithKey path root

/-- Whether this root's ledger may be trusted at all. -/
def trustedRoot (snap : CompletenessSnapshot) (root : PathKey) : Bool :=
  snap.agrees && decide (0 < (snap.registered.get? root).getD 0)

/-- Whether an omission lies at or under `key`, within `root`. -/
def omittedAtOrUnder (snap : CompletenessSnapshot) (root key : PathKey) : Bool :=
  snap.sentinels.contains root ||
    (snap.rows.get? key.asStr).any (fun stored => decide (stored.1 = root)) ||
    (snap.rows.range key.subtreeBounds.1 key.subtreeBounds.2).any
      fun e => decide (e.2.1 = root)

/-- One stored row's figures, when it belongs to `root`. -/
def foldStored (root : PathKey) (summary : OmissionSummary) (stored : PathKey × OmissionSummary) :
    Except String OmissionSummary :=
  if stored.1 ≠ root then .ok summary else summary.addAll stored.2.perReason.entries

def foldRange (root : PathKey) : OmissionSummary → List (Bytes × PathKey × OmissionSummary) →
    Except String OmissionSummary
  | summary, [] => .ok summary
  | summary, (_, stored) :: rest =>
    match foldStored root summary stored with
    | .ok summary => foldRange root summary rest
    | .error e => .error e

/-- The exact row of the directory that is asked about. -/
def foldOwn (snap : CompletenessSnapshot) (root key : PathKey) : Except String OmissionSummary :=
  match snap.rows.get? key.asStr with
  | some stored => foldStored root .default stored
  | none => .ok .default

/-- The full tri-state with its summary. -/
def verdict (snap : CompletenessSnapshot) (path : Path) : Except String DirCompleteness :=
  match PathKey.new path with
  | none => .ok .unknown
  | some key =>
    match snap.owningRoot path with
    | none => .ok .unknown
    | some root =>
      if ¬ snap.trustedRoot root then .ok .unknown
      else
        match snap.foldOwn root key with
        | .error e => .error e
        | .ok summary =>
          match foldRange root summary
              (snap.rows.range key.subtreeBounds.1 key.subtreeBounds.2) with
          | .error e => .error e
          | .ok summary =>
            -- The exact row of the root has folded its sentinel already.
            let folded := if key = root then .ok summary
              else match snap.sentinels.get? root with
                | some count => summary.add .walkError count
                | none => .ok summary
            match folded with
            | .error e => .error e
            | .ok summary => .ok (if summary.isEmpty then .complete else .incomplete summary)

/-- The one authority predicate. -/
def fullyAuthoritative (snap : CompletenessSnapshot) : Bool :=
  snap.agrees && snap.registered.values.all fun generation => decide (0 < generation)

/-- Every stored current-generation cell, once. -/
def foldTotals (snap : CompletenessSnapshot) : Except String OmissionSummary :=
  OmissionSummary.default.addAll (snap.rows.values.flatMap fun stored => stored.2.perReason.entries)

def scanAccounting (snap : CompletenessSnapshot) : Except String ScanAccounting :=
  if ¬ snap.fullyAuthoritative then .ok .unavailable
  else
    match snap.foldTotals with
    | .ok totals => .ok (.exact totals)
    | .error e => .error e

def scope (snap : CompletenessSnapshot) (path : Path) : DirScope :=
  match snap.owningRoot path with
  | some root => .root root
  | none => .outside

def disposition (snap : CompletenessSnapshot) (path : Path) : DirDisposition :=
  match PathKey.new path with
  | none => .untrusted
  | some key =>
    match snap.owningRoot path with
    | none => .untrusted
    | some root =>
      if ¬ snap.trustedRoot root then .untrusted
      else if snap.omittedAtOrUnder root key then .suppressed
      else .trusted

end CompletenessSnapshot

end DedupCommando
