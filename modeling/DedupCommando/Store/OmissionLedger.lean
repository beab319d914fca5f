import DedupCommando.Lib.Transaction
import DedupCommando.Model.Omission

/-!
# The ledger of one scan

The rows a scan's completeness is read from: its configuration, its registered roots and its
omission rows, and the operations that write them.

* `OmissionLedger` — the configuration blob, `scan_root` and `dir_omission` of one scan.
* `persistedRootKeys`, `registeredRoots`, `ensureRoots` — which roots the scan may speak for.
* `deleteLedger`, `zeroGenerations`, `nextGeneration` — what the operations are made of.
* `commitOmissions`, `clearFilesLedger`, `clearOmissionsUnder`, `clearRootOmissions`,
  `clearScanOmissions` — the bodies of their transactions.
-/

set_option autoImplicit false

namespace DedupCommando

/-- The ledger rows of one scan.  `config` is `none` where the blob is no configuration. -/
structure OmissionLedger where
  config : Option (List Path)
  roots : List (Bytes × Int)
  omissions : List StoredOmission

/-- The scan's own configuration, reduced to root keys. -/
inductive PersistedRoots where
  | keyable (keys : List PathKey)
  | unavailable (why : AuthorityUnavailable)

/-- The outcome of registering a scan's roots. -/
inductive RootRegistration where
  | registered (roots : Nat)
  | unavailable (why : AuthorityUnavailable)

/-- What a delete of ledger rows covers. -/
inductive ClearScope where
  | wholeScan
  | root (root : PathKey)
  | subtree (root directory : PathKey)

/-- Whether a row lies in the scope of a delete. -/
def ClearScope.covers (scope : ClearScope) (row : StoredOmission) : Bool :=
  match scope with
  | .wholeScan => true
  | .root owner => decide (row.rootKey = owner.asStr)
  | .subtree owner directory =>
    decide (row.rootKey = owner.asStr) &&
      (decide (row.dirKey = directory.asStr) ||
        decide (directory.subtreeBounds.1 ≤ row.dirKey ∧ row.dirKey < directory.subtreeBounds.2))

namespace OmissionLedger

/-! ## Roots -/

/-- `persisted_root_keys_tx`: sorted keys, or the reason there are none. -/
def persistedRootKeys (l : OmissionLedger) : Except String PersistedRoots :=
  match l.config with
  | none => .error "the scan's configuration cannot be read"
  | some roots =>
    if roots = [] then .ok (.unavailable .noRoots)
    else
      match rootKeys roots with
      | .error why => .ok (.unavailable why)
      | .ok keys => .ok (.keyable (keys.insertionSort (· ≤ ·)))

/-- The registered rows, decoded in the order given. -/
def decodeRoots : List (Bytes × Int) → Except String (List (PathKey × Int))
  | [] => .ok []
  | (raw, generation) :: rest =>
    if generation < 0 then
      .error (s!"dedcom.db holds a corrupt completeness generation ({generation}); rescan, or " ++
        "move the old dedcom.db aside.")
    else
      match PathKey.fromStored raw with
      | .error e => .error e
      | .ok key =>
        match decodeRoots rest with
        | .error e => .error e
        | .ok out => .ok ((key, generation) :: out)

/-- `registered_roots_tx`: ordered by the stored key. -/
def registeredRoots (l : OmissionLedger) : Except String (List (PathKey × Int)) :=
  decodeRoots (l.roots.insertionSort fun a b => a.1 ≤ b.1)

/-! ## Deletes and generations -/

/-- `delete_ledger_tx` -/
def deleteLedger (scope : ClearScope) (l : OmissionLedger) : OmissionLedger :=
  { l with omissions := l.omissions.filter fun row => !scope.covers row }

/-- `zero_generations_tx`: one root, or every root. -/
def zeroGenerations (root : Option PathKey) (l : OmissionLedger) : OmissionLedger :=
  { l with roots := l.roots.map fun e => if root.all (fun k => decide (e.1 = k.asStr)) then (e.1, 0)
      else e }

/-- `MAX(generation)`, or zero of no rows. -/
def maxOrZero (generations : List Int) : Int := (generations.max?).getD 0

/-- `next_generation_tx`: one above anything the two tables hold. -/
def nextGeneration (l : OmissionLedger) : Except String Int :=
  let highest := max (maxOrZero (l.roots.map Prod.snd)) (maxOrZero (l.omissions.map (·.generation)))
  if highest + 1 < 2 ^ 63 then .ok (highest + 1)
  else .error ("this scan's completeness generation cannot advance any further; rescan into a " ++
    "fresh session")

/-- `revoke_authority_tx` -/
def revokeAuthority (l : OmissionLedger) : OmissionLedger := { l with roots := [], omissions := [] }

/-- Removes one registration with its rows. -/
def dropRoot (l : OmissionLedger) (root : PathKey) : OmissionLedger where
  config := l.config
  roots := l.roots.filter fun e => !decide (e.1 = root.asStr)
  omissions := l.omissions.filter fun row => !decide (row.rootKey = root.asStr)

/-- `INSERT OR IGNORE INTO scan_root .. VALUES (.., 0)` -/
def insertRoot (l : OmissionLedger) (root : PathKey) : OmissionLedger :=
  if l.roots.any fun e => decide (e.1 = root.asStr) then l
  else { l with roots := l.roots ++ [(root.asStr, 0)] }

/-- `ensure_roots_tx` -/
def ensureRoots : Tx OmissionLedger String RootRegistration := fun l =>
  match l.persistedRootKeys with
  | .error e => (.error e, l)
  | .ok (.unavailable why) => (.ok (.unavailable why), l.revokeAuthority)
  | .ok (.keyable keys) =>
    match l.registeredRoots with
    | .error e => (.error e, l)
    | .ok stored =>
      let gone := (stored.map Prod.fst).filter fun key => decide (key ∉ keys)
      (.ok (.registered keys.length), keys.foldl insertRoot (gone.foldl dropRoot l))

/-! ## The operations -/

/-- The rows that a commit writes for one root, in the order of its cells. -/
def insertCounts (root : PathKey) (generation : Int) :
    List (PathKey × OmissionReason × EventCount) → Tx OmissionLedger String Unit
  | [], l => (.ok (), l)
  | (directory, reason, count) :: rest, l =>
    match count.toI64 with
    | .error e => (.error e, l)
    | .ok events =>
      -- The primary key of the table is the directory and the reason, whatever the root.
      if l.omissions.any fun row =>
          decide (row.dirKey = directory.asStr ∧ row.reason = reason.asStr) then
        (.error ("UNIQUE constraint failed: dir_omission.scan_id, dir_omission.dir_key, " ++
          "dir_omission.reason"), l)
      else
        insertCounts root generation rest { l with omissions := l.omissions ++
          [⟨root.asStr, directory.asStr, reason.asStr, events, generation⟩] }

def insertAll (generation : Int) :
    List (PathKey × OmissionCounts) → Tx OmissionLedger String Unit
  | [], l => (.ok (), l)
  | (root, counts) :: rest, l =>
    match insertCounts root generation counts.iter l with
    | (.error e, l) => (.error e, l)
    | (.ok (), l) => insertAll generation rest l

/-- The checks of `commit_omissions`, in their order. -/
def commitRefusal (scanId : Int) (l : OmissionLedger) (perRoot : OrdMap PathKey OmissionCounts) :
    Option String :=
  match l.persistedRootKeys with
  | .error e => some e
  | .ok (.unavailable why) =>
    some (s!"scan {scanId} cannot publish an omission ledger: " ++ why.explain)
  | .ok (.keyable persisted) =>
    match l.registeredRoots with
    | .error e => some e
    | .ok stored =>
      let registered := (stored.map Prod.fst).insertionSort (· ≤ ·)
      if registered = [] then
        some (s!"scan {scanId} has no registered completeness roots, so its omission ledger " ++
          "cannot be committed")
      else if registered ≠ persisted then
        some (s!"scan {scanId} has drifted from its registered completeness roots; re-register " ++
          "them before committing an omission ledger")
      else
        match registered.find? fun key => !perRoot.contains key with
        | some key =>
          some ("the omission ledger is missing scan root " ++ terminal key.display ++
            "; every selected root must be reported, with an empty count when nothing was omitted")
        | none =>
          match perRoot.keys.find? fun key => decide (key ∉ registered) with
          | some key =>
            some ("the omission ledger names " ++ terminal key.display ++
              s!", which is not a selected root of scan {scanId}")
          | none =>
            match perRoot.entries.findSome? fun e =>
                (e.2.iter.find? fun cell => !cell.1.isAtOrUnder e.1).map fun cell => (e.1, cell.1) with
            | some (root, directory) =>
              some ("the omission ledger places " ++ terminal directory.display ++
                " outside its scan root " ++ terminal root.display)
            | none => none

/-- `commit_omissions` -/
def commitOmissions (scanId : Int) (perRoot : OrdMap PathKey OmissionCounts) :
    Tx OmissionLedger String Unit := fun l =>
  match commitRefusal scanId l perRoot with
  | some e => (.error e, l)
  | none =>
    match l.nextGeneration with
    | .error e => (.error e, l)
    | .ok generation =>
      match insertAll generation perRoot.entries (l.deleteLedger .wholeScan) with
      | (.error e, l) => (.error e, l)
      | (.ok (), l) => (.ok (), { l with roots := l.roots.map fun e => (e.1, generation) })

/-- What `clear_files` does to the ledger. -/
def clearFilesLedger : Tx OmissionLedger String RootRegistration := fun l =>
  ensureRoots ((l.deleteLedger .wholeScan).zeroGenerations none)

/-- `clear_omissions_under` -/
def clearOmissionsUnder (scanId : Int) (directory : Path) : Tx OmissionLedger String Unit := fun l =>
  match PathKey.new directory with
  | none =>
    (.error (terminal directory.display ++ " cannot be used as a completeness key"), l)
  | some key =>
    match l.registeredRoots with
    | .error e => (.error e, l)
    | .ok stored =>
      match (stored.map Prod.fst).find? fun root => key.isAtOrUnder root with
      | none =>
        (.error (terminal key.display ++ s!" is not inside any selected root of scan {scanId}"), l)
      | some root =>
        (.ok (), (l.deleteLedger (.subtree root key)).zeroGenerations (some root))

/-- `clear_root_omissions` -/
def clearRootOmissions (scanId : Int) (root : Path) : Tx OmissionLedger String Unit := fun l =>
  match PathKey.new root with
  | none => (.error (terminal root.display ++ " cannot be used as a completeness key"), l)
  | some key =>
    match l.registeredRoots with
    | .error e => (.error e, l)
    | .ok stored =>
      if key ∈ stored.map Prod.fst then
        (.ok (), (l.deleteLedger (.root key)).zeroGenerations (some key))
      else
        (.error (terminal root.display ++ s!" is not a selected root of scan {scanId}"), l)

/-- `clear_scan_omissions` -/
def clearScanOmissions : Tx OmissionLedger String Unit := fun l =>
  (.ok (), (l.deleteLedger .wholeScan).zeroGenerations none)

/-- `begin_scan`, as far as the ledger goes: the configuration is written and its roots registered. -/
def beginScan (config : List Path) : OmissionLedger :=
  (Tx.atomically ensureRoots ⟨some config, [], []⟩).2

end OmissionLedger

/-- The operations on one scan's ledger, and a change of the configuration from outside. -/
inductive LedgerOp where
  | configure (config : Option (List Path))
  | ensureScanRoots
  | clearFiles
  | commitOmissions (perRoot : OrdMap PathKey OmissionCounts)
  | clearOmissionsUnder (directory : Path)
  | clearRootOmissions (root : Path)
  | clearScanOmissions

/-- A computation without its result. -/
def dropResult {σ α : Type} (body : Tx σ String α) : Tx σ String Unit := fun s =>
  match body s with
  | (.ok _, s') => (.ok (), s')
  | (.error e, s') => (.error e, s')

/-- The transaction of one operation. -/
def LedgerOp.run (scanId : Int) : LedgerOp → Tx OmissionLedger String Unit
  | .configure config => fun l => (.ok (), { l with config := config })
  | .ensureScanRoots => Tx.atomically (dropResult OmissionLedger.ensureRoots)
  | .clearFiles => Tx.atomically (dropResult OmissionLedger.clearFilesLedger)
  | .commitOmissions perRoot => Tx.atomically (OmissionLedger.commitOmissions scanId perRoot)
  | .clearOmissionsUnder directory =>
    Tx.atomically (OmissionLedger.clearOmissionsUnder scanId directory)
  | .clearRootOmissions root => Tx.atomically (OmissionLedger.clearRootOmissions scanId root)
  | .clearScanOmissions => Tx.atomically OmissionLedger.clearScanOmissions

end DedupCommando
