import DedupCommando.Lib.Grouping
import DedupCommando.Model.Reclaim
import DedupCommando.Path

/-!
# What the pathnames of a group say about its allocations

`LinkCount` at the store's boundary, `ReclaimEstimate` over the objects of a group, and
`DuplicateGroup::physical_reclaim`.

* `LinkCount.fromI64`, `LinkCount.fromU64`, `LinkCount.toI64` — the column `file.nlink`.
* `objectCeiling`, `forObjects`, `fromPersisted` — one group's figure.
* `FileEntry`, `DuplicateGroup`, `physicalReclaim` — the figure of a group held in memory.
-/

set_option autoImplicit false

namespace DedupCommando

open Checked

/-! ## Link counts -/

namespace LinkCount

/-- `from_i64` -/
def fromI64 (raw : Int) : Except AppError LinkCount :=
  if raw = 0 then .ok .unknown
  else if 0 < raw then .ok (.known raw.toNat)
  else .error ⟨s!"dedcom.db holds a corrupt link count ({raw}); a link count is never negative. " ++
    "Rescan, or move the old dedcom.db aside."⟩

/-- `from_u64`: zero stands for a count that was never recorded. -/
def fromU64 (value : Nat) : LinkCount := if value = 0 then .unknown else .known value

/-- `to_u64` -/
def toU64 : LinkCount → Nat
  | .unknown => 0
  | .known count => count

/-- `to_i64` -/
def toI64 : LinkCount → Except AppError Int
  | .unknown => .ok 0
  | .known count =>
    if count ≤ i64Max then .ok count
    else .error ⟨s!"link count {count} does not fit dedcom.db's integer column"⟩

end LinkCount

/-! ## Figures -/

/-- What one physical object contributes to a group. -/
structure ObjectLinks where
  observed : Nat
  links : LinkCount

/-- `ReclaimState::as_i64` -/
def ReclaimState.asI64 : ReclaimState → Int
  | .unknown => 0
  | .exact => 1
  | .upperBound => 2

/-- `ReclaimState::from_i64` -/
def ReclaimState.fromI64 (raw : Int) : Except AppError ReclaimState :=
  if raw = 0 then .ok .unknown
  else if raw = 1 then .ok .exact
  else if raw = 2 then .ok .upperBound
  else .error ⟨s!"dedcom.db holds an unknown reclaim state ({raw}). Rescan, or move the old dedcom.db " ++
    "aside."⟩

namespace ReclaimEstimate

/-- `order_key` -/
def orderKey (e : ReclaimEstimate) : Nat × Nat := (e.guaranteedBytes, e.persistedBytes)

/-- `object_ceiling`: `size × (objects − 1)` inside the persisted integer domain. -/
def objectCeiling (size objectCount : Nat) : Except AppError Nat :=
  if objectCount = 0 then .error ⟨"a duplicate-content group with no physical allocations"⟩
  else if size * (objectCount - 1) ≤ i64Max then .ok (size * (objectCount - 1))
  else .error ⟨s!"reclaim of {objectCount} allocations of {size} bytes does not fit dedcom.db's " ++
    "integer column"⟩

/-- The loop of `for_objects`: whether a count is unknown and whether one is partial. -/
def weighObjects (named : String) :
    Bool → Bool → List ObjectLinks → Except AppError (Bool × Bool)
  | unknown, incomplete, [] => .ok (unknown, incomplete)
  | unknown, incomplete, object :: objects =>
    match object.links with
    | .unknown => weighObjects named true incomplete objects
    | .known links =>
      if links < object.observed then
        .error ⟨s!"{named} is one of {object.observed} pathnames of an allocation whose inode " ++
          s!"reports only {links} links; that manifest cannot be right. Rescan, or move the old " ++
          "dedcom.db aside."⟩
      else weighObjects named unknown (incomplete || decide (object.observed < links)) objects

/-- `for_objects` -/
def forObjects (size : Nat) (objects : List ObjectLinks) (named : String) :
    Except AppError ReclaimEstimate :=
  match objectCeiling size objects.length with
  | .error e => .error e
  | .ok ceiling =>
    match weighObjects named false false objects with
    | .error e => .error e
    | .ok (unknown, incomplete) =>
      .ok (if unknown then ReclaimEstimate.unknown
        else if incomplete then upperBound ceiling
        else exact ceiling)

/-- `from_persisted` -/
def fromPersisted (reclaim state : Int) : Except AppError ReclaimEstimate :=
  match ReclaimState.fromI64 state with
  | .error e => .error e
  | .ok .unknown => .ok unknown
  | .ok state =>
    if reclaim < 0 then
      .error ⟨s!"dedcom.db holds a negative reclaim figure ({reclaim}). Rescan, or move the old " ++
        "dedcom.db aside."⟩
    else
      .ok ⟨state, if state = .exact then reclaim.toNat else 0, reclaim.toNat⟩

end ReclaimEstimate

/-- `GroupReclaim` -/
structure GroupReclaim where
  observedPaths : Nat
  objectCount : Nat
  totalLinks : LinkCount
  estimate : ReclaimEstimate

/-- The sum of all link counts, as long as every one is known and the sum fits. -/
def sumLinks : Nat → List ObjectLinks → LinkCount
  | sum, [] => .known sum
  | sum, object :: objects =>
    match object.links with
    | .unknown => .unknown
    | .known links =>
      match checkedAdd 64 sum links with
      | none => .unknown
      | some sum => sumLinks sum objects

/-- `GroupReclaim::of_objects` -/
def GroupReclaim.ofObjects (size : Nat) (objects : List ObjectLinks) (named : String) :
    Except AppError GroupReclaim :=
  match ReclaimEstimate.forObjects size objects named with
  | .error e => .error e
  | .ok estimate =>
    .ok ⟨(objects.map ObjectLinks.observed).sum, objects.length, sumLinks 0 objects, estimate⟩

/-! ## Groups in memory -/

/-- The place of a pathname in the order of `Path`: component by component, whatever its bytes. -/
def pathOrder (raw : Bytes) : List (ℕ ×ₗ Bytes) :=
  let part (b : Bytes) : ℕ ×ₗ Bytes := if b = [46, 46] then toLex (2, []) else toLex (3, b)
  let parts (l : List Bytes) := (l.filter fun b => decide (b ≠ [] ∧ b ≠ [46])).map part
  match raw.splitOn 47 with
  | [] => []
  | first :: rest =>
    if raw.head? = some 47 then toLex (0, []) :: parts rest
    else if first = [46] then toLex (1, []) :: parts rest
    else parts (first :: rest)

/-- `FileEntry`; a pathname is the bytes it was built from. -/
structure FileEntry where
  path : Bytes
  size : Nat
  mtime : Int
  mtimeNsec : Int
  ctimeSec : Int
  ctimeNsec : Int
  device : Nat
  inode : Nat
  nlink : Nat

/-- `object_key` -/
def FileEntry.objectKey (f : FileEntry) : ℕ ×ₗ ℕ ×ₗ ℕ ×ₗ ℤ ×ₗ ℤ ×ₗ ℤ ×ₗ ℤ :=
  toLex (f.device, toLex (f.inode, toLex (f.size, toLex (f.mtime, toLex (f.mtimeNsec,
    toLex (f.ctimeSec, f.ctimeNsec))))))

/-- `DuplicateGroup`; the hash is text. -/
structure DuplicateGroup where
  id : Nat
  sizeBytes : Nat
  hash : Bytes
  files : List FileEntry

/-- What one object's pathnames reported. -/
structure ObjectEvidence where
  representative : Bytes
  observed : Nat
  low : LinkCount
  high : LinkCount

/-- The evidence of the pathnames of one object. -/
def ObjectEvidence.of (files : List FileEntry) : ObjectEvidence where
  representative := (((files.map FileEntry.path).insertionSort
    fun a b => pathOrder a ≤ pathOrder b).head?).getD []
  observed := files.length
  low := LinkCount.fromU64 (((files.map FileEntry.nlink).min?).getD 0)
  high := LinkCount.fromU64 (((files.map FileEntry.nlink).max?).getD 0)

/-- The links every object's pathnames agree on, in the order of the evidence. -/
def agreedLinks : List ObjectEvidence → Except AppError (List ObjectLinks)
  | [] => .ok []
  | object :: objects =>
    match LinkCount.agreed object.low object.high (terminal (Bytes.display object.representative)) with
    | .error e => .error e
    | .ok links =>
      match agreedLinks objects with
      | .error e => .error e
      | .ok rest => .ok (⟨object.observed, links⟩ :: rest)

namespace DuplicateGroup

/-- The evidence of a group, its objects in the order of their smallest pathnames. -/
def evidence (g : DuplicateGroup) : List ObjectEvidence :=
  ((Grouping.groupByKey FileEntry.objectKey g.files).map fun o => ObjectEvidence.of o.2).insertionSort
    fun a b => pathOrder a.representative ≤ pathOrder b.representative

/-- `physical_reclaim` -/
def physicalReclaim (g : DuplicateGroup) : Except AppError GroupReclaim :=
  let named := match g.evidence with
    | [] => ""
    | first :: _ => terminal (Bytes.display first.representative)
  match agreedLinks g.evidence with
  | .error e => .error e
  | .ok links => GroupReclaim.ofObjects g.sizeBytes links named

end DuplicateGroup

end DedupCommando
