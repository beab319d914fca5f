import DedupCommando.Path
import DedupCommando.Model.Reclaim

/-!
# Actions, marks and refusals

* `ActionKind`, `MarkIntent` — what an operator can ask for on a pathname.
* `PlanRefusal` — why a plan may not be built or carried out; `PlanRefusal.message` is its text.
-/

set_option autoImplicit false

namespace DedupCommando

inductive ActionKind where
  | delete
  | hardlink
  | reflink
  deriving DecidableEq, Repr

def ActionKind.label : ActionKind → String
  | .delete => "DELETE"
  | .hardlink => "HARDLINK"
  | .reflink => "REFLINK"

/-- The identifier in the database and in refusals. -/
def ActionKind.asStr : ActionKind → String
  | .delete => "delete"
  | .hardlink => "hardlink"
  | .reflink => "reflink"

/-- What a mark means: the file that stays, or the action asked for on this pathname. -/
inductive MarkIntent where
  | keeper
  | act (kind : ActionKind)
  deriving DecidableEq, Repr

def MarkIntent.describe : MarkIntent → String
  | .keeper => "the keeper"
  | .act kind => kind.label

/-- Why a plan may not be built. -/
inductive PlanRefusal where
  | rescanRequired
  | noMarks
  | nothingToDo
  | markNotPersisted (path : Path)
  | markDisagrees (path : Path) (requested durable : MarkIntent)
  | requestContradictsItself (path : Path)
  | corruptMark (path : Path) (field detail : String)
  | contradictoryMark (path : Path)
  | notAMember (path : Path)
  | foreignScan (expected found : Int)
  | mixedGeneration (expected found : Int)
  | negativeRank (rank : Int)
  | multipleKeepers (hash : String) (first second : Path)
  | duplicateGroupInput (hash : String)
  | duplicatePathEvidence (path : Path)
  | objectInTwoGroups (path : Path) (first second : String)
  | notInManifest (path : Path)
  | missingDigest (path : Path)
  | missingKeeper (hash : String)
  | crossDataset (kind : ActionKind) (target keeper : Path) (marks : Nat)
  | inconsistentGroupSize (hash : String)
  | unrecordedLinkCount (path : Path)
  | corruptLinkCount (path : Path) (detail : String)
  | disagreeingLinkCounts (path : Path) (low high : Nat)
  | impossibleManifest (path : Path) (observed links : Nat)
  | unverifiedIdentity (path : Path)
  | vanished (path : Path)
  | symlink (path : Path)
  | drifted (path : Path) (field : String)
  | alreadyLinkedNow (target keeper : Path)
  | externalChange (path : Path) (field : String)
  | unsettledObject (path : Path)
  | arithmetic (detail : String)
  | store (detail : String)
  deriving DecidableEq

/-- «1 mark», «3 marks». -/
def markCount (count : Nat) : String :=
  match count with
  | 1 => "1 mark"
  | count => s!"{count} marks"

/-- The `Display` text of a refusal. -/
def PlanRefusal.message : PlanRefusal → String
  | rescanRequired =>
    "this scan's results were never established well enough to act on — rescan required"
  | noMarks => "no files are marked for an action"
  | nothingToDo => "nothing left to do: every marked file is already the keeper's own allocation"
  | markNotPersisted path =>
    s!"{path.display} is marked in this window but the database holds no such mark — re-mark it"
  | markDisagrees path requested durable =>
    s!"{path.display} is marked as {requested.describe} in this window and as " ++
      s!"{durable.describe} in the database — re-mark it"
  | requestContradictsItself path =>
    s!"{path.display} was requested twice with two different meanings"
  | corruptMark path field detail =>
    s!"dedcom.db holds an unreadable mark for {path.display} ({field}: {detail}). " ++
      "Rescan, or move the old dedcom.db aside."
  | contradictoryMark path =>
    s!"{path.display} is marked both as the keeper and for an action. " ++
      "Re-mark it, or move the old dedcom.db aside."
  | notAMember path =>
    s!"{path.display} is marked but belongs to no published group — the results changed since it " ++
      "was marked; rescan required"
  | foreignScan expected found =>
    s!"the plan references scan {found} while planning scan {expected} — rescan required"
  | mixedGeneration expected found =>
    s!"the plan mixes publication generations {expected} and {found} — rescan required"
  | negativeRank rank =>
    s!"the plan references an invalid group rank {rank} — rescan required"
  | multipleKeepers hash first second =>
    s!"the group {hash} has two keepers ({first.display} and {second.display}) — " ++
      "exactly one file is kept"
  | duplicateGroupInput hash => s!"the group {hash} was handed to the plan twice"
  | duplicatePathEvidence path => s!"{path.display} appears twice in the plan's evidence"
  | objectInTwoGroups path first second =>
    s!"{path.display} is one allocation carrying two digests ({first} and {second}). " ++
      "Rescan, or move the old dedcom.db aside."
  | notInManifest path =>
    s!"{path.display} carries a mark but has no row in this scan's manifest. " ++
      "Rescan, or move the old dedcom.db aside."
  | missingDigest path =>
    s!"{path.display} is marked but has no digest in this scan — rescan required"
  | missingKeeper hash =>
    s!"the group {hash} has files marked for an action and no keeper — choose the file to keep"
  | crossDataset kind target keeper marks =>
    s!"cannot hardlink or reflink across datasets ({markCount marks}) — mark DELETE, unmark, " ++
      s!"or pick a keeper on the same dataset; first: {target.display} ({kind.label}), " ++
      s!"keeper {keeper.display}"
  | inconsistentGroupSize hash =>
    s!"the group {hash} holds different sizes for one digest. " ++
      "Rescan, or move the old dedcom.db aside."
  | unrecordedLinkCount path =>
    s!"{path.display} has no recorded link count, so nothing can tell an alias from an " ++
      "independent copy — rescan required"
  | corruptLinkCount path detail =>
    s!"dedcom.db holds a corrupt link count for {path.display} ({detail}). " ++
      "Rescan, or move the old dedcom.db aside."
  | disagreeingLinkCounts path low high =>
    s!"dedcom.db holds different link counts ({low} and {high}) for the one allocation behind " ++
      s!"{path.display}; its pathnames are the same inode and cannot disagree. " ++
      "Rescan, or move the old dedcom.db aside."
  | impossibleManifest path observed links =>
    s!"{path.display} is one of {observed} pathnames of an allocation whose inode reports only " ++
      s!"{links} links; that manifest cannot be right. Rescan, or move the old dedcom.db aside."
  | unverifiedIdentity path =>
    s!"{path.display} carries a digest that was never verified against the file itself — " ++
      "rescan required"
  | vanished path => s!"{path.display} is gone since the scan — rescan required"
  | symlink path => s!"{path.display} is a symbolic link now — rescan required"
  | drifted path field =>
    s!"{path.display} changed since the scan ({field}) — rescan required"
  | alreadyLinkedNow target keeper =>
    s!"{target.display} is now the same allocation as its keeper {keeper.display} — rescan required"
  | externalChange path field =>
    s!"{path.display} moved while the batch was running ({field}) — action cancelled"
  | unsettledObject path =>
    s!"{path.display} was left in a state this batch cannot account for — nothing more is " ++
      "applied to it"
  | arithmetic detail => detail
  | store detail =>
    s!"dedcom.db could not be read while building the plan: {detail}"

end DedupCommando
