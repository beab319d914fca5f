import DedupCommando.Lib.Grouping
import DedupCommando.Model.Refusal

/-!
# Destructive plans

`ActionPlan::try_new` of `model/plan.rs` with the evidence it reads and the objects, actions and
summary it folds from it.

* `PlanObjectKey`, `PlanMemberEvidence`, `PlanGroupInput` — the evidence.  A member without a
  recorded link count or with an unverified digest cannot be built.
* `PlannedObject` — one allocation of a group; it never holds more pathnames than its inode
  reports links.
* `checkGlobalEvidence`, `pushObjects`, `PlanFold.group`, `ActionPlan.tryNew` — the checks over
  the whole input, the fold of one group, and the loop over all of them.
-/

set_option autoImplicit false

namespace DedupCommando

open Grouping

/-! ## Evidence -/

/-- The complete scan-local temporal identity of one allocation, plus the trust of the digest
    that named it. -/
structure PlanObjectKey where
  device : Nat
  inode : Nat
  size : Nat
  mtime : Int
  mtimeNsec : Int
  ctimeSec : Int
  ctimeNsec : Int
  identityVersion : Int
  deriving Repr

/-- The fields in declaration order, for the derived order. -/
def PlanObjectKey.fields (k : PlanObjectKey) : ℕ ×ₗ ℕ ×ₗ ℕ ×ₗ ℤ ×ₗ ℤ ×ₗ ℤ ×ₗ ℤ ×ₗ ℤ :=
  toLex (k.device, toLex (k.inode, toLex (k.size, toLex (k.mtime, toLex (k.mtimeNsec,
    toLex (k.ctimeSec, toLex (k.ctimeNsec, k.identityVersion)))))))

theorem PlanObjectKey.fields_injective : Function.Injective PlanObjectKey.fields := by
  rintro ⟨⟩ ⟨⟩ h
  simpa [fields, Prod.ext_iff] using h

instance : LinearOrder PlanObjectKey :=
  LinearOrder.lift' PlanObjectKey.fields PlanObjectKey.fields_injective

/-- A live `stat` of a pathname, in the fields the persisted key records. -/
structure LiveIdentity where
  device : Nat
  inode : Nat
  size : Nat
  mtime : Int
  mtimeNsec : Int
  ctimeSec : Int
  ctimeNsec : Int
  nlink : Nat
  deriving DecidableEq, Repr

/-- The name of the first field that does not agree. -/
def firstDisagreement (fields : List (String × Bool)) : Option String :=
  (fields.find? fun f => !f.2).map Prod.fst

/-- The first field where a live `stat` disagrees with this key and the agreed link count.
    `identityVersion` is not compared: `stat` cannot answer it. -/
def PlanObjectKey.firstDrift (k : PlanObjectKey) (live : LiveIdentity) (links : Nat) :
    Option String :=
  firstDisagreement
    [("device", decide (k.device = live.device)),
     ("inode", decide (k.inode = live.inode)),
     ("size", decide (k.size = live.size)),
     ("mtime", decide (k.mtime = live.mtime)),
     ("mtime_nsec", decide (k.mtimeNsec = live.mtimeNsec)),
     ("ctime", decide (k.ctimeSec = live.ctimeSec)),
     ("ctime_nsec", decide (k.ctimeNsec = live.ctimeNsec)),
     ("link count", decide (links = live.nlink))]

/-- One persisted pathname of a referenced group, as the plan is allowed to read it. -/
structure PlanMemberEvidence where
  path : Path
  key : PlanObjectKey
  links : Nat
  mark : Option MarkIntent
  verified : key.identityVersion = 1
  deriving DecidableEq

namespace PlanMemberEvidence

/-- `PlanMemberEvidence::new`: the trust boundary. -/
def new (path : Path) (key : PlanObjectKey) (links : LinkCount) (mark : Option MarkIntent) :
    Except PlanRefusal PlanMemberEvidence :=
  if h : key.identityVersion = 1 then
    match links with
    | .known links => .ok ⟨path, key, links, mark, h⟩
    | .unknown => .error (.unrecordedLinkCount path)
  else .error (.unverifiedIdentity path)

def isKeeper (m : PlanMemberEvidence) : Bool := decide (m.mark = some .keeper)

def action (m : PlanMemberEvidence) : Option ActionKind :=
  match m.mark with
  | some (.act kind) => some kind
  | _ => none

end PlanMemberEvidence

/-- The authoritative identity of one published group. -/
structure GroupId where
  scanId : Int
  rank : Int
  generation : Int
  deriving DecidableEq, Repr

/-- One referenced content group, with every persisted member. -/
structure PlanGroupInput where
  id : GroupId
  hash : String
  members : List PlanMemberEvidence
  deriving DecidableEq

/-- One planned group as the plan remembers it. -/
structure GroupWitness where
  id : GroupId
  digest : String
  members : List Path
  deriving DecidableEq

/-- Everything the membership lease revalidates before a destructive batch may begin. -/
structure PlanWitness where
  scanId : Int
  generation : Int
  groups : List GroupWitness
  deriving DecidableEq

/-! ## Objects, actions and the plan -/

inductive ObjectRole where
  | keeper
  | target
  | bystander
  deriving DecidableEq, Repr

/-- Something the operator has to read before confirming. -/
inductive PlanWarning where
  | alreadyLinkedWithKeeper (path : Path)
  | uncoveredAlias (representative : Path) (remaining : Nat)
  | externalLinks (representative : Path) (outside : Nat)
  deriving DecidableEq

/-- One physical allocation behind the plan, with the evidence its figure rests on.  The scan
    never holds more pathnames of it than its inode reports links. -/
structure PlannedObject where
  key : PlanObjectKey
  hash : String
  representative : Path
  members : List Path
  links : Nat
  coveredLinks : Nat
  role : ObjectRole
  representative_eq : members.head? = some representative
  observed_le : members.length ≤ links
  deriving DecidableEq

namespace PlannedObject

def observedLinks (o : PlannedObject) : Nat := o.members.length

/-- Observed pathnames the plan leaves in place. -/
def remainingInside (o : PlannedObject) : Nat := o.observedLinks - o.coveredLinks

/-- Links the inode reports that this scan never saw. -/
def unobservedLinks (o : PlannedObject) : Nat := o.links - o.observedLinks

/-- What removing this object's covered pathnames is worth, and how far that is established. -/
def estimate (o : PlannedObject) : ReclaimEstimate :=
  if o.coveredLinks = 0 ∨ o.remainingInside > 0 then .exact 0
  else if o.unobservedLinks > 0 then .upperBound o.key.size
  else .exact o.key.size

def warning (o : PlannedObject) : Option PlanWarning :=
  if o.coveredLinks = 0 then none
  else if o.remainingInside > 0 then some (.uncoveredAlias o.representative o.remainingInside)
  else if o.unobservedLinks > 0 then some (.externalLinks o.representative o.unobservedLinks)
  else none

end PlannedObject

/-- One action of a plan; the objects it refers to are indices into the plan's objects, and its
    group is an index into the witness's groups. -/
structure PlanAction where
  kind : ActionKind
  target : Path
  keeper : Path
  targetObject : Nat
  keeperObject : Nat
  size : Nat
  expectedHash : String
  group : Nat
  deriving DecidableEq

structure PlanSummary where
  actions : Nat
  coveredObjects : Nat
  estimate : ReclaimEstimate
  warnings : List PlanWarning
  deriving DecidableEq

/-- What stands in the way of each action of a plan: one reason or none per action, how many
    there are and where the first is. -/
structure Unrunnable where
  reasons : List (Option String)
  count : Nat
  first : Option Nat
  count_eq : count = reasons.countP Option.isSome
  first_eq : first = reasons.findIdx? Option.isSome
  deriving DecidableEq

namespace Unrunnable

/-- `Unrunnable::default`: nothing was read. -/
def default : Unrunnable := ⟨[], 0, none, rfl, rfl⟩

/-- `Unrunnable::new`. -/
def new (reasons : List (Option String)) : Unrunnable :=
  ⟨reasons, reasons.countP Option.isSome, reasons.findIdx? Option.isSome, rfl, rfl⟩

def reason (u : Unrunnable) (index : Nat) : Option String := (u.reasons[index]?).join

end Unrunnable

/-- A destructive plan: its actions, the allocations they touch, and one summary derived from
    both. -/
structure ActionPlan where
  scanId : Int
  objects : List PlannedObject
  actions : List PlanAction
  summary : PlanSummary
  witness : PlanWitness
  groupMarks : List (List Nat)
  unrunnable : Unrunnable
  deriving DecidableEq

/-! ## The checks over the whole input -/

/-- Every group belongs to this scan and to one publication, and no rank is below zero. -/
def checkIdentities (scanId generation : Int) : List PlanGroupInput → Except PlanRefusal Unit
  | [] => .ok ()
  | group :: groups =>
    if group.id.scanId ≠ scanId then .error (.foreignScan scanId group.id.scanId)
    else if group.id.rank < 0 then .error (.negativeRank group.id.rank)
    else if group.id.generation ≠ generation then
      .error (.mixedGeneration generation group.id.generation)
    else checkIdentities scanId generation groups

/-- The `windows(2)` loop of `check_global_evidence`. -/
def checkAdjacent : List PlanGroupInput → Except PlanRefusal Unit
  | first :: second :: groups =>
    if first.id = second.id then .error (.duplicateGroupInput first.hash)
    else checkAdjacent (second :: groups)
  | _ => .ok ()

/-- The member loop of `check_global_evidence`, from the pathnames and the owners seen so far.
    An owner is the digest and the pathname a key was first met with. -/
def checkMembers (paths : List Path) (owner : List (PlanObjectKey × String × Path)) :
    List (String × PlanMemberEvidence) → Except PlanRefusal Unit
  | [] => .ok ()
  | (hash, member) :: members =>
    if member.path ∈ paths then .error (.duplicatePathEvidence member.path)
    else
      match owner.lookup member.key with
      | none =>
        checkMembers (member.path :: paths) ((member.key, hash, member.path) :: owner) members
      | some (firstHash, firstPath) =>
        if firstHash ≠ hash then .error (.objectInTwoGroups firstPath firstHash hash)
        else checkMembers (member.path :: paths) owner members

/-- `ActionPlan::check_global_evidence`. -/
def checkGlobalEvidence (groups : List PlanGroupInput) : Except PlanRefusal Unit :=
  match checkAdjacent groups with
  | .error e => .error e
  | .ok () =>
    checkMembers [] [] (groups.flatMap fun group => group.members.map fun m => (group.hash, m))

/-! ## Folding one group -/

/-- The object `push_objects` builds for the pathnames `first :: rest` of one key. -/
def buildObject (hash : String) (keeper : Option PlanMemberEvidence)
    (covered : List PlanMemberEvidence) (key : PlanObjectKey) (first : PlanMemberEvidence)
    (rest : List PlanMemberEvidence) : Except PlanRefusal PlannedObject :=
  let low := rest.foldl (fun low m => min low m.links) first.links
  let high := rest.foldl (fun high m => max high m.links) first.links
  match LinkCount.agreed (.known low) (.known high) first.path.display with
  | .error _ => .error (.disagreeingLinkCounts first.path low high)
  | .ok _ =>
    let coveredLinks := covered.countP fun target => decide (target.key = key)
    if h : ((first :: rest).map PlanMemberEvidence.path).length ≤ low then
      .ok
        { key := key
          hash := hash
          representative := first.path
          members := (first :: rest).map PlanMemberEvidence.path
          links := low
          coveredLinks := coveredLinks
          role :=
            if (keeper.map PlanMemberEvidence.key) = some key then .keeper
            else if coveredLinks > 0 then .target
            else .bystander
          representative_eq := rfl
          observed_le := h }
    else .error (.impossibleManifest first.path (first :: rest).length low)

/-- The loop over the keys of a group. -/
def buildObjects (hash : String) (keeper : Option PlanMemberEvidence)
    (covered : List PlanMemberEvidence) :
    List (PlanObjectKey × List PlanMemberEvidence) → Except PlanRefusal (List PlannedObject)
  | [] => .ok []
  | (_, []) :: keys => buildObjects hash keeper covered keys  -- no key is stored without a member
  | (key, first :: rest) :: keys =>
    match buildObject hash keeper covered key first rest with
    | .error e => .error e
    | .ok object =>
      match buildObjects hash keeper covered keys with
      | .error e => .error e
      | .ok objects => .ok (object :: objects)

/-- `push_objects`: folds one group's members into objects and appends them in a stable order. -/
def pushObjects (objects : List PlannedObject) (group : PlanGroupInput)
    (members : List PlanMemberEvidence) (keeper : Option PlanMemberEvidence)
    (covered : List PlanMemberEvidence) : Except PlanRefusal (List PlannedObject) :=
  match buildObjects group.hash keeper covered (groupByKey PlanMemberEvidence.key members) with
  | .error e => .error e
  | .ok built =>
    .ok (objects ++ built.insertionSort fun a b => a.representative ≤ b.representative)

/-- The members of a group that carry an action, with it. -/
def targetsOf (members : List PlanMemberEvidence) : List (PlanMemberEvidence × ActionKind) :=
  members.filterMap fun m => if m.isKeeper then none else m.action.map fun kind => (m, kind)

/-- What the group loop of `try_new` has accumulated. -/
structure PlanFold where
  objects : List PlannedObject
  actions : List PlanAction
  warnings : List PlanWarning
  crossing : Option (ActionKind × Path × Path)
  crossingMarks : Nat

namespace PlanFold

def empty : PlanFold := ⟨[], [], [], none, 0⟩

/-- `index_of`: where the first object of `key` stands among those pushed from `first` on. -/
def indexOf (fold : PlanFold) (first : Nat) (key : PlanObjectKey) : Nat :=
  (fold.objects.drop first).findIdx (fun object => decide (object.key = key)) + first

/-- One covered target: an action, or one more link across a dataset boundary. -/
def target (group : PlanGroupInput) (groupIndex size first : Nat) (keeper : PlanMemberEvidence)
    (fold : PlanFold) (t : PlanMemberEvidence × ActionKind) : PlanFold :=
  if t.2 ≠ .delete ∧ t.1.key.device ≠ keeper.key.device then
    { fold with
      crossing := fold.crossing.or (some (t.2, t.1.path, keeper.path))
      crossingMarks := fold.crossingMarks + 1 }
  else
    { fold with
      actions := fold.actions ++
        [{ kind := t.2
           target := t.1.path
           keeper := keeper.path
           targetObject := fold.indexOf first t.1.key
           keeperObject := fold.indexOf first keeper.key
           size := size
           expectedHash := group.hash
           group := groupIndex }] }

/-- The body of the group loop. -/
def group (groupIndex : Nat) (group : PlanGroupInput) (fold : PlanFold) :
    Except PlanRefusal PlanFold :=
  match group.members with
  | [] => .error (.missingKeeper group.hash)
  | head :: _ =>
    if group.members.any fun m => decide (m.key.size ≠ head.key.size) then
      .error (.inconsistentGroupSize group.hash)
    else
      match group.members.filter PlanMemberEvidence.isKeeper, targetsOf group.members with
      | first :: second :: _, _ => .error (.multipleKeepers group.hash first.path second.path)
      | [], [] =>
        match pushObjects fold.objects group group.members none [] with
        | .error e => .error e
        | .ok objects => .ok { fold with objects := objects }
      | [], _ :: _ => .error (.missingKeeper group.hash)
      | [keeper], targets =>
        let covered := targets.filter fun t => decide (t.1.key ≠ keeper.key)
        let skipped := targets.filter fun t => decide (t.1.key = keeper.key)
        match pushObjects fold.objects group group.members (some keeper)
            (covered.map Prod.fst) with
        | .error e => .error e
        | .ok objects =>
          .ok (covered.foldl (target group groupIndex head.key.size fold.objects.length keeper)
            { fold with
              objects := objects
              warnings := fold.warnings ++
                skipped.map fun t => .alreadyLinkedWithKeeper t.1.path })

/-- The group loop, from the index of the next group. -/
def groups (groupIndex : Nat) (fold : PlanFold) : List PlanGroupInput → Except PlanRefusal PlanFold
  | [] => .ok fold
  | g :: gs =>
    match fold.group groupIndex g with
    | .error e => .error e
    | .ok fold => groups (groupIndex + 1) fold gs

end PlanFold

/-! ## `try_new` -/

namespace ActionPlan

/-- The one normalisation up front: groups by rank, members by pathname. -/
def normalize (groups : List PlanGroupInput) : List PlanGroupInput :=
  (groups.insertionSort fun a b => a.id.rank ≤ b.id.rank).map fun group =>
    { group with members := group.members.insertionSort fun a b => a.path ≤ b.path }

def witnessFrom (scanId generation : Int) (groups : List PlanGroupInput) : PlanWitness :=
  { scanId := scanId
    generation := generation
    groups := groups.map fun group =>
      { id := group.id, digest := group.hash, members := group.members.map (·.path) } }

/-- The indices of the marked members of a group. -/
def marksOf (group : PlanGroupInput) : List Nat :=
  (group.members.zipIdx.filter fun m => m.1.mark.isSome).map Prod.snd

/-- What is left of `try_new` once every group is folded. -/
def finish (scanId : Int) (witness : PlanWitness) (groupMarks : List (List Nat))
    (fold : PlanFold) : Except PlanRefusal ActionPlan :=
  match fold.crossing with
  | some (kind, target, keeper) => .error (.crossDataset kind target keeper fold.crossingMarks)
  | none =>
    if fold.actions = [] then
      .error (if fold.warnings = [] then .noMarks else .nothingToDo)
    else
      match ReclaimEstimate.forFreshScan (fold.objects.map PlannedObject.estimate) with
      | .error e => .error (.arithmetic e.message)
      | .ok estimate =>
        .ok
          { scanId := scanId
            objects := fold.objects
            actions := fold.actions
            summary :=
              { actions := fold.actions.length
                coveredObjects := fold.objects.countP fun o => decide (o.coveredLinks > 0)
                estimate := estimate
                warnings := fold.warnings ++ fold.objects.filterMap PlannedObject.warning }
            witness := witness
            groupMarks := groupMarks
            unrunnable := .default }

/-- `ActionPlan::try_new`: folds complete group evidence into a plan, or refuses. -/
def tryNew (scanId : Int) (groups : List PlanGroupInput) : Except PlanRefusal ActionPlan :=
  match groups with
  | [] => .error .noMarks
  | head :: _ =>
    let generation := head.id.generation
    match checkIdentities scanId generation groups with
    | .error e => .error e
    | .ok () =>
      let groups := normalize groups
      match checkGlobalEvidence groups with
      | .error e => .error e
      | .ok () =>
        match PlanFold.groups 0 .empty groups with
        | .error e => .error e
        | .ok fold =>
          finish scanId (witnessFrom scanId generation groups) (groups.map marksOf) fold

/-- The object an action removes a pathname of. -/
def targetObjectOf (plan : ActionPlan) (action : PlanAction) : Option PlannedObject :=
  plan.objects[action.targetObject]?

/-- The object an action links or clones from. -/
def keeperObjectOf (plan : ActionPlan) (action : PlanAction) : Option PlannedObject :=
  plan.objects[action.keeperObject]?

/-- `with_unrunnable`: a reading that is not one entry per action counts nothing out. -/
def withUnrunnable (plan : ActionPlan) (unrunnable : Unrunnable) : ActionPlan :=
  { plan with
    unrunnable :=
      if unrunnable.reasons.length = plan.actions.length then unrunnable else .default }

/-- Whether the plan's confirmation counted action `index` out. -/
def isSetAside (plan : ActionPlan) (index : Nat) : Bool :=
  (plan.unrunnable.reason index).isSome

end ActionPlan

end DedupCommando
