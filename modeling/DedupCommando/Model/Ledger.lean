import DedupCommando.Kernel.World
import DedupCommando.Model.Plan

/-!
# The runtime ledger

`ActionPlan::preflight` and `RuntimeLedger` of `model/plan.rs`: the plan's allocations as the batch
itself has driven them.

* `liveIdentity` — one reading of a pathname.
* `ActionPlan.preflight` — the structural check the ledger is opened from.
* `RuntimeLedger.check`, `quarantined`, `settled`, `linked`, `cloned`, `poison` — the ledger's own
  reading and its transitions.  A transition that fails leaves the ledger as it was.
* `quarantined_ok`, `settled_ok`, `linked_ok`, `cloned_ok` — what each transition adopts.
-/

set_option autoImplicit false

namespace DedupCommando

/-! ## Readings -/

/-- The eight fields of an inode's `stat`. -/
def Node.identity (n : Node) (i : InodeId) : LiveIdentity where
  device := i.device
  inode := i.inode
  size := n.size
  mtime := n.mtime.sec
  mtimeNsec := n.mtime.nsec
  ctimeSec := n.ctime.sec
  ctimeNsec := n.ctime.nsec
  nlink := n.nlink

/-- `live_identity`. -/
def liveIdentity (path : Path) (w : World) : Except PlanRefusal LiveIdentity × World :=
  match w.stat path with
  | (.error _, w) => (.error (.vanished path), w)
  | (.ok (i, n), w) =>
    if n.kind = .symlink then (.error (.symlink path), w) else (.ok (n.identity i), w)

/-- `drift_between`: the first of the eight fields where two readings disagree. -/
def driftBetween (expected live : LiveIdentity) : Option String :=
  firstDisagreement
    [("device", decide (expected.device = live.device)),
     ("inode", decide (expected.inode = live.inode)),
     ("size", decide (expected.size = live.size)),
     ("mtime", decide (expected.mtime = live.mtime)),
     ("mtime_nsec", decide (expected.mtimeNsec = live.mtimeNsec)),
     ("ctime", decide (expected.ctimeSec = live.ctimeSec)),
     ("ctime_nsec", decide (expected.ctimeNsec = live.ctimeNsec)),
     ("link count", decide (expected.nlink = live.nlink))]

/-- The recorded fields with the live `ctime`: what a change of our own leaves. -/
def LiveIdentity.withCtimeOf (recorded live : LiveIdentity) : LiveIdentity :=
  { recorded with ctimeSec := live.ctimeSec, ctimeNsec := live.ctimeNsec }

/-- `u64::saturating_add(1)`. -/
def saturatingSucc (n : Nat) : Nat := min (n + 1) (2 ^ 64 - 1)

/-! ## The ledger -/

/-- `ObjectState`: one allocation of the plan as the disk reports it. -/
structure ObjectState where
  identity : LiveIdentity
  paths : List Path
  settled : Bool
  deriving DecidableEq

/-- `RuntimeLedger`, and the `PlanLiveState` it is opened on. -/
structure RuntimeLedger where
  objects : List ObjectState
  deriving DecidableEq

/-- `replace_path`. -/
def replacePath (paths : List Path) (source dest : Path) : List Path :=
  if source ∈ paths then paths.set (paths.idxOf source) dest else paths ++ [dest]

/-- The loop of `check` over an allocation's pathnames. -/
def checkPaths (identity : LiveIdentity) : List Path → World → Except PlanRefusal Unit × World
  | [], w => (.ok (), w)
  | path :: paths, w =>
    match liveIdentity path w with
    | (.error e, w) => (.error e, w)
    | (.ok live, w) =>
      match driftBetween identity live with
      | some field => (.error (.externalChange path field), w)
      | none => checkPaths identity paths w

namespace RuntimeLedger

def noEntry (object : Nat) : PlanRefusal := .arithmetic s!"the plan has no allocation {object}"

/-- `RuntimeLedger::check`. -/
def check (ledger : RuntimeLedger) (object : Nat) (w : World) : Except PlanRefusal Unit × World :=
  match ledger.objects[object]? with
  | none => (.error (noEntry object), w)
  | some entry =>
    if entry.settled = false then (.error (.unsettledObject (entry.paths.head?.getD [])), w)
    else checkPaths entry.identity entry.paths w

/-- The entry with an identity adopted and its pathnames changed. -/
def adopt (ledger : RuntimeLedger) (object : Nat) (entry : ObjectState) : RuntimeLedger :=
  ⟨ledger.objects.set object entry⟩

/-- `RuntimeLedger::quarantined`: a pathname of `object` was renamed into quarantine. -/
def quarantined (ledger : RuntimeLedger) (object : Nat) (source dest : Path) (w : World) :
    Except PlanRefusal RuntimeLedger × World :=
  match ledger.objects[object]? with
  | none => (.error (noEntry object), w)
  | some entry =>
    match liveIdentity dest w with
    | (.error e, w) => (.error e, w)
    | (.ok live, w) =>
      match driftBetween (entry.identity.withCtimeOf live) live with
      | some field => (.error (.externalChange dest field), w)
      | none =>
        (.ok (ledger.adopt object
          { entry with identity := live, paths := replacePath entry.paths source dest }), w)

/-- `RuntimeLedger::settled`: the batch touched `object` and left it structurally as it was. -/
def settled (ledger : RuntimeLedger) (object : Nat) (path : Path) (w : World) :
    Except PlanRefusal RuntimeLedger × World :=
  match ledger.objects[object]? with
  | none => (.error (noEntry object), w)
  | some entry =>
    match liveIdentity path w with
    | (.error e, w) => (.error e, w)
    | (.ok live, w) =>
      match driftBetween (entry.identity.withCtimeOf live) live with
      | some field => (.error (.externalChange path field), w)
      | none => (.ok (ledger.adopt object { entry with identity := live }), w)

/-- `RuntimeLedger::poison`: stops trusting the allocation. -/
def poison (ledger : RuntimeLedger) (object : Nat) : RuntimeLedger :=
  ⟨ledger.objects.modify object fun entry => { entry with settled := false }⟩

/-- `RuntimeLedger::linked`: a hardlink to `keeperPath` was published at `published`. -/
def linked (ledger : RuntimeLedger) (object : Nat) (keeperPath published : Path) (w : World) :
    Except PlanRefusal RuntimeLedger × World :=
  match ledger.objects[object]? with
  | none => (.error (noEntry object), w)
  | some entry =>
    match liveIdentity keeperPath w with
    | (.error e, w) => (.error e, w)
    | (.ok live, w) =>
      let expected :=
        { entry.identity.withCtimeOf live with nlink := saturatingSucc entry.identity.nlink }
      match driftBetween expected live with
      | some field => (.error (.externalChange keeperPath field), w)
      | none =>
        -- the same allocation, read from the other end
        match liveIdentity published w with
        | (.error e, w) => (.error e, w)
        | (.ok landed, w) =>
          match driftBetween live landed with
          | some field => (.error (.externalChange published field), w)
          | none =>
            (.ok (ledger.adopt object
              { entry with identity := live, paths := entry.paths ++ [published] }), w)

/-- What is wrong with a published clone, given the keeper's and the replaced file's records. -/
def cloneFault (keeper original identity : LiveIdentity) : Option String :=
  firstDisagreement
    [("inode", decide ¬((identity.device, identity.inode) = (keeper.device, keeper.inode) ∨
        (identity.device, identity.inode) = (original.device, original.inode))),
     ("device", decide (identity.device = original.device)),
     ("size", decide (identity.size = original.size)),
     ("mtime", decide (identity.mtime = original.mtime)),
     ("mtime_nsec", decide (identity.mtimeNsec = original.mtimeNsec)),
     ("link count", decide (identity.nlink = 1))]

/-- `RuntimeLedger::cloned`: a block clone of `keeperPath` was published at `published`. -/
def cloned (ledger : RuntimeLedger) (keeperObject targetObject : Nat) (keeperPath published : Path)
    (w : World) : Except PlanRefusal RuntimeLedger × World :=
  match ledger.objects[keeperObject]?, ledger.objects[targetObject]? with
  | none, _ => (.error (noEntry keeperObject), w)
  | some _, none => (.error (noEntry targetObject), w)
  | some keeper, some original =>
    match liveIdentity keeperPath w with
    | (.error e, w) => (.error e, w)
    | (.ok live, w) =>
      match driftBetween keeper.identity live with
      | some field => (.error (.externalChange keeperPath field), w)
      | none =>
        match liveIdentity published w with
        | (.error e, w) => (.error e, w)
        | (.ok identity, w) =>
          match cloneFault keeper.identity original.identity identity with
          | some field => (.error (.externalChange published field), w)
          | none => (.ok ⟨ledger.objects ++ [⟨identity, [published], true⟩]⟩, w)

end RuntimeLedger

/-! ## The preflight -/

/-- The member loop of `preflight`: the last reading of an allocation whose every pathname is as the
    manifest recorded it. -/
def preflightMembers (object : PlannedObject) :
    Option LiveIdentity → List Path → World → Except PlanRefusal (Option LiveIdentity) × World
  | identity, [], w => (.ok identity, w)
  | _, path :: paths, w =>
    match liveIdentity path w with
    | (.error e, w) => (.error e, w)
    | (.ok live, w) =>
      match object.key.firstDrift live object.links with
      | some field => (.error (.drifted path field), w)
      | none => preflightMembers object (some live) paths w

/-- The object loop of `preflight`. -/
def preflightObjects : List PlannedObject → World → Except PlanRefusal (List ObjectState) × World
  | [], w => (.ok [], w)
  | object :: objects, w =>
    match preflightMembers object none object.members w with
    | (.error e, w) => (.error e, w)
    | (.ok none, w) => (.error (.missingKeeper object.hash), w)
    | (.ok (some live), w) =>
      if object.observedLinks > live.nlink ∨ object.coveredLinks > object.observedLinks then
        (.error (.impossibleManifest object.representative object.observedLinks live.nlink), w)
      else
        match preflightObjects objects w with
        | (.error e, w) => (.error e, w)
        | (.ok states, w) => (.ok (⟨live, object.members, true⟩ :: states), w)

/-- The action loop of `preflight`: no target is the keeper's own allocation by now. -/
def preflightActions (states : List ObjectState) : List PlanAction → Except PlanRefusal Unit
  | [] => .ok ()
  | action :: actions =>
    match states[action.targetObject]?, states[action.keeperObject]? with
    | some target, some keeper =>
      if (target.identity.device, target.identity.inode) =
          (keeper.identity.device, keeper.identity.inode) then
        .error (.alreadyLinkedNow action.target action.keeper)
      else preflightActions states actions
    | _, _ => preflightActions states actions  -- no accepted plan has such an index

/-- `ActionPlan::preflight`. -/
def ActionPlan.preflight (plan : ActionPlan) (w : World) :
    Except PlanRefusal RuntimeLedger × World :=
  match preflightObjects plan.objects w with
  | (.error e, w) => (.error e, w)
  | (.ok states, w) =>
    match preflightActions states plan.actions with
    | .error e => (.error e, w)
    | .ok () => (.ok ⟨states⟩, w)

/-! ## What a reading says -/

theorem liveIdentity_looked (path : Path) (w : World) :
    World.Looked w (liveIdentity path w).2 := by
  have hstat : World.Looked w (w.stat path).2 := World.stat_looked path w
  unfold liveIdentity
  split
  · rename_i h; rw [h] at hstat; exact hstat
  · rename_i h
    rw [h] at hstat
    split <;> exact hstat

theorem firstDisagreement_eq_none {fields : List (String × Bool)} :
    firstDisagreement fields = none ↔ ∀ f ∈ fields, f.2 = true := by
  unfold firstDisagreement
  simp

theorem driftBetween_eq_none {expected live : LiveIdentity} :
    driftBetween expected live = none ↔ expected = live := by
  obtain ⟨⟩ := expected
  obtain ⟨⟩ := live
  simp [driftBetween, firstDisagreement_eq_none]

/-! ## What a transition adopts -/

theorem checkPaths_looked (identity : LiveIdentity) :
    ∀ (paths : List Path) (w : World), World.Looked w (checkPaths identity paths w).2
  | [], w => World.Looked.refl w
  | path :: paths, w => by
    have hlive := liveIdentity_looked path w
    unfold checkPaths
    split
    · rename_i h; rw [h] at hlive; exact hlive
    · rename_i w₁ h
      rw [h] at hlive
      split
      · exact hlive
      · exact hlive.trans (checkPaths_looked identity paths w₁)

namespace RuntimeLedger

variable {ledger ledger' : RuntimeLedger} {object : Nat} {w : World}

theorem check_looked (ledger : RuntimeLedger) (object : Nat) (w : World) :
    World.Looked w (ledger.check object w).2 := by
  unfold check
  split
  · exact World.Looked.refl w
  · split
    · exact World.Looked.refl w
    · exact checkPaths_looked _ _ w

/-- A move into quarantine adopts the `ctime` read at the new place, and nothing else. -/
theorem quarantined_ok {source dest : Path}
    (h : (ledger.quarantined object source dest w).1 = .ok ledger') :
    ∃ entry live, ledger.objects[object]? = some entry ∧ (liveIdentity dest w).1 = .ok live ∧
      live = entry.identity.withCtimeOf live ∧
      ledger' = ledger.adopt object
        { entry with identity := live, paths := replacePath entry.paths source dest } := by
  unfold quarantined at h
  split at h
  · cases h
  · rename_i entry hentry
    split at h
    · cases h
    · rename_i live w₁ hlive
      split at h
      · cases h
      · rename_i hnone
        cases h
        exact ⟨entry, live, hentry, by rw [hlive], (driftBetween_eq_none.1 hnone).symm, rfl⟩

/-- A settled allocation adopts the `ctime` read at one of its pathnames, and nothing else. -/
theorem settled_ok {path : Path} (h : (ledger.settled object path w).1 = .ok ledger') :
    ∃ entry live, ledger.objects[object]? = some entry ∧ (liveIdentity path w).1 = .ok live ∧
      live = entry.identity.withCtimeOf live ∧
      ledger' = ledger.adopt object { entry with identity := live } := by
  unfold settled at h
  split at h
  · cases h
  · rename_i entry hentry
    split at h
    · cases h
    · rename_i live w₁ hlive
      split at h
      · cases h
      · rename_i hnone
        cases h
        exact ⟨entry, live, hentry, by rw [hlive], (driftBetween_eq_none.1 hnone).symm, rfl⟩

/-- A published link adopts one link and the `ctime`, and the published pathname is the same
    allocation. -/
theorem linked_ok {keeperPath published : Path}
    (h : (ledger.linked object keeperPath published w).1 = .ok ledger') :
    ∃ entry live, ledger.objects[object]? = some entry ∧
      (liveIdentity keeperPath w).1 = .ok live ∧
      (liveIdentity published (liveIdentity keeperPath w).2).1 = .ok live ∧
      live = { entry.identity.withCtimeOf live with
        nlink := saturatingSucc entry.identity.nlink } ∧
      ledger' = ledger.adopt object
        { entry with identity := live, paths := entry.paths ++ [published] } := by
  unfold linked at h
  split at h
  · cases h
  · rename_i entry hentry
    split at h
    · cases h
    · rename_i live w₁ hlive
      simp only at h
      split at h
      · cases h
      · rename_i hnone
        split at h
        · cases h
        · rename_i landed w₂ hlanded
          split at h
          · cases h
          · rename_i hsame
            cases h
            rw [← driftBetween_eq_none.1 hsame] at hlanded
            rw [hlive]
            exact ⟨entry, live, hentry, rfl, by rw [hlanded],
              (driftBetween_eq_none.1 hnone).symm, rfl⟩

/-- A published clone adds an entry of its own and adopts nothing. -/
theorem cloned_ok {target : Nat} {keeperPath published : Path}
    (h : (ledger.cloned object target keeperPath published w).1 = .ok ledger') :
    ∃ identity, ledger'.objects = ledger.objects ++ [⟨identity, [published], true⟩] := by
  unfold cloned at h
  split at h
  · cases h
  · cases h
  · split at h
    · cases h
    · split at h
      · cases h
      · split at h
        · cases h
        · rename_i identity w₁ hidentity
          split at h
          · cases h
          · cases h
            exact ⟨identity, rfl⟩

end RuntimeLedger

end DedupCommando
