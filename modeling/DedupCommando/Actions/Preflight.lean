import DedupCommando.Actions.MoveFile
import DedupCommando.Model.Realize

/-!
# What stands in the way of an action

`actions/preflight.rs`: found before the batch takes its first snapshot.

* `place` — the dataset an action changes, from the plan alone.
* `obstacle`, `obstacles` — what the filesystem says about the pathnames, with the directories
  probed once.
* `nothingCanRun` — the refusal of a batch in which every action has an obstacle.
-/

set_option autoImplicit false

namespace DedupCommando

/-- One mounted dataset. -/
structure Dataset where
  name : String
  mountpoint : Path
  deviceId : Option Nat
  blockCloning : Option Bool
  deriving DecidableEq

/-- The part of the name before the first `/`. -/
def Dataset.poolName (d : Dataset) : String := (d.name.splitOn "/").head?.getD d.name

/-- `dataset_by_device`. -/
def datasetByDevice (datasets : List Dataset) (device : Nat) : Option Dataset :=
  datasets.find? fun d => decide (d.deviceId = some device)

def cloneNeeds : String := "needs OpenZFS 2.2.1 or newer with zfs_bclone_enabled=1"

/-- `SET_ASIDE`. -/
def setAsideReason : String := "set aside by the confirmation — build the plan again"

/-- The device of an action's target object.  No action of an accepted plan is without one. -/
def ActionPlan.targetDevice (plan : ActionPlan) (action : PlanAction) : Nat :=
  match plan.targetObjectOf action with
  | some object => object.key.device
  | none => 0

def ActionPlan.keeperDevice (plan : ActionPlan) (action : PlanAction) : Nat :=
  match plan.keeperObjectOf action with
  | some object => object.key.device
  | none => 0

/-- `place`: the dataset `action` changes, or what the plan alone says against it. -/
def place (plan : ActionPlan) (action : PlanAction) (datasets : List Dataset) (reflinkSafe : Bool) :
    Except String Dataset :=
  let device := plan.targetDevice action
  if action.kind = .reflink ∧ reflinkSafe = false then
    .error s!"reflink is unavailable on this host — {cloneNeeds}"
  else if action.kind ≠ .delete ∧ plan.keeperDevice action ≠ device then
    .error s!"cross-dataset {action.kind.asStr} is impossible — files are in different datasets"
  else
    match datasetByDevice datasets device with
    | none =>
      .error
        (if action.kind = .delete then "target file's dataset could not be determined"
         else s!"target file's dataset could not be determined — {action.kind.asStr} is not " ++
          "performed without a ZFS snapshot")
    | some dataset =>
      if action.kind = .reflink ∧ dataset.blockCloning = some false then
        .error (s!"reflink is unavailable on pool {dataset.poolName} — its block_cloning feature " ++
          "is disabled")
      else .ok dataset

/-! ## Probes -/

/-- What one pass has looked at. -/
structure Probes where
  directories : List (Path × Probe)
  nests : List (Path × Path)

namespace Probes

def new : Probes := ⟨[], []⟩

def directory (path : Path) (probes : Probes) (w : World) : Probe × Probes × World :=
  match probes.directories.lookup path with
  | some probe => (probe, probes, w)
  | none =>
    match w.probe path .directory with
    | (probe, w) => (probe, { probes with directories := (path, probe) :: probes.directories }, w)

def nest (mountpoint : Path) (probes : Probes) (w : World) : Path × Probes × World :=
  match probes.nests.lookup mountpoint with
  | some nest => (nest, probes, w)
  | none =>
    match w.isDir (quarantineRoot mountpoint) with
    | (isDir, w) =>
      let nest := if isDir then quarantineRoot mountpoint else mountpoint
      (nest, { probes with nests := (mountpoint, nest) :: probes.nests }, w)

end Probes

/-- `differ`: two mounts known to be different. -/
def differ (one other : Option Nat) : Bool :=
  match one, other with
  | some one, some other => decide (one ≠ other)
  | _, _ => false

/-- The keeper's own flags: `link` crosses neither. -/
def keeperFlags (action : PlanAction) (probes : Probes) (w : World) :
    Option String × Probes × World :=
  match w.probe action.keeper .file with
  | (source, w) =>
    if source.immutable then (some "the keeper is immutable (chattr +i)", probes, w)
    else if source.appendOnly then (some "the keeper is append-only (chattr +a)", probes, w)
    else (none, probes, w)

/-- What a hardlink asks of its keeper. -/
def keeperObstacle (action : PlanAction) (here : Probe) (probes : Probes) (w : World) :
    Option String × Probes × World :=
  match action.keeper.parent with
  | none => keeperFlags action probes w
  | some keeperDir =>
    match probes.directory keeperDir w with
    | (there, probes, w) =>
      if differ there.mount here.mount then
        (some "the keeper is reached through another mount (a bind mount?)", probes, w)
      else keeperFlags action probes w

/-- What the target's own flags say, and then the keeper's for a hardlink. -/
def fileObstacle (action : PlanAction) (here : Probe) (probes : Probes) (w : World) :
    Option String × Probes × World :=
  match w.probe action.target .file with
  | (file, w) =>
    if file.immutable then (some "the file is immutable (chattr +i)", probes, w)
    else if file.appendOnly then (some "the file is append-only (chattr +a)", probes, w)
    else if action.kind ≠ .hardlink then (none, probes, w)
    else keeperObstacle action here probes w

/-- `obstacle`: everything that can be seen against `action` before its snapshot. -/
def obstacle (plan : ActionPlan) (datasets : List Dataset) (reflinkSafe : Bool)
    (action : PlanAction) (probes : Probes) (w : World) : Option String × Probes × World :=
  match place plan action datasets reflinkSafe with
  | .error reason => (some reason, probes, w)
  | .ok dataset =>
    if action.target.stripPrefix dataset.mountpoint = none then
      (some s!"outside the mountpoint of {dataset.name} ({dataset.mountpoint.display})", probes, w)
    else
      match action.target.parent with
      | none => (some "target file has no parent directory", probes, w)
      | some dir =>
        match probes.directory dataset.mountpoint w with
        | (home, probes, w) =>
          match probes.directory dir w with
          | (here, probes, w) =>
            if differ here.mount home.mount then
              (some s!"reached through another mount of {dataset.name} (a bind mount?)", probes, w)
            else if home.readOnly ∨ here.readOnly then
              (some s!"read-only filesystem ({dataset.name})", probes, w)
            else if home.full then
              (some s!"no space left on {dataset.name} (full pool or quota)", probes, w)
            else
              match probes.nest dataset.mountpoint w with
              | (nest, probes, w) =>
                match probes.directory nest w with
                | (there, probes, w) =>
                  if there.immutable then
                    (some (s!"the quarantine cannot be made in {nest.display}: it is immutable " ++
                      "(chattr +i)"), probes, w)
                  else if here.immutable then
                    (some "the directory is immutable (chattr +i)", probes, w)
                  else if here.appendOnly then
                    (some "the directory is append-only (chattr +a)", probes, w)
                  else fileObstacle action here probes w

/-- The pass of `obstacles`, one action after the other. -/
def obstaclesFrom (plan : ActionPlan) (datasets : List Dataset) (reflinkSafe : Bool) :
    List PlanAction → Probes → World → List (Option String) × World
  | [], _, w => ([], w)
  | action :: actions, probes, w =>
    match obstacle plan datasets reflinkSafe action probes w with
    | (found, probes, w) =>
      match obstaclesFrom plan datasets reflinkSafe actions probes w with
      | (rest, w) => (found :: rest, w)

/-- `obstacles`: one pass over the plan, before any snapshot. -/
def obstacles (plan : ActionPlan) (datasets : List Dataset) (reflinkSafe : Bool) (w : World) :
    List (Option String) × World :=
  obstaclesFrom plan datasets reflinkSafe plan.actions .new w

/-! ## A batch in which nothing can run -/

/-- `counted`: «1 mark», «3 marks». -/
def counted (count : Nat) (what : String) : String :=
  if count = 1 then s!"1 {what}" else s!"{count} {what}s"

/-- The first action with a reason, among those whose reason is not the confirmation's own when
    `skipSetAside` holds. -/
def firstReason (skipSetAside : Bool) (actions : List PlanAction) (obstacles : List (Option String)) :
    Option (PlanAction × String) :=
  (actions.zip obstacles).findSome? fun a =>
    (a.2.filter fun reason => !(skipSetAside && decide (reason = setAsideReason))).map
      fun reason => (a.1, reason)

/-- `nothing_can_run`. -/
def nothingCanRun (plan : ActionPlan) (obstacles : List (Option String)) : Option String :=
  if obstacles.length ≠ plan.actions.length ∨ obstacles.any Option.isNone then none
  else
    let stuck := counted obstacles.length "action"
    ((firstReason true plan.actions obstacles).or (firstReason false plan.actions obstacles)).map
      fun first =>
        s!"nothing done — {stuck} cannot run: {first.2}; no snapshot taken, marks kept; " ++
          s!"first: {first.1.target.display}"

/-! ## What the pass leaves alone -/

theorem probe_looked (p : Path) (role : Role) (w : World) : World.Looked w (w.probe p role).2 :=
  World.pause_looked w

theorem Probes.directory_looked (path : Path) (probes : Probes) (w : World) :
    World.Looked w (probes.directory path w).2.2 := by
  unfold directory
  split
  · exact World.Looked.refl w
  · exact probe_looked path .directory w

theorem Probes.nest_looked (mountpoint : Path) (probes : Probes) (w : World) :
    World.Looked w (probes.nest mountpoint w).2.2 := by
  unfold nest
  split
  · exact World.Looked.refl w
  · exact World.enter_looked rfl w

theorem keeperFlags_looked (action : PlanAction) (probes : Probes) (w : World) :
    World.Looked w (keeperFlags action probes w).2.2 := by
  have hprobe := probe_looked action.keeper .file w
  unfold keeperFlags
  split
  rename_i source w₁ h
  rw [h] at hprobe
  split
  · exact hprobe
  · split <;> exact hprobe

theorem keeperObstacle_looked (action : PlanAction) (here : Probe) (probes : Probes) (w : World) :
    World.Looked w (keeperObstacle action here probes w).2.2 := by
  unfold keeperObstacle
  split
  · exact keeperFlags_looked action probes w
  · rename_i keeperDir _
    have hdir := Probes.directory_looked keeperDir probes w
    split
    rename_i there probes₁ w₁ h
    rw [h] at hdir
    split
    · exact hdir
    · exact hdir.trans (keeperFlags_looked action probes₁ w₁)

theorem fileObstacle_looked (action : PlanAction) (here : Probe) (probes : Probes) (w : World) :
    World.Looked w (fileObstacle action here probes w).2.2 := by
  have hprobe := probe_looked action.target .file w
  unfold fileObstacle
  split
  rename_i file w₁ h
  rw [h] at hprobe
  split
  · exact hprobe
  · split
    · exact hprobe
    · split
      · exact hprobe
      · exact hprobe.trans (keeperObstacle_looked action here probes w₁)

theorem obstacle_looked (plan : ActionPlan) (datasets : List Dataset) (reflinkSafe : Bool)
    (action : PlanAction) (probes : Probes) (w : World) :
    World.Looked w (obstacle plan datasets reflinkSafe action probes w).2.2 := by
  unfold obstacle
  split
  · exact World.Looked.refl w
  rename_i dataset _
  split
  · exact World.Looked.refl w
  split
  · exact World.Looked.refl w
  rename_i dir _
  have hhome := Probes.directory_looked dataset.mountpoint probes w
  split
  rename_i home probes₁ w₁ h₁
  rw [h₁] at hhome
  have hhere := hhome.trans (Probes.directory_looked dir probes₁ w₁)
  split
  rename_i here probes₂ w₂ h₂
  rw [h₂] at hhere
  split
  · exact hhere
  split
  · exact hhere
  split
  · exact hhere
  have hnest := hhere.trans (Probes.nest_looked dataset.mountpoint probes₂ w₂)
  split
  rename_i nest probes₃ w₃ h₃
  rw [h₃] at hnest
  have hthere := hnest.trans (Probes.directory_looked nest probes₃ w₃)
  split
  rename_i there probes₄ w₄ h₄
  rw [h₄] at hthere
  split
  · exact hthere
  split
  · exact hthere
  split
  · exact hthere
  · exact hthere.trans (fileObstacle_looked action here probes₄ w₄)

/-- The pass reads one obstacle or none per action and changes no file. -/
theorem obstaclesFrom_spec (plan : ActionPlan) (datasets : List Dataset) (reflinkSafe : Bool) :
    ∀ (actions : List PlanAction) (probes : Probes) (w : World),
      (obstaclesFrom plan datasets reflinkSafe actions probes w).1.length = actions.length ∧
        World.Looked w (obstaclesFrom plan datasets reflinkSafe actions probes w).2
  | [], _, w => ⟨rfl, World.Looked.refl w⟩
  | action :: actions, probes, w => by
    have hone := obstacle_looked plan datasets reflinkSafe action probes w
    unfold obstaclesFrom
    split
    rename_i found probes₁ w₁ h
    rw [h] at hone
    obtain ⟨hlen, hrest⟩ := obstaclesFrom_spec plan datasets reflinkSafe actions probes₁ w₁
    exact ⟨by simpa using hlen, hone.trans hrest⟩

/-- The place of an action is the dataset of its target's device. -/
theorem place_ok {plan : ActionPlan} {action : PlanAction} {datasets : List Dataset}
    {reflinkSafe : Bool} {dataset : Dataset}
    (h : place plan action datasets reflinkSafe = .ok dataset) :
    datasetByDevice datasets (plan.targetDevice action) = some dataset ∧
      (action.kind ≠ .delete → plan.keeperDevice action = plan.targetDevice action) := by
  unfold place at h
  simp only at h
  split at h
  · cases h
  split at h
  · cases h
  rename_i hcross
  split at h
  · cases h
  rename_i found hfound
  split at h
  · cases h
  · cases h
    refine ⟨hfound, fun hkind => ?_⟩
    by_contra hne
    exact hcross ⟨hkind, hne⟩

end DedupCommando
