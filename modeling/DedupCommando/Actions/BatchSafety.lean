import DedupCommando.Actions.Batch
import DedupCommando.Actions.PublishSafety

/-!
# No change without a snapshot

* `applyOne_ran` — an action that reaches the files has a guarded place; one that does not changes
  nothing.
* `takeSnapshots_ok` — what the snapshot loop leaves in the log.
* `BatchInsured`, `runBatch_insured` — every call of a batch that can change a file is made behind
  the snapshot of its target's dataset, an abort makes none, and the settlement is of the actions
  that ran.
-/

set_option autoImplicit false

namespace DedupCommando

open World

/-! ## What an action may do -/

theorem publishEvacuated_ran (temp target evacuated : Path) (w : World) :
    Ran w (publishEvacuated temp target evacuated w).2 := by
  have hpublish : Ran w (w.renameNoreplace temp target).2 := perform_ran _ _ w
  unfold publishEvacuated
  split
  · rename_i h; rw [h] at hpublish; exact hpublish
  rename_i w₁ h
  rw [h] at hpublish
  have hremove : Ran w₁ (removeReplacement temp w₁).2 := by
    rw [removeReplacement_snd]; exact perform_ran _ _ w₁
  split
  rename_i w₂ h₂
  rw [h₂] at hremove
  have hback : Ran w₂ (w₂.renameNoreplace evacuated target).2 := perform_ran _ _ w₂
  split
  · rename_i h₃; rw [h₃] at hback; exact (hpublish.trans hremove).trans hback
  · rename_i h₃; rw [h₃] at hback; exact (hpublish.trans hremove).trans hback

theorem publishAt_ran {build : Build} (hb : ∀ temp w, Ran w (build temp w).2)
    (temp target mountpoint dir : Path) (w : World) :
    Ran w (publishAt temp target build mountpoint dir w).2 := by
  have hbuild := hb temp w
  unfold publishAt
  split
  · rename_i w₁ h
    rw [h] at hbuild
    exact hbuild.trans (perform_ran _ _ w₁)
  · rename_i w₁ h
    rw [h] at hbuild
    have hmove := deleteToQuarantine_ran target mountpoint dir w₁
    split
    · rename_i w₂ h₂
      rw [h₂] at hmove
      exact (hbuild.trans hmove).trans (perform_ran _ _ w₂)
    · rename_i w₂ h₂
      rw [h₂] at hmove
      exact ((hbuild.trans hmove).trans (pause_looked w₂).toRan).trans
        (publishEvacuated_ran _ _ _ _)

theorem evacuateThenPublish_ran {build : Build} (hb : ∀ temp w, Ran w (build temp w).2)
    (target mountpoint dir : Path) (w : World) :
    Ran w (evacuateThenPublish target build mountpoint dir w).2 := by
  unfold evacuateThenPublish stagingPath
  split
  · exact Ran.refl w
  · rename_i parent _
    have hstep : Ran w { w with stagingSeq := w.stagingSeq + 1 } :=
      ⟨⟨rfl, rfl, rfl, [], by simp⟩, rfl⟩
    exact hstep.trans
      (publishAt_ran hb (w.stagingAt parent target.fileName) target mountpoint dir _)

theorem hardlink_ran (target keeper mountpoint dir : Path) (w : World) :
    Ran w (hardlink target keeper mountpoint dir w).2 :=
  evacuateThenPublish_ran (hardlinkBuild_builds keeper).ran target mountpoint dir w

theorem reflink_ran (target keeper mountpoint dir : Path) (w : World) :
    Ran w (reflink target keeper mountpoint dir w).2 := by
  have hread := (metaRead_looked target w).toRan
  unfold reflink
  split
  · rename_i h; rw [h] at hread; exact hread
  · rename_i carried w₁ h
    rw [h] at hread
    exact hread.trans
      (evacuateThenPublish_ran (cloneBuild_builds keeper carried).ran target mountpoint dir w₁)

/-! ## What the ledger may do -/

namespace RuntimeLedger

variable (ledger : RuntimeLedger) (object : Nat)

theorem quarantined_looked (source dest : Path) (w : World) :
    Looked w (ledger.quarantined object source dest w).2 := by
  have hlive := liveIdentity_looked dest w
  unfold quarantined
  split
  · exact Looked.refl w
  · split
    · rename_i h; rw [h] at hlive; exact hlive
    · rename_i h
      rw [h] at hlive
      split <;> exact hlive

theorem settled_looked (path : Path) (w : World) : Looked w (ledger.settled object path w).2 := by
  have hlive := liveIdentity_looked path w
  unfold settled
  split
  · exact Looked.refl w
  · split
    · rename_i h; rw [h] at hlive; exact hlive
    · rename_i h
      rw [h] at hlive
      split <;> exact hlive

theorem linked_looked (keeperPath published : Path) (w : World) :
    Looked w (ledger.linked object keeperPath published w).2 := by
  have hlive := liveIdentity_looked keeperPath w
  unfold linked
  split
  · exact Looked.refl w
  · split
    · rename_i h; rw [h] at hlive; exact hlive
    · rename_i w₁ h
      rw [h] at hlive
      have hlanded := hlive.trans (liveIdentity_looked published w₁)
      simp only
      split
      · exact hlive
      · split
        · rename_i h₂; rw [h₂] at hlanded; exact hlanded
        · rename_i h₂
          rw [h₂] at hlanded
          split <;> exact hlanded

theorem cloned_looked (target : Nat) (keeperPath published : Path) (w : World) :
    Looked w (ledger.cloned object target keeperPath published w).2 := by
  have hlive := liveIdentity_looked keeperPath w
  unfold cloned
  split
  · exact Looked.refl w
  · exact Looked.refl w
  · split
    · rename_i h; rw [h] at hlive; exact hlive
    · rename_i w₁ h
      rw [h] at hlive
      have hlanded := hlive.trans (liveIdentity_looked published w₁)
      split
      · exact hlive
      · split
        · rename_i h₂; rw [h₂] at hlanded; exact hlanded
        · rename_i h₂
          rw [h₂] at hlanded
          split <;> exact hlanded

end RuntimeLedger

namespace Batch

theorem linkTransition_looked (action : PlanAction) (linkage : Option Linkage)
    (ledger : RuntimeLedger) (w : World) :
    Looked w (linkTransition action linkage ledger w).2 := by
  unfold linkTransition
  split
  · exact Looked.refl w
  · exact ledger.linked_looked _ _ _ w
  · exact ledger.cloned_looked _ _ _ _ w

theorem targetSettle_looked (action : PlanAction) (published : Publication)
    (ledger : RuntimeLedger) (w : World) :
    Looked w (targetSettle action published ledger w).2 := by
  unfold targetSettle
  split
  · exact ledger.quarantined_looked _ _ _ w
  · exact ledger.settled_looked _ _ w

/-- What a batch is made with does not change while it runs. -/
structure Same (b b' : Batch) : Prop where
  plan : b'.plan = b.plan
  datasets : b'.datasets = b.datasets
  timestamp : b'.timestamp = b.timestamp
  reflinkSafe : b'.reflinkSafe = b.reflinkSafe
  mode : b'.mode = b.mode
  obstacles : b'.obstacles = b.obstacles
  guarded : b'.guarded = b.guarded

theorem Same.refl (b : Batch) : Same b b := ⟨rfl, rfl, rfl, rfl, rfl, rfl, rfl⟩

theorem Same.trans {b₁ b₂ b₃ : Batch} (h₁ : Same b₁ b₂) (h₂ : Same b₂ b₃) : Same b₁ b₃ :=
  ⟨h₂.plan.trans h₁.plan, h₂.datasets.trans h₁.datasets, h₂.timestamp.trans h₁.timestamp,
    h₂.reflinkSafe.trans h₁.reflinkSafe, h₂.mode.trans h₁.mode, h₂.obstacles.trans h₁.obstacles,
    h₂.guarded.trans h₁.guarded⟩

theorem noteQuarantine_same (dir : Path) (b : Batch) : Same b (b.noteQuarantine dir) := by
  unfold noteQuarantine
  split
  · exact Same.refl b
  · exact ⟨rfl, rfl, rfl, rfl, rfl, rfl, rfl⟩

/-- The ledger's part of an action reads files and changes nothing but the ledger. -/
structure Settles (action : PlanAction) (b : Batch) (w : World)
    (step : (ActionOutcome × ActionResult) × Batch × World) : Prop where
  same : Same b step.2.1
  looked : Looked w step.2.2
  target : step.1.1.target = action.target

theorem afterMove_settles (action : PlanAction) (moved : Path) (linkage : Option Linkage)
    (b : Batch) (w : World) : Settles action b w (b.afterMove action moved linkage w) := by
  have hmove := b.ledger.quarantined_looked action.targetObject action.target moved w
  unfold afterMove
  split
  · rename_i h
    rw [h] at hmove
    exact ⟨⟨rfl, rfl, rfl, rfl, rfl, rfl, rfl⟩, hmove, rfl⟩
  · rename_i ledger w₁ h
    rw [h] at hmove
    have hlink := hmove.trans (linkTransition_looked action linkage ledger w₁)
    split
    · rename_i h₂
      rw [h₂] at hlink
      exact ⟨⟨rfl, rfl, rfl, rfl, rfl, rfl, rfl⟩, hlink, rfl⟩
    · rename_i h₂
      rw [h₂] at hlink
      exact ⟨⟨rfl, rfl, rfl, rfl, rfl, rfl, rfl⟩, hlink, rfl⟩

theorem settleBoth_settles (action : PlanAction) (published : Publication) (b : Batch)
    (w : World) : Settles action b w (b.settleBoth action published w) := by
  have htarget := targetSettle_looked action published b.ledger w
  have hkeeper := (bookedIn (targetSettle action published b.ledger w).1 b.ledger).settled_looked
    action.keeperObject action.keeper (targetSettle action published b.ledger w).2
  exact ⟨⟨rfl, rfl, rfl, rfl, rfl, rfl, rfl⟩, htarget.trans hkeeper, rfl⟩

theorem Settles.of_same {action : PlanAction} {b₁ b₂ : Batch} {w : World}
    {step : (ActionOutcome × ActionResult) × Batch × World} (h : Same b₁ b₂)
    (hs : Settles action b₂ w step) : Settles action b₁ w step :=
  ⟨h.trans hs.same, hs.looked, hs.target⟩

theorem finishPublication_settles (action : PlanAction) (dir : Path) (published : Publication)
    (linkage : Linkage) (b : Batch) (w : World) :
    Settles action b w (b.finishPublication action dir published linkage w) := by
  unfold finishPublication
  split
  · exact (afterMove_settles _ _ _ _ w).of_same (noteQuarantine_same dir b)
  · exact (settleBoth_settles _ _ _ w).of_same (noteQuarantine_same dir b)
  · exact settleBoth_settles _ _ _ w

/-! ## One action -/

theorem hashFile_read (path : Path) (w : World) : Read w (hashFile path w).2 := by
  have hopen : Read w (w.openFile path).2 := (openFile_looked path w).toRead
  unfold hashFile
  split
  · rename_i h; rw [h] at hopen; exact hopen
  · rename_i h
    rw [h] at hopen
    split
    · exact hopen
    · exact hopen.trans (Read.of_eq rfl rfl rfl rfl rfl)

theorem verifyFile_read (path : Path) (size : Nat) (hash role : String)
    (mode : RevalidationMode) (verified : Verified) (w : World) :
    Read w (verifyFile path size hash role mode verified w).2.2 := by
  have hstat : Read w (w.lstat path).2 := (lstat_looked path w).toRead
  unfold verifyFile
  split
  · rename_i h; rw [h] at hstat; exact hstat
  rename_i w₁ h
  rw [h] at hstat
  split
  · exact hstat
  split
  · exact hstat
  split
  · exact hstat
  have hhash := hstat.trans (hashFile_read path w₁)
  split
  · rename_i h₂; rw [h₂] at hhash; exact hhash
  · rename_i h₂
    rw [h₂] at hhash
    split <;> exact hhash

theorem revalidate_read (action : PlanAction) (mode : RevalidationMode) (verified : Verified)
    (w : World) : Read w (revalidate action mode verified w).2.2 := by
  have htarget := verifyFile_read action.target action.size action.expectedHash "target" mode
    verified w
  unfold revalidate
  split
  · rename_i h; rw [h] at htarget; exact htarget
  · rename_i verified₁ w₁ h
    rw [h] at htarget
    exact htarget.trans (verifyFile_read _ _ _ _ _ verified₁ w₁)

theorem checkBoth_looked (action : PlanAction) (b : Batch) (w : World) :
    Looked w (b.checkBoth action w).2 := by
  have htarget := b.ledger.check_looked action.targetObject w
  unfold checkBoth
  split
  · rename_i h; rw [h] at htarget; exact htarget
  · rename_i w₁ h
    rw [h] at htarget
    exact htarget.trans (b.ledger.check_looked action.keeperObject w₁)

/-- An admitted action has no obstacle and a guarded place; the checks themselves change nothing. -/
theorem admission_spec (index : Nat) (action : PlanAction) (b : Batch) (w : World) :
    Same b (b.admission index action w).2.1 ∧ Read w (b.admission index action w).2.2 ∧
      (b.admission index action w).2.1.ledger = b.ledger ∧
      ∀ dataset, (b.admission index action w).1 = .ok dataset →
        (b.obstacles[index]?).join = none ∧ b.guardedPlace action = .ok dataset := by
  unfold admission
  split
  · exact ⟨Same.refl b, (Looked.refl w).toRead, rfl, nofun⟩
  rename_i hnone
  split
  · exact ⟨Same.refl b, (Looked.refl w).toRead, rfl, nofun⟩
  rename_i dataset hplace
  have hcheck := (checkBoth_looked action b w).toRead
  split
  · rename_i h; rw [h] at hcheck; exact ⟨Same.refl b, hcheck, rfl, nofun⟩
  rename_i w₁ h
  rw [h] at hcheck
  have hcontent := hcheck.trans (revalidate_read action b.mode b.verified w₁)
  split
  · rename_i h₂
    rw [h₂] at hcontent
    exact ⟨⟨rfl, rfl, rfl, rfl, rfl, rfl, rfl⟩, hcontent, rfl, nofun⟩
  · rename_i h₂
    rw [h₂] at hcontent
    refine ⟨⟨rfl, rfl, rfl, rfl, rfl, rfl, rfl⟩, hcontent, rfl, fun d hd => ?_⟩
    cases hd
    exact ⟨hnone, hplace⟩

theorem carryOut_ran (action : PlanAction) (dataset : Dataset) (b : Batch) (w : World) :
    Same b (b.carryOut action dataset w).2.1 ∧ Ran w (b.carryOut action dataset w).2.2 ∧
      (b.carryOut action dataset w).1.1.target = action.target := by
  unfold carryOut
  simp only
  split
  · -- delete
    have hmove := deleteToQuarantine_ran action.target dataset.mountpoint
      (quarantineDir dataset.mountpoint b.timestamp) w
    split
    · rename_i h; rw [h] at hmove; exact ⟨Same.refl b, hmove, rfl⟩
    · rename_i moved w₁ h
      rw [h] at hmove
      have hs := (afterMove_settles action moved none _ w₁).of_same
        (noteQuarantine_same (quarantineDir dataset.mountpoint b.timestamp) b)
      exact ⟨hs.same, hmove.trans hs.looked.toRan, hs.target⟩
  · -- hardlink
    have hlink := hardlink_ran action.target action.keeper dataset.mountpoint
      (quarantineDir dataset.mountpoint b.timestamp) w
    generalize hardlink action.target action.keeper dataset.mountpoint
      (quarantineDir dataset.mountpoint b.timestamp) w = step at hlink
    have hs := finishPublication_settles action (quarantineDir dataset.mountpoint b.timestamp)
      step.1 .hardlink b step.2
    exact ⟨hs.same, hlink.trans hs.looked.toRan, hs.target⟩
  · -- reflink
    have hlink := reflink_ran action.target action.keeper dataset.mountpoint
      (quarantineDir dataset.mountpoint b.timestamp) w
    generalize reflink action.target action.keeper dataset.mountpoint
      (quarantineDir dataset.mountpoint b.timestamp) w = step at hlink
    have hs := finishPublication_settles action (quarantineDir dataset.mountpoint b.timestamp)
      step.1 .reflink b step.2
    exact ⟨hs.same, hlink.trans hs.looked.toRan, hs.target⟩

/-- **One action** changes files only when it has no obstacle and a guarded place. -/
theorem applyOne_ran (index : Nat) (action : PlanAction) (b : Batch) (w : World) :
    Same b (b.applyOne index action w).2.1 ∧ Traced w (b.applyOne index action w).2.2 ∧
      (b.applyOne index action w).1.1.target = action.target ∧
      (Read w (b.applyOne index action w).2.2 ∨
        (b.obstacles[index]?).join = none ∧ ∃ dataset, b.guardedPlace action = .ok dataset) := by
  obtain ⟨hsame, hlooked, -, hok⟩ := admission_spec index action b w.pause
  have hstart := (pause_looked w).toRead.trans hlooked
  unfold applyOne
  split
  · rename_i h
    rw [h] at hsame hstart
    exact ⟨hsame, hstart.toTraced, rfl, .inl hstart⟩
  · rename_i dataset b₁ w₁ h
    rw [h] at hsame hstart hok
    obtain ⟨hcarry, hran, htarget⟩ := carryOut_ran action dataset b₁ w₁
    obtain ⟨hnone, hplace⟩ := hok dataset rfl
    exact ⟨hsame.trans hcarry, hstart.toTraced.trans hran.toTraced, htarget, .inr ⟨hnone, dataset, hplace⟩⟩

theorem Same.guardedPlace {b b' : Batch} (h : Same b b') (action : PlanAction) :
    b'.guardedPlace action = b.guardedPlace action := by
  unfold Batch.guardedPlace
  rw [h.plan, h.datasets, h.reflinkSafe, h.guarded]

/-! ## The loop -/

/-- One of the first `count` actions made the call, without an obstacle and with a guarded place. -/
def Reached (b : Batch) (phase : ApplyPhase) (index count : Nat) (actions : List PlanAction)
    (e : Event) : Prop :=
  ∃ i c, e = .call phase i c ∧ (c.mutates = true → index ≤ i ∧ i < index + count ∧
    ∃ action dataset, actions[i - index]? = some action ∧ (b.obstacles[i]?).join = none ∧
      b.guardedPlace action = .ok dataset)

/-- The batch and the world behind the first `n` actions, were none of them cancelled. -/
def upTo : Nat → Nat → List PlanAction → Batch → World → Batch × World
  | 0, _, _, b, w => (b, w)
  | _ + 1, _, [], b, w => (b, w)
  | n + 1, index, action :: actions, b, w =>
    match b.applyOne index action { w with index := index } with
    | (_, b, w) => upTo n (index + 1) actions b w

/-- The cancellation is seen here. -/
def Cancelled (s : Batch × World) : Prop := s.2.outside.cancelled s.2.tick = true

/-- What a run of the loop leaves: its calls, its outcomes and the batch itself. -/
structure Applied (index : Nat) (actions : List PlanAction) (b : Batch) (w : World)
    (run : (List (ActionOutcome × ActionResult) × Bool) × Batch × World) : Prop where
  same : Same b run.2.1
  log : ∃ new, run.2.2.log = w.log ++ new ∧
    ∀ e ∈ new, Reached b w.phase index run.1.1.length actions e
  targets : run.1.1.map (fun d => d.1.target) =
    (actions.take run.1.1.length).map PlanAction.target
  attempts : ∀ i done, run.1.1[i]? = some done → ∃ action, actions[i]? = some action ∧
    ¬Cancelled (upTo i index actions b w) ∧
    done = ((upTo i index actions b w).1.applyOne (index + i) action
      { (upTo i index actions b w).2 with index := index + i }).1
  behind : run.2 = upTo run.1.1.length index actions b w
  finished : run.1.2 = false → run.1.1.length = actions.length
  stopped : run.1.2 = true →
    run.1.1.length < actions.length ∧ Cancelled (upTo run.1.1.length index actions b w)

theorem Applied.reached {index : Nat} {actions : List PlanAction} {b : Batch} {w : World}
    {run : (List (ActionOutcome × ActionResult) × Bool) × Batch × World}
    (h : Applied index actions b w run) : run.1.1.length ≤ actions.length := by
  cases hc : run.1.2 with
  | false => exact (h.finished hc).le
  | true => exact (h.stopped hc).1.le

theorem Reached.tail {b b₁ : Batch} (h : Same b b₁) {phase : ApplyPhase} {index count : Nat}
    {action : PlanAction} {actions : List PlanAction} {e : Event}
    (he : Reached b₁ phase (index + 1) count actions e) :
    Reached b phase index (count + 1) (action :: actions) e := by
  obtain ⟨i, c, rfl, hc⟩ := he
  refine ⟨i, c, rfl, fun hm => ?_⟩
  obtain ⟨hi, hcount, a, dataset, ha, hnone, hplace⟩ := hc hm
  refine ⟨by omega, by omega, a, dataset, ?_, by rw [← h.obstacles]; exact hnone,
    by rw [← h.guardedPlace]; exact hplace⟩
  rw [show i - index = (i - (index + 1)) + 1 by omega, List.getElem?_cons_succ]
  exact ha

/-- The loop, one action at a time. -/
theorem applyAll_spec : ∀ (index : Nat) (actions : List PlanAction) (b : Batch) (w : World),
    Applied index actions b w (applyAll index actions b w)
  | _, [], b, w =>
    { same := Same.refl b
      log := ⟨[], (List.append_nil _).symm, by simp⟩
      targets := rfl
      attempts := by simp [applyAll]
      behind := rfl
      finished := fun _ => rfl
      stopped := nofun }
  | index, action :: actions, b, w => by
    unfold applyAll
    by_cases hcancel : w.outside.cancelled w.tick = true
    · rw [if_pos hcancel]
      exact
        { same := Same.refl b
          log := ⟨[], (List.append_nil _).symm, by simp⟩
          targets := rfl
          attempts := by simp
          behind := rfl
          finished := nofun
          stopped := fun _ => ⟨Nat.zero_lt_succ _, hcancel⟩ }
    rw [if_neg hcancel]
    obtain ⟨hsame, hran, htarget, hcases⟩ := applyOne_ran index action b { w with index := index }
    -- behind the first action the run goes on from where that action left the batch
    have hbehind : ∀ n, upTo (n + 1) index (action :: actions) b w =
        upTo n (index + 1) actions (b.applyOne index action { w with index := index }).2.1
          (b.applyOne index action { w with index := index }).2.2 := fun _ => rfl
    have hfirst : (b.applyOne index action { w with index := index }).1 =
        ((upTo 0 index (action :: actions) b w).1.applyOne (index + 0) action
          { (upTo 0 index (action :: actions) b w).2 with index := index + 0 }).1 := rfl
    revert hbehind hfirst
    generalize hstep : b.applyOne index action { w with index := index } = step
    intro hbehind hfirst
    rw [hstep] at hsame hran htarget hcases
    obtain ⟨done, b₁, w₁⟩ := step
    have hrest := applyAll_spec (index + 1) actions b₁ w₁
    simp only at hbehind hfirst ⊢
    generalize applyAll (index + 1) actions b₁ w₁ = run at hrest
    obtain ⟨⟨rest, cancelled⟩, b₂, w₂⟩ := run
    obtain ⟨new, hnew, hreached⟩ := hrest.log
    have hone : ∃ calls : List Syscall, w₁.log = w.log ++ calls.map (.call w.phase index) ∧
        ∀ c ∈ calls, Reached b w.phase index (rest.length + 1) (action :: actions)
          (.call w.phase index c) := by
      rcases hcases with hlooked | ⟨hnone, dataset, hplace⟩
      · obtain ⟨calls, hquiet, hlog⟩ := hlooked.quiet
        refine ⟨calls, hlog, fun c hc => ⟨index, c, rfl, fun hm => ?_⟩⟩
        rw [hquiet c hc] at hm; cases hm
      · obtain ⟨calls, hlog⟩ := hran.log
        refine ⟨calls, hlog, fun c _ => ⟨index, c, rfl, fun _ => ⟨le_rfl, by omega, action, dataset,
          ?_, hnone, hplace⟩⟩⟩
        rw [Nat.sub_self, List.getElem?_cons_zero]
    obtain ⟨calls, hcalls, hown⟩ := hone
    refine
      { same := hsame.trans hrest.same
        log := ⟨calls.map (.call w.phase index) ++ new, ?_, fun e he => ?_⟩
        targets := ?_
        attempts := fun i d hd => ?_
        behind := hrest.behind.trans (hbehind _).symm
        finished := fun hc => ?_
        stopped := fun hc => ?_ }
    · show w₂.log = _
      rw [hnew, hcalls, List.append_assoc]
    · rcases List.mem_append.1 he with he | he
      · obtain ⟨c, hc, rfl⟩ := List.mem_map.1 he
        exact hown c hc
      · have := hreached e he
        rw [hran.phase] at this
        exact this.tail hsame
    · simp only [List.map_cons, List.length_cons, List.take_succ_cons]
      rw [hrest.targets, htarget]
    · cases i with
      | zero => exact ⟨action, rfl, hcancel, (Option.some.inj hd).symm.trans hfirst⟩
      | succ i =>
        obtain ⟨a, ha, hgoing, hdone⟩ := hrest.attempts i d hd
        rw [hbehind, show index + (i + 1) = index + 1 + i by omega]
        exact ⟨a, ha, hgoing, hdone⟩
    · simp only [List.length_cons]
      rw [hrest.finished hc]
    · obtain ⟨hlt, hseen⟩ := hrest.stopped hc
      exact ⟨Nat.succ_lt_succ hlt, (hbehind _).symm ▸ hseen⟩

end Batch

/-! ## The snapshots -/

def Event.mutates : Event → Bool
  | .call _ _ c => c.mutates
  | _ => false

theorem World.Looked.log_quiet {w w' : World} (h : Looked w w') :
    ∃ new, w'.log = w.log ++ new ∧ ∀ e ∈ new, ∃ phase index c, e = .call phase index c ∧
      c.mutates = false := by
  obtain ⟨calls, hquiet, hlog⟩ := h.quiet
  refine ⟨_, hlog, fun e he => ?_⟩
  obtain ⟨c, hc, rfl⟩ := List.mem_map.1 he
  exact ⟨_, _, c, rfl, hquiet c hc⟩

/-- The snapshot loop leaves one entry per snapshot: a success for every dataset, or a failure. -/
theorem takeSnapshots_spec (suffix : Name) : ∀ (datasets : List Dataset) (made : List String)
    (w : World), ∃ new, (takeSnapshots suffix datasets made w).2.log = w.log ++ new ∧
      (∀ e ∈ new, ∃ d ok, e = .snapshot d ok) ∧
      (∀ names, (takeSnapshots suffix datasets made w).1 = .ok names →
        new = datasets.map fun d => .snapshot d.name true) ∧
      (∀ e, (takeSnapshots suffix datasets made w).1 = .error e → ∃ d, .snapshot d false ∈ new)
  | [], _, _ => ⟨[], (List.append_nil _).symm, by simp, fun _ _ => rfl, nofun⟩
  | dataset :: datasets, made, w => by
    unfold takeSnapshots World.createSnapshot
    cases hmade : w.outside.snapshot w.tick dataset.name suffix with
    | error e =>
      exact ⟨[.snapshot dataset.name false], rfl, by simp, nofun,
        fun _ _ => ⟨dataset.name, List.mem_singleton_self _⟩⟩
    | ok name =>
      obtain ⟨new, hlog, hall, hok, herr⟩ := takeSnapshots_spec suffix datasets (made ++ [name])
        (w.pause.note (.snapshot dataset.name true))
      refine ⟨.snapshot dataset.name true :: new, ?_, ?_, fun names h => ?_, fun e h => ?_⟩
      · show (takeSnapshots suffix datasets (made ++ [name])
          (w.pause.note (.snapshot dataset.name true))).2.log = _
        rw [hlog]
        simp [World.note, World.pause]
      · simpa using hall
      · rw [hok names h, List.map_cons]
      · obtain ⟨d, hd⟩ := herr e h
        exact ⟨d, List.mem_cons_of_mem _ hd⟩

theorem preflightMembers_looked (object : PlannedObject) :
    ∀ (paths : List Path) (identity : Option LiveIdentity) (w : World),
      Looked w (preflightMembers object identity paths w).2
  | [], _, w => Looked.refl w
  | path :: paths, _, w => by
    have hlive := liveIdentity_looked path w
    unfold preflightMembers
    split
    · rename_i h; rw [h] at hlive; exact hlive
    · rename_i w₁ h
      rw [h] at hlive
      split
      · exact hlive
      · exact hlive.trans (preflightMembers_looked object paths _ w₁)

theorem preflightObjects_looked : ∀ (objects : List PlannedObject) (w : World),
    Looked w (preflightObjects objects w).2
  | [], w => Looked.refl w
  | object :: objects, w => by
    have hone := preflightMembers_looked object object.members none w
    unfold preflightObjects
    split
    · rename_i h; rw [h] at hone; exact hone
    · rename_i h; rw [h] at hone; exact hone
    · rename_i w₁ h
      rw [h] at hone
      have hrest := hone.trans (preflightObjects_looked objects w₁)
      split
      · exact hone
      · split
        · rename_i h₂; rw [h₂] at hrest; exact hrest
        · rename_i h₂; rw [h₂] at hrest; exact hrest

theorem ActionPlan.preflight_looked (plan : ActionPlan) (w : World) :
    Looked w (plan.preflight w).2 := by
  have hobjects := preflightObjects_looked plan.objects w
  unfold preflight
  split
  · rename_i h; rw [h] at hobjects; exact hobjects
  · rename_i h
    rw [h] at hobjects
    split <;> exact hobjects

/-! ## The whole batch -/

/-- The obstacle of an action, as the batch goes by it: none means that the action may run. -/
theorem ActionPlan.standing_none {plan : ActionPlan} {found : List (Option String)} {index : Nat}
    (h : (plan.standing found)[index]? = some none) : plan.isSetAside index = false := by
  unfold standing at h
  rw [List.getElem?_map, Option.map_eq_some_iff] at h
  obtain ⟨⟨f, i⟩, hf, hnone⟩ := h
  obtain ⟨-, hi⟩ := List.mem_zipIdx' (List.mem_of_getElem? hf)
  rw [List.getElem?_zipIdx, Option.map_eq_some_iff] at hf
  obtain ⟨x, -, hx⟩ := hf
  cases hx
  simp only [Nat.zero_add, Option.or_eq_none_iff] at hnone
  by_contra hside
  rw [Bool.not_eq_false] at hside
  rw [hside] at hnone
  exact absurd hnone.2 (by simp)

/-- Where the obstacles are read: behind the first preflight. -/
def ActionPlan.readAt (plan : ActionPlan) (w : World) : World :=
  (plan.preflight (w.snapshotSuffix.2.setPhase .snapshots)).2.note (.preflight true)

/-- The batch and the world that the loop begins with, where the snapshots and the second preflight
    let it begin. -/
def snapshotStart (plan : ActionPlan) (datasets : List Dataset) (reflinkSafe : Bool)
    (mode : RevalidationMode) (timestamp : Name) (obstacles : List (Option String)) (w : World) :
    Option (Batch × World) :=
  match takeSnapshots timestamp (affectedDatasets plan datasets obstacles) [] w with
  | (.error _, _) => none
  | (.ok _, w) =>
    match plan.preflight w.pause with
    | (.error _, _) => none
    | (.ok live, w) =>
      some ({ plan := plan, datasets := datasets, timestamp := timestamp, reflinkSafe := reflinkSafe
              mode := mode, obstacles := obstacles
              guarded := (affectedDatasets plan datasets obstacles).map Dataset.name
              verified := [], quarantineDirs := [], ledger := live },
        (w.note (.preflight true)).setPhase .applying)

/-- The batch and the world that the loop begins with: none where the first preflight refuses,
    where nothing can run, and as in `snapshotStart`. -/
def loopStart (plan : ActionPlan) (datasets : List Dataset) (reflinkSafe : Bool)
    (mode : RevalidationMode) (w : World) : Option (Batch × World) :=
  match (plan.preflight (w.snapshotSuffix.2.setPhase .snapshots)).1 with
  | .error _ => none
  | .ok _ =>
    match obstacles plan datasets reflinkSafe (plan.readAt w) with
    | (found, w₁) =>
      match nothingCanRun plan (plan.standing found) with
      | some _ => none
      | none =>
        snapshotStart plan datasets reflinkSafe mode w.snapshotSuffix.1 (plan.standing found) w₁

/-- The loop from where it begins: an attempt for each action, up to the first boundary at which the
    cancellation is seen. -/
structure Attempted (start : Batch × World) (batch : BatchResult) (after : World) : Prop where
  each : ∀ i < batch.outcomes.length, ∃ action, start.1.plan.actions[i]? = some action ∧
    ¬Batch.Cancelled (Batch.upTo i 0 start.1.plan.actions start.1 start.2) ∧
    batch.outcomes[i]? =
      some ((Batch.upTo i 0 start.1.plan.actions start.1 start.2).1.applyOne i action
        { (Batch.upTo i 0 start.1.plan.actions start.1 start.2).2 with index := i }).1.1
  finished : batch.cancelled = false → batch.outcomes.length = start.1.plan.actions.length
  stopped : batch.cancelled = true → batch.outcomes.length < start.1.plan.actions.length ∧
    Batch.Cancelled
      (Batch.upTo batch.outcomes.length 0 start.1.plan.actions start.1 start.2)
  log : after.log =
    (Batch.upTo batch.outcomes.length 0 start.1.plan.actions start.1 start.2).2.log

/-- What a batch does with the log's new entries and its result, under the obstacles it found and
    the start of its loop. -/
structure BatchInsured (plan : ActionPlan) (datasets : List Dataset)
    (standing : List (Option String)) (start : Option (Batch × World)) (new : List Event)
    (run : Except AppError Begun × World) : Prop where
  insured : ∀ pre e post, new = pre ++ e :: post → e.mutates = true →
    ∃ index c action dataset, e = .call .applying index c ∧ plan.actions[index]? = some action ∧
      standing[index]? = some none ∧ plan.isSetAside index = false ∧
      datasetByDevice datasets (plan.targetDevice action) = some dataset ∧
      .snapshot dataset.name true ∈ pre ∧
      ∀ batch, run.1 = .ok (.ran batch) → index < batch.outcomes.length
  aborted : (.preflight false ∈ new ∨ ∃ d, .snapshot d false ∈ new) →
    (∀ e ∈ new, e.mutates = false) ∧ ∀ batch, run.1 = .ok (.ran batch) → batch.outcomes = []
  unstarted : start = none →
    (∀ e ∈ new, e.mutates = false) ∧ ∀ batch, run.1 = .ok (.ran batch) → batch.outcomes = []
  settlement : ∀ batch, run.1 = .ok (.ran batch) → ∃ ran,
    batch.settlement = plan.settleMarks ran ∧
    ∀ i, ran.getD i false = true ↔ i < batch.outcomes.length ∧ standing[i]? = some none
  reached : ∀ batch, run.1 = .ok (.ran batch) →
    batch.outcomes.map ActionOutcome.target =
      (plan.actions.take batch.outcomes.length).map PlanAction.target ∧
    (batch.aborted = none → ∃ s, start = some s ∧ s.1.plan = plan ∧ Attempted s batch run.2)

/-- A batch that ends before its loop. -/
theorem BatchInsured.early {plan : ActionPlan} {datasets : List Dataset}
    {standing : List (Option String)} {start : Option (Batch × World)} {new : List Event}
    {run : Except AppError Begun × World} (hquiet : ∀ e ∈ new, e.mutates = false)
    (hresult : ∀ batch, run.1 = .ok (.ran batch) → batch.outcomes = [] ∧
      batch.settlement = plan.settleMarks [] ∧ batch.aborted ≠ none) :
    BatchInsured plan datasets standing start new run := by
  have hnone : (∀ e ∈ new, e.mutates = false) ∧
      ∀ batch, run.1 = .ok (.ran batch) → batch.outcomes = [] :=
    ⟨hquiet, fun batch h => (hresult batch h).1⟩
  refine ⟨fun pre e post hnew hm => ?_, fun _ => hnone, fun _ => hnone,
    fun batch h => ⟨[], (hresult batch h).2.1, ?_⟩, fun batch h => ?_⟩
  · rw [hquiet e (by rw [hnew]; simp)] at hm; cases hm
  · simp [(hresult batch h).1]
  · obtain ⟨hnil, -, haborted⟩ := hresult batch h
    rw [hnil]
    exact ⟨rfl, fun hnone => absurd hnone haborted⟩

theorem abortedBatch_ok {plan : ActionPlan} {snapshots : List String} {detail : String}
    {batch : BatchResult} (h : abortedBatch plan snapshots detail = .ok (.ran batch)) :
    batch.outcomes = [] ∧ batch.settlement = plan.settleMarks [] ∧ batch.aborted ≠ none := by
  unfold abortedBatch at h
  split at h
  · cases h
  · cases h
    exact ⟨rfl, rfl, nofun⟩

theorem ranOf_getD {plan : ActionPlan} {reached : Nat} {obstacles : List (Option String)} {i : Nat} :
    (ranOf plan reached obstacles).getD i false = true ↔
      i < plan.actions.length ∧ i < reached ∧ (obstacles[i]?).join = none := by
  unfold ranOf
  by_cases hi : i < plan.actions.length
  · simp [List.getD_eq_getElem?_getD, hi]
  · simp [List.getD_eq_getElem?_getD, hi]

/-- A call that can change a file stands behind every event that changes none. -/
theorem prefix_of_mutates {before new pre post : List Event} {e : Event}
    (hquiet : ∀ x ∈ before, x.mutates = false) (hsplit : before ++ new = pre ++ e :: post)
    (hm : e.mutates = true) : before <+: pre := by
  rcases List.append_eq_append_iff.1 hsplit with ⟨rest, rfl, -⟩ | ⟨rest, rfl, hrest⟩
  · exact List.prefix_append before rest
  · cases rest with
    | nil => simp
    | cons x rest =>
      obtain ⟨rfl, -⟩ := List.cons.inj hrest
      have he := hquiet e (by simp)
      rw [hm] at he
      cases he

/-- **The loop behind its snapshots**: what was logged before it is quiet and holds a snapshot of
    every guarded dataset. -/
theorem applyStage_insured (b : Batch) (snapshots : List String) (w : World) {before : List Event}
    {found : List (Option String)} (hobstacles : b.obstacles = b.plan.standing found)
    (hlength : b.obstacles.length = b.plan.actions.length)
    (hquiet : ∀ e ∈ before, e.mutates = false)
    (hpassed : .preflight false ∉ before ∧ ∀ d, .snapshot d false ∉ before)
    (hguarded : ∀ name ∈ b.guarded, .snapshot name true ∈ before) :
    ∃ new, (applyStage b snapshots w).2.log = w.log ++ new ∧
      BatchInsured b.plan b.datasets b.obstacles (some (b, w.setPhase .applying)) (before ++ new)
        (applyStage b snapshots w) := by
  have hspec := b.applyAll_spec 0 b.plan.actions (w.setPhase .applying)
  have hle := hspec.reached
  unfold applyStage
  generalize b.applyAll 0 b.plan.actions (w.setPhase .applying) = run at hspec hle
  obtain ⟨⟨done, cancelled⟩, after, w₁⟩ := run
  obtain ⟨hsame, ⟨new, hlog, hreached⟩, htargets, hattempts, hbehind, hfinished, hstopped⟩ := hspec
  simp only [Nat.zero_add] at hlog hsame htargets hattempts hbehind hfinished hstopped hreached hle
  have hjoin : ∀ i, (b.obstacles[i]?).join = none → i < b.plan.actions.length →
      b.obstacles[i]? = some none := by
    intro i hi hlt
    rw [← hlength] at hlt
    rw [List.getElem?_eq_getElem hlt] at hi ⊢
    exact congrArg some hi
  have hcalls : ∀ e ∈ new, ∃ index c, e = .call .applying index c ∧ (c.mutates = true →
      index < done.length ∧ ∃ action dataset, b.plan.actions[index]? = some action ∧
        b.obstacles[index]? = some none ∧ b.guardedPlace action = .ok dataset) := by
    intro e he
    obtain ⟨index, c, rfl, hc⟩ := hreached e he
    refine ⟨index, c, rfl, fun hm => ?_⟩
    obtain ⟨-, hcount, action, dataset, haction, hnone, hplace⟩ := hc hm
    rw [Nat.zero_add] at hcount
    rw [Nat.sub_zero] at haction
    exact ⟨hcount, action, dataset, haction,
      hjoin index hnone (List.getElem?_eq_some_iff.1 haction).1, hplace⟩
  refine ⟨new, ?_, ?_, ?_, nofun, ?_, ?_⟩
  · simp only
    split <;> exact hlog
  · intro pre e post hsplit hm
    have he : e ∈ before ++ new := by rw [hsplit]; simp
    rcases List.mem_append.1 he with hb | hn
    · rw [hquiet e hb] at hm; cases hm
    · obtain ⟨index, c, rfl, hc⟩ := hcalls e hn
      obtain ⟨hcount, action, dataset, haction, hnone, hplace⟩ := hc hm
      unfold Batch.guardedPlace at hplace
      split at hplace
      · cases hplace
      rename_i found' hfound'
      split at hplace
      swap
      · cases hplace
      rename_i hmem
      cases hplace
      refine ⟨index, c, action, dataset, rfl, haction, hnone, ?_, (place_ok hfound').1, ?_,
        fun batch hbatch => ?_⟩
      · rw [hobstacles] at hnone
        exact ActionPlan.standing_none hnone
      · exact (prefix_of_mutates hquiet hsplit hm).subset (hguarded _ hmem)
      · simp only at hbatch
        split at hbatch
        · cases hbatch
        · cases hbatch
          rw [List.length_map]
          exact hcount
  · rintro (hfalse | ⟨d, hfalse⟩)
    · rcases List.mem_append.1 hfalse with h | h
      · exact absurd h hpassed.1
      · obtain ⟨_, _, h, -⟩ := hcalls _ h; cases h
    · rcases List.mem_append.1 hfalse with h | h
      · exact absurd h (hpassed.2 d)
      · obtain ⟨_, _, h, -⟩ := hcalls _ h; cases h
  · intro batch hbatch
    simp only at hbatch
    split at hbatch
    · cases hbatch
    · cases hbatch
      refine ⟨_, rfl, fun i => ?_⟩
      rw [ranOf_getD, hsame.obstacles]
      simp only [List.length_map]
      refine ⟨fun ⟨hi, hlt, hnone⟩ => ⟨hlt, hjoin i hnone hi⟩, fun ⟨hlt, hnone⟩ => ?_⟩
      exact ⟨lt_of_lt_of_le hlt hle, hlt, by rw [hnone]; rfl⟩
  · intro batch hbatch
    simp only at hbatch
    split at hbatch
    · cases hbatch
    · cases hbatch
      simp only [List.length_map, List.map_map]
      refine ⟨htargets, fun _ => ⟨_, rfl, rfl, ?_⟩⟩
      refine ⟨fun i hi => ?_, fun hc => ?_, fun hc => ?_, ?_⟩
      · simp only [List.length_map] at hi
        obtain ⟨action, haction, hgoing, hdone⟩ := hattempts i _ (List.getElem?_eq_getElem hi)
        refine ⟨action, haction, hgoing, ?_⟩
        rw [List.getElem?_map, List.getElem?_eq_getElem hi, hdone]
        simp
      · simpa using hfinished hc
      · simpa using hstopped hc
      · simp only [List.length_map, ← hbehind]
        split <;> rfl

theorem snapshotStage_insured {plan : ActionPlan} (datasets : List Dataset) (reflinkSafe : Bool)
    (mode : RevalidationMode) (timestamp : Name) {found : List (Option String)}
    (hlength : (plan.standing found).length = plan.actions.length) {before : List Event}
    (hquiet : ∀ e ∈ before, e.mutates = false)
    (hpassed : .preflight false ∉ before ∧ ∀ d, .snapshot d false ∉ before) (w : World) :
    ∃ new, (snapshotStage plan datasets reflinkSafe mode timestamp (plan.standing found) w).2.log =
        w.log ++ new ∧
      BatchInsured plan datasets (plan.standing found)
        (snapshotStart plan datasets reflinkSafe mode timestamp (plan.standing found) w)
        (before ++ new)
        (snapshotStage plan datasets reflinkSafe mode timestamp (plan.standing found) w) := by
  obtain ⟨snaps, hsnaps, hall, hok, -⟩ := takeSnapshots_spec timestamp
    (affectedDatasets plan datasets (plan.standing found)) [] w
  have hquietSnaps : ∀ e ∈ snaps, e.mutates = false := by
    intro e he
    obtain ⟨d, ok, rfl⟩ := hall e he
    rfl
  have hearly : ∀ {new : List Event}, (∀ e ∈ new, e.mutates = false) →
      ∀ e ∈ before ++ new, e.mutates = false := by
    intro new hnew e he
    rcases List.mem_append.1 he with he | he
    · exact hquiet e he
    · exact hnew e he
  unfold snapshotStage snapshotStart
  simp only
  generalize takeSnapshots timestamp (affectedDatasets plan datasets (plan.standing found)) [] w =
    step at hsnaps hok
  obtain ⟨result, w₁⟩ := step
  simp only at hsnaps hok
  rcases result with ⟨detail, made⟩ | made
  · -- a snapshot failed
    simp only
    split
    · exact ⟨snaps, hsnaps, .early (hearly hquietSnaps) fun _ h => by cases h⟩
    · exact ⟨snaps, hsnaps, .early (hearly hquietSnaps) fun batch h => abortedBatch_ok h⟩
  · have hsnapsEq := hok made rfl
    obtain ⟨looked, hlooked, hcalls⟩ :=
      ((pause_looked w₁).trans (plan.preflight_looked w₁.pause)).log_quiet
    have hquietLooked : ∀ e ∈ looked, e.mutates = false := by
      intro e he
      obtain ⟨phase, index, c, rfl, hc⟩ := hcalls e he
      exact hc
    simp only
    generalize plan.preflight w₁.pause = step at hlooked
    obtain ⟨result, w₂⟩ := step
    simp only at hlooked
    cases result with
    | error e =>
      -- the second preflight refused
      refine ⟨snaps ++ looked ++ [.preflight false], ?_, .early (hearly fun e he => ?_)
        fun batch h => abortedBatch_ok h⟩
      · simp only [World.note]
        rw [hlooked, hsnaps]
        simp
      · simp only [List.mem_append, List.mem_singleton] at he
        rcases he with (he | he) | rfl
        · exact hquietSnaps e he
        · exact hquietLooked e he
        · rfl
    | ok live =>
      simp only
      have hbefore : ∀ e ∈ before ++ (snaps ++ looked ++ [.preflight true]),
          e.mutates = false := by
        refine hearly fun e he => ?_
        simp only [List.mem_append, List.mem_singleton] at he
        rcases he with (he | he) | rfl
        · exact hquietSnaps e he
        · exact hquietLooked e he
        · rfl
      have hplain : ∀ e ∈ before ++ (snaps ++ looked ++ [.preflight true]),
          e ≠ .preflight false ∧ ∀ d, e ≠ .snapshot d false := by
        intro e he
        simp only [List.mem_append, List.mem_singleton] at he
        rcases he with he | (he | he) | rfl
        · exact ⟨fun h => hpassed.1 (h ▸ he), fun d h => hpassed.2 d (h ▸ he)⟩
        · rw [hsnapsEq] at he
          obtain ⟨x, -, rfl⟩ := List.mem_map.1 he
          exact ⟨by simp, fun d h => by cases h⟩
        · obtain ⟨_, _, _, rfl, -⟩ := hcalls e he
          exact ⟨by simp, by simp⟩
        · exact ⟨by simp, by simp⟩
      have hguarded : ∀ name ∈ (affectedDatasets plan datasets (plan.standing found)).map
          Dataset.name, .snapshot name true ∈ before ++ (snaps ++ looked ++ [.preflight true]) := by
        intro name hname
        obtain ⟨dataset, hd, rfl⟩ := List.mem_map.1 hname
        have : .snapshot dataset.name true ∈ snaps := by
          rw [hsnapsEq]
          exact List.mem_map.2 ⟨dataset, hd, rfl⟩
        simp [this]
      obtain ⟨new, hnew, hinsured⟩ := applyStage_insured
        ⟨plan, datasets, timestamp, reflinkSafe, mode, plan.standing found,
          (affectedDatasets plan datasets (plan.standing found)).map Dataset.name, [], [], live⟩
        made (w₂.note (.preflight true)) rfl hlength hbefore
        ⟨fun h => (hplain _ h).1 rfl, fun d h => (hplain _ h).2 d rfl⟩ hguarded
      refine ⟨snaps ++ looked ++ [.preflight true] ++ new, ?_, ?_⟩
      · rw [hnew]
        simp only [World.note]
        rw [hlooked, hsnaps]
        simp
      · rw [← List.append_assoc]
        exact hinsured

/-- **No change without a snapshot**: whatever the plan, the datasets, the pool and the other
    processes do. -/
theorem runBatch_insured (plan : ActionPlan) (datasets : List Dataset) (reflinkSafe : Bool)
    (mode : RevalidationMode) (w : World) :
    ∃ new, (runBatch plan datasets reflinkSafe mode w).2.log = w.log ++ new ∧
      BatchInsured plan datasets
        (plan.standing (obstacles plan datasets reflinkSafe (plan.readAt w)).1)
        (loopStart plan datasets reflinkSafe mode w) new
        (runBatch plan datasets reflinkSafe mode w) := by
  unfold runBatch loopStart ActionPlan.readAt
  have hstart : Looked w w.snapshotSuffix.2 := ⟨Read.of_eq rfl rfl rfl rfl rfl, rfl⟩
  generalize w.snapshotSuffix = step at hstart
  obtain ⟨timestamp, w₀⟩ := step
  obtain ⟨nothing, hnothing, hcalls₀⟩ := hstart.log_quiet
  obtain ⟨first, hfirst, hcalls₁⟩ := (plan.preflight_looked (w₀.setPhase .snapshots)).log_quiet
  simp only
  generalize plan.preflight (w₀.setPhase .snapshots) = step at hfirst
  obtain ⟨result, w₁⟩ := step
  simp only at hfirst
  have hfirst' : w₁.log = w.log ++ (nothing ++ first) := by
    rw [hfirst, ← List.append_assoc, ← hnothing]; rfl
  have hquiet₁ : ∀ e ∈ nothing ++ first, ∃ phase index c, e = .call phase index c ∧
      c.mutates = false := by
    intro e he
    rcases List.mem_append.1 he with he | he
    · exact hcalls₀ e he
    · exact hcalls₁ e he
  cases result with
  | error e =>
    -- the first preflight refused
    refine ⟨nothing ++ first ++ [.preflight false], ?_, .early (fun e he => ?_) fun batch h => by cases h⟩
    · simp only [World.note]
      rw [hfirst', List.append_assoc]
    · rcases List.mem_append.1 he with he | he
      · obtain ⟨_, _, _, rfl, hc⟩ := hquiet₁ e he
        exact hc
      · rw [List.mem_singleton.1 he]; rfl
  | ok live =>
    simp only
    have hpass := obstaclesFrom_spec plan datasets reflinkSafe plan.actions .new
      (w₁.note (.preflight true))
    obtain ⟨hlength, hlooked⟩ := hpass
    obtain ⟨pass, hpass, hcalls₂⟩ := hlooked.log_quiet
    have hlog : (obstacles plan datasets reflinkSafe (w₁.note (.preflight true))).2.log =
        w.log ++ (nothing ++ first ++ .preflight true :: pass) := by
      unfold obstacles
      rw [hpass]
      simp only [World.note]
      rw [hfirst']
      simp
    have hbefore : ∀ e ∈ nothing ++ first ++ .preflight true :: pass, e.mutates = false := by
      intro e he
      rcases List.mem_append.1 he with he | he
      · obtain ⟨_, _, _, rfl, hc⟩ := hquiet₁ e he
        exact hc
      · rcases List.mem_cons.1 he with rfl | he
        · rfl
        · obtain ⟨_, _, _, rfl, hc⟩ := hcalls₂ e he
          exact hc
    have hplain : ∀ e ∈ nothing ++ first ++ .preflight true :: pass, e ≠ .preflight false ∧
        ∀ d, e ≠ .snapshot d false := by
      intro e he
      rcases List.mem_append.1 he with he | he
      · obtain ⟨_, _, _, rfl, -⟩ := hquiet₁ e he
        exact ⟨by simp, by simp⟩
      · rcases List.mem_cons.1 he with rfl | he
        · exact ⟨by simp, by simp⟩
        · obtain ⟨_, _, _, rfl, -⟩ := hcalls₂ e he
          exact ⟨by simp, by simp⟩
    generalize hfound : obstacles plan datasets reflinkSafe (w₁.note (.preflight true)) = step
      at hlog
    obtain ⟨found, w₂⟩ := step
    have hfound' : (obstacles plan datasets reflinkSafe (w₁.note (.preflight true))).1 = found := by
      rw [hfound]
    have hfoundLength : (plan.standing found).length = plan.actions.length := by
      rw [← hlength, ← hfound']
      simp [ActionPlan.standing, obstacles]
    simp only at hlog ⊢
    cases nothingCanRun plan (plan.standing found) with
    | some refusal => exact ⟨_, hlog, .early hbefore fun batch h => by cases h⟩
    | none =>
      obtain ⟨new, hnew, hinsured⟩ := snapshotStage_insured datasets reflinkSafe mode timestamp
        hfoundLength hbefore
        ⟨fun h => (hplain _ h).1 rfl, fun d h => (hplain _ h).2 d rfl⟩ w₂
      refine ⟨_, ?_, hinsured⟩
      rw [hnew, hlog, List.append_assoc]

end DedupCommando
