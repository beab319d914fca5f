import DedupCommando.Model.PlanObjects

/-!
# What a batch achieves, and what was promised for it

* `ActionPlan.runnableSummary` — the figure of a plan once the actions that cannot run are set
  aside, from one flag per object.
* `ActionPlan.realize` — the figure of a finished batch, object by object, from the typed outcomes
  of its actions.
* `realize_le_runnable` — the second never fails and never exceeds the first; they agree when every
  action that was not set aside removed its pathname.
-/

set_option autoImplicit false

namespace DedupCommando

open Checked

/-! ## Outcomes -/

/-- What one action did, in the terms object accounting needs. -/
inductive ActionResult where
  | removed
  | refused (rolledBack : Bool)
  | stranded (quarantine : Path) (detail : String)
  | unsettled (quarantine : Path) (detail : String)
  deriving DecidableEq

inductive ZeroReason where
  | notFullyCovered
  | externalLinks
  | partialCoverage
  | cancelled
  | alreadyLinked
  | rolledBack
  | refused
  deriving DecidableEq, Repr

/-- What one allocation is worth after the batch. -/
inductive ObjectRealization where
  | completed (guaranteedBytes : Nat)
  | zero (reason : ZeroReason)
  | unknown (reason : String) (quarantine : Option Path)
  deriving DecidableEq

def ObjectRealization.guaranteedBytes : ObjectRealization → Nat
  | .completed bytes => bytes
  | _ => 0

/-- The checked total over the realizations. -/
structure RealizedSummary where
  guaranteedBytes : Nat
  completedObjects : Nat
  zeroObjects : Nat
  unknownObjects : Nat
  deriving DecidableEq

namespace RealizedSummary

def default : RealizedSummary := ⟨0, 0, 0, 0⟩

/-- The loop of `RealizedSummary::fold`. -/
def foldFrom (out : RealizedSummary) :
    List ObjectRealization → Except PlanRefusal RealizedSummary
  | [] => .ok out
  | .completed bytes :: states =>
    match checkedAdd 64 out.guaranteedBytes bytes with
    | none => .error (.arithmetic "the realized total does not fit an integer")
    | some total =>
      foldFrom
        { out with guaranteedBytes := total, completedObjects := out.completedObjects + 1 } states
  | .zero _ :: states => foldFrom { out with zeroObjects := out.zeroObjects + 1 } states
  | .unknown _ _ :: states => foldFrom { out with unknownObjects := out.unknownObjects + 1 } states

def fold (states : List ObjectRealization) : Except PlanRefusal RealizedSummary :=
  foldFrom default states

end RealizedSummary

/-- The first original that is neither in place nor restored. -/
def firstAmbiguous : List (Option ActionResult) → Option ObjectRealization
  | [] => none
  | some (.stranded quarantine detail) :: _ => some (.unknown detail (some quarantine))
  | some (.unsettled quarantine detail) :: _ => some (.unknown detail (some quarantine))
  | _ :: results => firstAmbiguous results

def ActionResult.isRefused : Option ActionResult → Bool
  | some (.refused _) => true
  | _ => false

/-- `object_realization`: the verdict for one covered object, in a fixed order. -/
def objectRealization (object : PlannedObject) (results : List (Option ActionResult)) :
    ObjectRealization :=
  match firstAmbiguous results with
  | some state => state
  | none =>
    if results.any Option.isNone then .zero .cancelled
    else
      let removed := results.countP fun r => decide (r = some .removed)
      if results.any fun r => decide (r = some (.refused true)) then .zero .rolledBack
      else if results.any ActionResult.isRefused then
        .zero (if removed > 0 then .partialCoverage else .refused)
      else if object.remainingInside > 0 then .zero .notFullyCovered
      else if object.unobservedLinks > 0 then .zero .externalLinks
      else .completed object.key.size

/-- What a batch leaves of the operator's marks. -/
structure MarkSettlement where
  spent : List Path
  leftMarked : Nat
  leftUnmarked : Nat
  deriving DecidableEq

namespace ActionPlan

/-- One flag per object: an action of `which` removes a pathname of it. -/
def objectFlags (plan : ActionPlan) (which : Nat → Bool) : List Bool :=
  plan.actions.zipIdx.foldl
    (fun flags a => if which a.2 then flags.set a.1.targetObject true else flags)
    (List.replicate plan.objects.length false)

/-- `runnable_summary`: what the plan claims once the actions that cannot run are set aside. -/
def runnableSummary (plan : ActionPlan) : PlanSummary :=
  if plan.unrunnable.count = 0 then plan.summary
  else
    let removed := plan.objectFlags fun index => !plan.isSetAside index
    let stays := plan.objectFlags plan.isSetAside
    let figures := (plan.objects.zip stays).map fun o =>
      if o.2 then ReclaimEstimate.exact 0 else o.1.estimate
    { actions := plan.actions.length - plan.unrunnable.count
      coveredObjects := removed.countP id
      estimate :=
        match ReclaimEstimate.forFreshScan figures with
        | .ok estimate => estimate
        | .error _ => .unknown
      warnings := plan.summary.warnings }

/-- The outcomes of the actions on object `index`; `none` for an action never reached. -/
def outcomesOf (plan : ActionPlan) (outcomes : List ActionResult) (index : Nat) :
    List (Option ActionResult) :=
  (plan.actions.zipIdx.filter fun a => decide (a.1.targetObject = index)).map
    fun a => outcomes[a.2]?

/-- The covered objects of a batch with what became of them. -/
def realizedObjects (plan : ActionPlan) (outcomes : List ActionResult) :
    List (PlanObjectKey × ObjectRealization) :=
  plan.objects.zipIdx.filterMap fun o =>
    if o.1.coveredLinks = 0 then none
    else some (o.1.key, objectRealization o.1 (plan.outcomesOf outcomes o.2))

/-- The pathnames the plan skipped, each with its own zero. -/
def realizedSkips (plan : ActionPlan) : List (PlanObjectKey × ObjectRealization) :=
  plan.summary.warnings.filterMap fun
    | .alreadyLinkedWithKeeper path =>
      (plan.objects.find? fun o => decide (path ∈ o.members)).map
        fun o => (o.key, .zero .alreadyLinked)
    | _ => none

/-- `realize`: what the batch achieved, from the plan and the outcomes of its actions. -/
def realize (plan : ActionPlan) (outcomes : List ActionResult) :
    Except PlanRefusal (List (PlanObjectKey × ObjectRealization) × RealizedSummary) :=
  let realized := plan.realizedObjects outcomes ++ plan.realizedSkips
  match RealizedSummary.fold (realized.map Prod.snd) with
  | .error e => .error e
  | .ok summary => .ok (realized, summary)

/-- `settle_marks`: a group with an action that ran spends every mark it had. -/
def settleMarks (plan : ActionPlan) (ran : List Bool) : MarkSettlement :=
  let ran := fun index => ran.getD index false
  let changed := (((plan.actions.zipIdx.filter fun a => ran a.2).map
    fun a => a.1.group).dedup).insertionSort (· ≤ ·)
  let idle := plan.actions.zipIdx.filter fun a => !ran a.2
  { spent := changed.flatMap fun group =>
      let members := ((plan.witness.groups[group]?).map GroupWitness.members).getD []
      ((plan.groupMarks[group]?).getD []).filterMap fun index => members[index]?
    leftMarked := idle.countP fun a => decide (a.1.group ∉ changed)
    leftUnmarked := idle.countP fun a => decide (a.1.group ∈ changed) }

end ActionPlan

/-! ## The checked total -/

theorem RealizedSummary.foldFrom_ok :
    ∀ {states : List ObjectRealization} {out : RealizedSummary},
      out.guaranteedBytes + (states.map ObjectRealization.guaranteedBytes).sum < 2 ^ 64 →
      ∃ out', foldFrom out states = .ok out' ∧ out'.guaranteedBytes =
        out.guaranteedBytes + (states.map ObjectRealization.guaranteedBytes).sum
  | [], out, _ => ⟨out, rfl, by simp⟩
  | .completed bytes :: states, out, h => by
    rw [List.map_cons, List.sum_cons] at h ⊢
    simp only [ObjectRealization.guaranteedBytes] at h ⊢
    have hadd : checkedAdd 64 out.guaranteedBytes bytes = some (out.guaranteedBytes + bytes) :=
      checkedAdd_of_lt (by omega)
    unfold foldFrom
    rw [hadd]
    obtain ⟨out', hout, hbytes⟩ := @foldFrom_ok states
      { out with
        guaranteedBytes := out.guaranteedBytes + bytes
        completedObjects := out.completedObjects + 1 } (by simp only; omega)
    exact ⟨out', hout, by rw [hbytes]; simp only; omega⟩
  | .zero _ :: states, out, h => by
    rw [List.map_cons, List.sum_cons] at h ⊢
    simp only [ObjectRealization.guaranteedBytes, Nat.zero_add] at h ⊢
    exact @foldFrom_ok states { out with zeroObjects := out.zeroObjects + 1 } h
  | .unknown _ _ :: states, out, h => by
    rw [List.map_cons, List.sum_cons] at h ⊢
    simp only [ObjectRealization.guaranteedBytes, Nat.zero_add] at h ⊢
    exact @foldFrom_ok states { out with unknownObjects := out.unknownObjects + 1 } h

theorem RealizedSummary.fold_ok {states : List ObjectRealization}
    (h : (states.map ObjectRealization.guaranteedBytes).sum < 2 ^ 64) :
    ∃ out, fold states = .ok out ∧
      out.guaranteedBytes = (states.map ObjectRealization.guaranteedBytes).sum := by
  obtain ⟨out, hout, hbytes⟩ := @foldFrom_ok states default (by simpa [default] using h)
  exact ⟨out, hout, by simpa [default] using hbytes⟩

/-! ## One object -/

theorem firstAmbiguous_bytes :
    ∀ (results : List (Option ActionResult)) {state : ObjectRealization},
      firstAmbiguous results = some state → state.guaranteedBytes = 0
  | [], _, h => by cases h
  | some (.stranded _ _) :: _, _, h => by cases h; rfl
  | some (.unsettled _ _) :: _, _, h => by cases h; rfl
  | some .removed :: results, _, h => firstAmbiguous_bytes results h
  | some (.refused _) :: results, _, h => firstAmbiguous_bytes results h
  | none :: results, _, h => firstAmbiguous_bytes results h

theorem firstAmbiguous_none :
    ∀ (results : List (Option ActionResult)), firstAmbiguous results = none →
      ∀ r ∈ results, r = none ∨ r = some .removed ∨ ∃ b, r = some (.refused b)
  | [], _, r, hr => by cases hr
  | some (.stranded _ _) :: _, h, _, _ => by cases h
  | some (.unsettled _ _) :: _, h, _, _ => by cases h
  | some .removed :: results, h, r, hr => by
    rcases List.mem_cons.1 hr with rfl | hr
    · exact .inr (.inl rfl)
    · exact firstAmbiguous_none results h r hr
  | some (.refused b) :: results, h, r, hr => by
    rcases List.mem_cons.1 hr with rfl | hr
    · exact .inr (.inr ⟨b, rfl⟩)
    · exact firstAmbiguous_none results h r hr
  | none :: results, h, r, hr => by
    rcases List.mem_cons.1 hr with rfl | hr
    · exact .inl rfl
    · exact firstAmbiguous_none results h r hr

/-- The plan's own arithmetic on an object: its size, or nothing. -/
theorem PlannedObject.estimate_guaranteedBytes (o : PlannedObject) :
    o.estimate.guaranteedBytes =
      if o.coveredLinks = 0 ∨ o.remainingInside > 0 ∨ o.unobservedLinks > 0 then 0
      else o.key.size := by
  unfold estimate
  by_cases h₁ : o.coveredLinks = 0 ∨ o.remainingInside > 0
  · rw [if_pos h₁, if_pos (by tauto)]; rfl
  · rw [if_neg h₁]
    by_cases h₂ : o.unobservedLinks > 0
    · rw [if_pos h₂, if_pos (by tauto)]; rfl
    · rw [if_neg h₂, if_neg (by tauto)]; rfl

/-- Every action was reached and removed its pathname. -/
def allRemoved (results : List (Option ActionResult)) : Bool :=
  results.all fun r => decide (r = some .removed)

theorem allRemoved_iff {results : List (Option ActionResult)} :
    allRemoved results = true ↔ ∀ r ∈ results, r = some .removed := by
  simp [allRemoved]

/-- An object is worth nothing unless every action on it removed its pathname, and then what the
    plan's arithmetic says. -/
theorem objectRealization_bytes {o : PlannedObject} (hc : o.coveredLinks ≠ 0)
    (results : List (Option ActionResult)) :
    (objectRealization o results).guaranteedBytes =
      if allRemoved results then o.estimate.guaranteedBytes else 0 := by
  rw [o.estimate_guaranteedBytes]
  unfold objectRealization
  split
  · rename_i state hstate
    rw [firstAmbiguous_bytes results hstate]
    split
    · rename_i hall
      rw [allRemoved_iff] at hall
      split
      · rfl
      · -- every outcome is `removed`, so none is ambiguous
        exfalso
        clear hc
        induction results with
        | nil => cases hstate
        | cons r rs ih =>
          obtain rfl := hall r List.mem_cons_self
          exact ih hstate fun r hr => hall r (List.mem_cons_of_mem _ hr)
    · rfl
  · rename_i hnone
    have hcases := firstAmbiguous_none results hnone
    by_cases hall : ∀ r ∈ results, r = some .removed
    · have h₁ : results.any Option.isNone = false := by
        rw [List.any_eq_false]
        intro r hr; rw [hall r hr]; simp
      have h₂ : (results.any fun r => decide (r = some (.refused true))) = false := by
        rw [List.any_eq_false]
        intro r hr; rw [hall r hr]; simp
      have h₃ : results.any ActionResult.isRefused = false := by
        rw [List.any_eq_false]
        intro r hr; rw [hall r hr]; simp [ActionResult.isRefused]
      rw [if_pos (allRemoved_iff.2 hall), h₁, h₂, h₃]
      simp only [Bool.false_eq_true, if_false]
      by_cases hr : o.remainingInside > 0
      · rw [if_pos hr, if_pos (by tauto)]; rfl
      · rw [if_neg hr]
        by_cases hu : o.unobservedLinks > 0
        · rw [if_pos hu, if_pos (by tauto)]; rfl
        · rw [if_neg hu, if_neg (by tauto)]; rfl
    · rw [if_neg fun h => hall (allRemoved_iff.1 h)]
      obtain ⟨r, hr, hne⟩ : ∃ r ∈ results, r ≠ some .removed := by
        simpa only [not_forall, exists_prop] using hall
      split
      · rfl
      · rename_i hsome
        simp only
        split
        · rfl
        · rcases hcases r hr with rfl | rfl | ⟨b, rfl⟩
          · exact absurd (List.any_eq_true.2 ⟨none, hr, rfl⟩) hsome
          · exact absurd rfl hne
          · rw [if_pos (List.any_eq_true.2 ⟨_, hr, rfl⟩)]; rfl

/-! ## The flags -/

/-- An action of `which` removes a pathname of object `index`. -/
def ActionPlan.flagged (plan : ActionPlan) (which : Nat → Bool) (index : Nat) : Bool :=
  plan.actions.zipIdx.any fun a => which a.2 && decide (a.1.targetObject = index)

theorem foldl_flags (which : Nat → Bool) :
    ∀ (as : List (PlanAction × Nat)) (flags : List Bool) (index : Nat),
      (as.foldl (fun flags a => if which a.2 then flags.set a.1.targetObject true else flags)
        flags)[index]? =
      (flags[index]?).map fun flag =>
        flag || as.any fun a => which a.2 && decide (a.1.targetObject = index)
  | [], flags, index => by simp
  | a :: as, flags, index => by
    rw [List.foldl_cons, foldl_flags which as]
    by_cases hw : which a.2 = true
    · rw [if_pos hw, List.getElem?_set]
      by_cases hi : a.1.targetObject = index
      · rw [if_pos hi]
        by_cases hlt : a.1.targetObject < flags.length
        · rw [if_pos hlt, ← hi, List.getElem?_eq_getElem hlt]
          simp [hw]
        · rw [if_neg hlt, ← hi, List.getElem?_eq_none (by omega)]
          rfl
      · rw [if_neg hi]
        simp [hi]
    · rw [if_neg hw]
      simp [hw]

theorem ActionPlan.objectFlags_eq (plan : ActionPlan) (which : Nat → Bool) :
    plan.objectFlags which = (List.range plan.objects.length).map (plan.flagged which) := by
  apply List.ext_getElem?
  intro index
  unfold objectFlags
  rw [foldl_flags, List.getElem?_map]
  by_cases hlt : index < plan.objects.length
  · rw [List.getElem?_range hlt, List.getElem?_replicate, if_pos hlt]
    simp [flagged]
  · rw [List.getElem?_eq_none (by simpa using hlt), List.getElem?_eq_none (by simpa using hlt)]
    rfl

theorem ActionPlan.zip_objectFlags (plan : ActionPlan) (which : Nat → Bool) :
    plan.objects.zip (plan.objectFlags which) =
      plan.objects.zipIdx.map fun o => (o.1, plan.flagged which o.2) := by
  rw [plan.objectFlags_eq, List.zip_map_right, List.zipIdx_eq_zip_range', ← List.range_eq_range']
  rfl

theorem Unrunnable.reason_isSome {u : Unrunnable} {index : Nat} :
    (u.reason index).isSome = true ↔ ∃ r, u.reasons[index]? = some (some r) := by
  unfold reason
  cases u.reasons[index]? with
  | none => simp
  | some r => cases r <;> simp

theorem ActionPlan.isSetAside_of_count {plan : ActionPlan} (h : plan.unrunnable.count = 0)
    (index : Nat) : plan.isSetAside index = false := by
  rw [plan.unrunnable.count_eq, List.countP_eq_zero] at h
  unfold isSetAside
  by_contra hne
  obtain ⟨r, hr⟩ := Unrunnable.reason_isSome.1 (Bool.eq_true_of_not_eq_false hne)
  exact h _ (List.mem_of_getElem? hr) rfl

/-! ## The two figures -/

/-- The figure of an object once the actions that cannot run are set aside. -/
def ActionPlan.runnableFigure (plan : ActionPlan) (o : PlannedObject × Nat) : ReclaimEstimate :=
  if plan.flagged plan.isSetAside o.2 then .exact 0 else o.1.estimate

theorem PlannedObject.guaranteed_le_ceiling (o : PlannedObject) :
    o.estimate.guaranteedBytes ≤ o.estimate.ceilingBytes := by
  unfold estimate
  split
  · exact le_rfl
  · split
    · exact Nat.zero_le _
    · exact le_rfl

theorem ActionPlan.runnableFigure_le (plan : ActionPlan) (o : PlannedObject × Nat) :
    (plan.runnableFigure o).Trusted ∧
      (plan.runnableFigure o).guaranteedBytes ≤ o.1.estimate.guaranteedBytes ∧
      (plan.runnableFigure o).ceilingBytes ≤ o.1.estimate.ceilingBytes := by
  unfold runnableFigure
  split
  · exact ⟨by simp [ReclaimEstimate.Trusted, ReclaimEstimate.exact], Nat.zero_le _, Nat.zero_le _⟩
  · exact ⟨o.1.estimate_trusted, le_rfl, le_rfl⟩

theorem sum_zipIdx {α : Type} (f : α → Nat) (l : List α) :
    (l.zipIdx.map fun a => f a.1).sum = (l.map f).sum := by
  have h : l.zipIdx.map (fun a => f a.1) = (l.zipIdx.map Prod.fst).map f := by
    rw [List.map_map]; rfl
  rw [h, List.zipIdx_map_fst]

section Figures

variable {groups : List PlanGroupInput} {plan : ActionPlan}

/-- What `runnable_summary` promises, whether it is the plan's own summary or a new fold. -/
theorem AcceptedPlan.runnable_ok (h : AcceptedPlan groups plan) (u : Unrunnable) :
    (plan.withUnrunnable u).runnableSummary.estimate.Trusted ∧
      (plan.withUnrunnable u).runnableSummary.estimate.guaranteedBytes =
        (plan.objects.zipIdx.map fun o =>
          ((plan.withUnrunnable u).runnableFigure o).guaranteedBytes).sum := by
  obtain ⟨htrusted, hguaranteed, hceiling, hmax⟩ := h.summary_ok
  unfold ActionPlan.runnableSummary
  split
  · rename_i hcount
    refine ⟨htrusted, ?_⟩
    have hfigure : ∀ o, (plan.withUnrunnable u).runnableFigure o = o.1.estimate := by
      intro o
      have hflag : (plan.withUnrunnable u).flagged (plan.withUnrunnable u).isSetAside o.2 =
          false := by
        unfold ActionPlan.flagged
        rw [List.any_eq_false]
        intro a _
        rw [ActionPlan.isSetAside_of_count hcount]
        simp
      unfold ActionPlan.runnableFigure
      rw [hflag]; rfl
    simp only [hfigure]
    rw [sum_zipIdx fun o : PlannedObject => o.estimate.guaranteedBytes]
    exact hguaranteed
  · have hzip := (plan.withUnrunnable u).zip_objectFlags (plan.withUnrunnable u).isSetAside
    simp only [hzip, List.map_map]
    have hparts : ((plan.withUnrunnable u).objects.zipIdx.map
        ((fun o : PlannedObject × Bool => if o.2 = true then ReclaimEstimate.exact 0
          else o.1.estimate) ∘
          fun o => (o.1, (plan.withUnrunnable u).flagged (plan.withUnrunnable u).isSetAside o.2))) =
        plan.objects.zipIdx.map (plan.withUnrunnable u).runnableFigure := rfl
    rw [hparts]
    have ht : ∀ e ∈ plan.objects.zipIdx.map (plan.withUnrunnable u).runnableFigure, e.Trusted := by
      intro e he
      obtain ⟨o, -, rfl⟩ := List.mem_map.1 he
      exact ((plan.withUnrunnable u).runnableFigure_le o).1
    have hg : ((plan.objects.zipIdx.map (plan.withUnrunnable u).runnableFigure).map
        ReclaimEstimate.guaranteedBytes).sum ≤
        (plan.objects.map fun o => o.estimate.guaranteedBytes).sum := by
      rw [List.map_map, ← sum_zipIdx fun o : PlannedObject => o.estimate.guaranteedBytes]
      exact List.sum_le_sum fun o _ => ((plan.withUnrunnable u).runnableFigure_le o).2.1
    have hc : ((plan.objects.zipIdx.map (plan.withUnrunnable u).runnableFigure).map
        ReclaimEstimate.ceilingBytes).sum ≤
        (plan.objects.map fun o => o.estimate.ceilingBytes).sum := by
      rw [List.map_map, ← sum_zipIdx fun o : PlannedObject => o.estimate.ceilingBytes]
      exact List.sum_le_sum fun o _ => ((plan.withUnrunnable u).runnableFigure_le o).2.2
    have hle : (plan.objects.map fun o => o.estimate.guaranteedBytes).sum ≤
        (plan.objects.map fun o => o.estimate.ceilingBytes).sum :=
      List.sum_le_sum fun o _ => o.guaranteed_le_ceiling
    obtain ⟨e, he⟩ := ReclaimEstimate.forFreshScan_total ht (by omega) (by omega)
    obtain ⟨hte, hge, -⟩ := ReclaimEstimate.forFreshScan_ok ht he
    rw [he]
    refine ⟨hte, ?_⟩
    rw [hge, List.map_map]; rfl

/-- The bytes a batch realizes, object by object. -/
theorem realizedObjects_sum (plan : ActionPlan) (outcomes : List ActionResult) :
    ((plan.realizedObjects outcomes).map fun r => r.2.guaranteedBytes).sum =
      (plan.objects.zipIdx.map fun o =>
        if allRemoved (plan.outcomesOf outcomes o.2) then o.1.estimate.guaranteedBytes
        else 0).sum := by
  unfold ActionPlan.realizedObjects
  induction plan.objects.zipIdx with
  | nil => rfl
  | cons o os ih =>
    rw [List.filterMap_cons, List.map_cons, List.sum_cons, ← ih]
    by_cases hc : o.1.coveredLinks = 0
    · have hzero : o.1.estimate.guaranteedBytes = 0 := by
        rw [o.1.estimate_guaranteedBytes, if_pos (.inl hc)]
      simp [hc, hzero]
    · simp only [if_neg hc, List.map_cons, List.sum_cons]
      rw [objectRealization_bytes hc]

theorem realizedSkips_sum (plan : ActionPlan) :
    (plan.realizedSkips.map fun r => r.2.guaranteedBytes).sum = 0 := by
  unfold ActionPlan.realizedSkips
  induction plan.summary.warnings with
  | nil => rfl
  | cons w ws ih =>
    rw [List.filterMap_cons]
    split
    · exact ih
    · rename_i r hr
      rw [List.map_cons, List.sum_cons, ih]
      split at hr
      · obtain ⟨o, -, rfl⟩ := Option.map_eq_some_iff.1 hr
        rfl
      · cases hr

theorem mem_outcomesOf {plan : ActionPlan} {outcomes : List ActionResult} {index : Nat}
    {r : Option ActionResult} :
    r ∈ plan.outcomesOf outcomes index ↔ ∃ (i : Nat) (a : PlanAction),
      plan.actions[i]? = some a ∧ a.targetObject = index ∧ r = outcomes[i]? := by
  unfold ActionPlan.outcomesOf
  simp only [List.mem_map, List.mem_filter, decide_eq_true_eq, Prod.exists,
    List.mem_zipIdx_iff_getElem?]
  constructor
  · rintro ⟨a, i, ⟨ha, hi⟩, rfl⟩
    exact ⟨i, a, ha, hi, rfl⟩
  · rintro ⟨i, a, ha, hi, rfl⟩
    exact ⟨a, i, ⟨ha, hi⟩, rfl⟩

/-- An object whose every action removed its pathname has none that was set aside. -/
theorem flagged_false_of_removed {plan : ActionPlan} {outcomes : List ActionResult}
    (hrefused : ∀ i r, plan.isSetAside i = true → outcomes[i]? = some r → ∃ b, r = .refused b)
    {index : Nat} (hall : ∀ r ∈ plan.outcomesOf outcomes index, r = some .removed) :
    plan.flagged plan.isSetAside index = false := by
  unfold ActionPlan.flagged
  rw [List.any_eq_false]
  rintro ⟨a, i⟩ ha
  simp only [Bool.and_eq_true, decide_eq_true_eq, not_and]
  intro haside hindex
  have hr := hall _ (mem_outcomesOf.2 ⟨i, a, List.mem_zipIdx_iff_getElem?.1 ha, hindex, rfl⟩)
  obtain ⟨b, hb⟩ := hrefused i _ haside hr
  cases hb

end Figures

/-- **What a batch realizes never fails to fold and never exceeds what was promised for the actions
    that can run**; the two are equal when every one of those removed its pathname. -/
theorem realize_le_runnable {scanId : Int} {groups : List PlanGroupInput} {accepted : ActionPlan}
    (h : ActionPlan.tryNew scanId groups = .ok accepted) (u : Unrunnable)
    {plan : ActionPlan} (hplan : plan = accepted.withUnrunnable u)
    {outcomes : List ActionResult}
    (hrefused : ∀ i r, plan.isSetAside i = true → outcomes[i]? = some r → ∃ b, r = .refused b) :
    ∃ realized summary, plan.realize outcomes = .ok (realized, summary) ∧
      summary.guaranteedBytes ≤ plan.runnableSummary.estimate.guaranteedBytes ∧
      ((∀ i < plan.actions.length, plan.isSetAside i = false → outcomes[i]? = some .removed) →
        summary.guaranteedBytes = plan.runnableSummary.estimate.guaranteedBytes) ∧
      (plan.summary.estimate.Trusted → plan.runnableSummary.estimate.Trusted) := by
  have hp := ActionPlan.tryNew_ok h
  obtain ⟨htrusted, hpromised⟩ := hp.runnable_ok u
  rw [← hplan] at htrusted hpromised
  have hobjects : plan.objects = accepted.objects := by rw [hplan]; rfl
  rw [← hobjects] at hpromised
  -- object by object, the bytes realized and the bytes promised
  have hle : ∀ o ∈ plan.objects.zipIdx,
      (if allRemoved (plan.outcomesOf outcomes o.2) then o.1.estimate.guaranteedBytes else 0) ≤
        (plan.runnableFigure o).guaranteedBytes := by
    intro o _
    split
    · rename_i hall
      unfold ActionPlan.runnableFigure
      rw [flagged_false_of_removed hrefused (allRemoved_iff.1 hall)]
      exact le_rfl
    · exact Nat.zero_le _
  have hrealized : (((plan.realizedObjects outcomes ++ plan.realizedSkips).map Prod.snd).map
      ObjectRealization.guaranteedBytes).sum = (plan.objects.zipIdx.map fun o =>
        if allRemoved (plan.outcomesOf outcomes o.2) then o.1.estimate.guaranteedBytes
        else 0).sum := by
    have hskips := realizedSkips_sum plan
    rw [← realizedObjects_sum plan outcomes, List.map_map, List.map_append, List.sum_append]
    simp only [Function.comp_def]
    omega
  have hsum := List.sum_le_sum hle
  rw [← hrealized, ← hpromised] at hsum
  have hfits : plan.runnableSummary.estimate.guaranteedBytes < 2 ^ 64 := by
    obtain ⟨-, -, hceiling, hmax⟩ := hp.summary_ok
    have hfigure : (plan.objects.zipIdx.map fun o =>
        (plan.runnableFigure o).guaranteedBytes).sum ≤
        (plan.objects.map fun o => o.estimate.ceilingBytes).sum := by
      rw [← sum_zipIdx fun o : PlannedObject => o.estimate.ceilingBytes]
      exact List.sum_le_sum fun o _ =>
        ((plan.runnableFigure_le o).2.1).trans o.1.guaranteed_le_ceiling
    rw [← hobjects] at hceiling
    unfold i64Max at hmax
    omega
  obtain ⟨summary, hfold, hbytes⟩ := RealizedSummary.fold_ok (lt_of_le_of_lt hsum hfits)
  refine ⟨plan.realizedObjects outcomes ++ plan.realizedSkips, summary, ?_, ?_, fun hall => ?_,
    fun _ => htrusted⟩
  · simp only [ActionPlan.realize, hfold]
  · rw [hbytes]; exact hsum
  · rw [hbytes, hrealized, hpromised]
    congr 1
    refine List.map_congr_left fun o ho => ?_
    split
    · rename_i hremoved
      unfold ActionPlan.runnableFigure
      rw [flagged_false_of_removed hrefused (allRemoved_iff.1 hremoved)]
      rfl
    · -- an action on the object did not remove its pathname, so it was set aside
      rename_i hnot
      obtain ⟨r, hr, hne⟩ : ∃ r ∈ plan.outcomesOf outcomes o.2, r ≠ some .removed := by
        simpa only [allRemoved_iff, not_forall, exists_prop] using hnot
      obtain ⟨i, a, ha, hindex, rfl⟩ := mem_outcomesOf.1 hr
      have haside : plan.isSetAside i = true := by
        by_contra hns
        exact hne (hall i (List.getElem?_eq_some_iff.1 ha).1 (by simpa using hns))
      have hflag : plan.flagged plan.isSetAside o.2 = true := by
        unfold ActionPlan.flagged
        exact List.any_eq_true.2
          ⟨(a, i), List.mem_zipIdx_iff_getElem?.2 ha, by simp [haside, hindex]⟩
      unfold ActionPlan.runnableFigure
      rw [hflag]
      rfl

/-- One group of three copies: `/a` is kept, `/b` and `/c` are deleted. -/
def sampleTriple : List PlanGroupInput :=
  [⟨⟨1, 0, 5⟩, "aa",
    [sampleMember 97 isName_a 1 1 .keeper, sampleMember 98 isName_b 9 1 (.act .delete),
      sampleMember 99 isName_c 11 1 (.act .delete)]⟩]

/-- The file system of the first action is read-only. -/
def firstReadOnly : Unrunnable := .new [some "read-only filesystem", none]

/-- The deletion of `/b` is set aside and refused, that of `/c` removes its two bytes. -/
theorem realize_le_runnable_setAside : ∃ accepted,
    ActionPlan.tryNew 1 sampleTriple = .ok accepted ∧
    ∃ plan, plan = accepted.withUnrunnable firstReadOnly ∧
    ∃ realized summary, plan.realize [.refused false, .removed] = .ok (realized, summary) ∧
      plan.runnableSummary.estimate.guaranteedBytes = 2 ∧ summary.guaranteedBytes = 2 := by
  have hrun : (match ActionPlan.tryNew 1 sampleTriple with
      | .ok accepted => decide (accepted.actions.length = 2 ∧
          (accepted.withUnrunnable firstReadOnly).runnableSummary.estimate.guaranteedBytes = 2 ∧
          (accepted.withUnrunnable firstReadOnly).isSetAside 0 = true ∧
          (accepted.withUnrunnable firstReadOnly).isSetAside 1 = false)
      | .error _ => false) = true := by decide
  cases h : ActionPlan.tryNew 1 sampleTriple with
  | error e =>
    rw [h] at hrun
    cases hrun
  | ok accepted =>
    rw [h] at hrun
    obtain ⟨hlength, hpromised, haside, hruns⟩ := of_decide_eq_true hrun
    have hrefused : ∀ i r, (accepted.withUnrunnable firstReadOnly).isSetAside i = true →
        [ActionResult.refused false, .removed][i]? = some r → ∃ b, r = .refused b := by
      intro i r hset hr
      match i with
      | 0 => exact ⟨false, (Option.some.inj hr).symm⟩
      | 1 =>
        rw [hruns] at hset
        cases hset
      | i + 2 => cases hr
    obtain ⟨realized, summary, hrealize, -, hequal, -⟩ := realize_le_runnable h _ rfl hrefused
    refine ⟨accepted, rfl, _, rfl, realized, summary, hrealize, hpromised, ?_⟩
    rw [hequal ?_, hpromised]
    intro i hi hset
    have htwo : i < 2 := hlength ▸ hi
    match i with
    | 0 =>
      rw [haside] at hset
      cases hset
    | 1 => rfl
    | i + 2 => omega

end DedupCommando
