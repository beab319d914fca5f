import DedupCommando.Model.PlanObjects

/-!
# A plan and the order of its evidence

* `Reordered` — the same groups with the same members, in another order.
* `checkIdentities_ok`, `ranks_distinct` — what the checks leave: one scan, one publication and no
  rank twice.
* `normalize_reordered` — with distinct ranks and pathnames there is one normal form.
* `try_new_order_free` — **the order of the evidence is not part of the answer.**
-/

set_option autoImplicit false

namespace DedupCommando

/-! ## The same evidence -/

/-- One group, with its members in another order. -/
structure SameGroup (g g' : PlanGroupInput) : Prop where
  id : g.id = g'.id
  hash : g.hash = g'.hash
  members : g.members.Perm g'.members

/-- The groups in another order, each with its members in another order. -/
def Reordered (groups groups' : List PlanGroupInput) : Prop :=
  ∃ mid, groups.Perm mid ∧ List.Forall₂ SameGroup mid groups'

theorem SameGroup.symm {g g' : PlanGroupInput} (h : SameGroup g g') : SameGroup g' g :=
  ⟨h.id.symm, h.hash.symm, h.members.symm⟩

theorem Reordered.symm {groups groups' : List PlanGroupInput} (h : Reordered groups groups') :
    Reordered groups' groups := by
  obtain ⟨mid, hperm, hsame⟩ := h
  have hcomp : Relation.Comp (List.Forall₂ SameGroup) List.Perm groups' groups :=
    ⟨mid, List.Forall₂.flip (hsame.imp fun _ _ h => h.symm), hperm.symm⟩
  rw [List.forall₂_comp_perm_eq_perm_comp_forall₂] at hcomp
  exact hcomp

/-- A property of a group that its order does not touch holds of all of them or of none. -/
theorem Reordered.forall_iff {groups groups' : List PlanGroupInput} (h : Reordered groups groups')
    {p : PlanGroupInput → Prop} (hp : ∀ g g', SameGroup g g' → (p g ↔ p g')) :
    (∀ g ∈ groups, p g) ↔ ∀ g ∈ groups', p g := by
  obtain ⟨mid, hperm, hsame⟩ := h
  have hmid : (∀ g ∈ groups, p g) ↔ ∀ g ∈ mid, p g :=
    ⟨fun hg g hm => hg g (hperm.mem_iff.mpr hm), fun hg g hm => hg g (hperm.mem_iff.mp hm)⟩
  rw [hmid]
  clear hmid hperm
  induction hsame with
  | nil => rfl
  | cons hhead _ ih =>
    rw [List.forall_mem_cons, List.forall_mem_cons, hp _ _ hhead]
    exact and_congr_right fun _ => ih

/-! ## What the checks leave -/

theorem checkIdentities_ok {scanId generation : Int} : ∀ {groups : List PlanGroupInput},
    checkIdentities scanId generation groups = .ok () ↔
      ∀ g ∈ groups, g.id.scanId = scanId ∧ 0 ≤ g.id.rank ∧ g.id.generation = generation
  | [] => by simp [checkIdentities]
  | group :: groups => by
    rw [List.forall_mem_cons, ← checkIdentities_ok, checkIdentities]
    split
    · rename_i hscan
      simp [hscan]
    · rename_i hscan
      split
      · rename_i hrank
        simp [hrank]
      · rename_i hrank
        split
        · rename_i hgen
          simp [hgen]
        · rename_i hgen
          rw [not_not] at hscan hgen
          simp [hscan, hgen, Int.not_lt.mp hrank]

theorem checkAdjacent_ok : ∀ {groups : List PlanGroupInput}, checkAdjacent groups = .ok () →
    groups.IsChain fun g h => g.id ≠ h.id
  | [], _ => List.IsChain.nil
  | [g], _ => List.IsChain.singleton g
  | first :: second :: groups, h => by
    unfold checkAdjacent at h
    split at h
    · cases h
    · rename_i hne
      exact List.IsChain.cons_cons hne (checkAdjacent_ok h)

def normalGroup (g : PlanGroupInput) : PlanGroupInput :=
  { g with members := g.members.insertionSort fun a b => a.path ≤ b.path }

theorem normalize_eq (groups : List PlanGroupInput) : ActionPlan.normalize groups =
    (groups.insertionSort fun a b => a.id.rank ≤ b.id.rank).map normalGroup := rfl

theorem mem_normalize {groups : List PlanGroupInput} {g : PlanGroupInput} :
    g ∈ ActionPlan.normalize groups ↔ ∃ g₀ ∈ groups, normalGroup g₀ = g := by
  rw [normalize_eq, List.mem_map]
  simp only [(List.perm_insertionSort _ groups).mem_iff]

/-- The normal form is in the order of the ranks. -/
theorem normalize_sorted (groups : List PlanGroupInput) :
    (ActionPlan.normalize groups).Pairwise fun g h => g.id.rank ≤ h.id.rank := by
  rw [normalize_eq, List.pairwise_map]
  exact List.pairwise_insertionSort (fun a b : PlanGroupInput => a.id.rank ≤ b.id.rank) groups

/-- **Under one publication no rank stands twice.** Neighbours of one rank would have one id. -/
theorem ranks_distinct {scanId generation : Int} {groups : List PlanGroupInput}
    (hids : checkIdentities scanId generation groups = .ok ())
    (hadj : checkAdjacent (ActionPlan.normalize groups) = .ok ()) :
    (ActionPlan.normalize groups).Pairwise fun g h => g.id.rank < h.id.rank := by
  have hone : ∀ g ∈ ActionPlan.normalize groups, g.id.scanId = scanId ∧
      g.id.generation = generation := by
    intro g hg
    obtain ⟨g₀, hg₀, rfl⟩ := mem_normalize.mp hg
    obtain ⟨hscan, -, hgen⟩ := checkIdentities_ok.mp hids g₀ hg₀
    exact ⟨hscan, hgen⟩
  have hsorted := normalize_sorted groups
  have hchain := checkAdjacent_ok hadj
  revert hone hsorted hchain
  generalize ActionPlan.normalize groups = gs
  intro hone hsorted hchain
  have hstep : gs.IsChain fun g h => g.id.rank < h.id.rank := by
    induction gs with
    | nil => exact List.IsChain.nil
    | cons g gs ih =>
      cases gs with
      | nil => exact List.IsChain.singleton g
      | cons h gs =>
        rw [List.isChain_cons_cons] at hchain ⊢
        obtain ⟨hle, htail⟩ := List.pairwise_cons.mp hsorted
        refine ⟨?_, ih (fun x hx => hone x (List.mem_cons_of_mem _ hx)) htail hchain.2⟩
        have hrank := hle h List.mem_cons_self
        obtain ⟨hscan, hgen⟩ := hone g List.mem_cons_self
        obtain ⟨hscan', hgen'⟩ := hone h (List.mem_cons_of_mem _ List.mem_cons_self)
        have hne : g.id.rank ≠ h.id.rank := by
          intro heq
          apply hchain.1
          cases hg : g.id
          cases hh : h.id
          simp_all
        omega
  have htrans : IsTrans PlanGroupInput fun g h => g.id.rank < h.id.rank :=
    ⟨fun _ _ _ hab hbc => Int.lt_trans hab hbc⟩
  exact List.isChain_iff_pairwise.mp hstep

/-! ## One normal form -/

theorem normalGroup_same {g g' : PlanGroupInput} (h : SameGroup g g')
    (hpaths : (g.members.map PlanMemberEvidence.path).Nodup) : normalGroup g = normalGroup g' := by
  have hperm : (g.members.insertionSort fun a b => a.path ≤ b.path).Perm
      (g'.members.insertionSort fun a b => a.path ≤ b.path) :=
    (List.perm_insertionSort _ _).trans (h.members.trans (List.perm_insertionSort _ _).symm)
  have hmembers := hperm.eq_of_pairwise
    (fun a b ha hb hab hba => by
      have ha' := (List.perm_insertionSort _ _).mem_iff.mp ha
      have hb' := h.members.mem_iff.mpr ((List.perm_insertionSort _ _).mem_iff.mp hb)
      exact List.inj_on_of_nodup_map hpaths ha' hb' (le_antisymm hab hba))
    (List.pairwise_insertionSort (fun a b : PlanMemberEvidence => a.path ≤ b.path) _)
    (List.pairwise_insertionSort (fun a b : PlanMemberEvidence => a.path ≤ b.path) _)
  obtain ⟨hid, hhash, -⟩ := h
  cases g
  cases g'
  simp_all [normalGroup]

theorem normalize_reordered {groups groups' : List PlanGroupInput} (h : Reordered groups groups')
    (hranks : (ActionPlan.normalize groups).Pairwise fun g h => g.id.rank < h.id.rank)
    (hpaths : ∀ g ∈ groups, (g.members.map PlanMemberEvidence.path).Nodup) :
    ActionPlan.normalize groups = ActionPlan.normalize groups' := by
  obtain ⟨mid, hperm, hsame⟩ := h
  have hmid : mid.map normalGroup = groups'.map normalGroup := by
    have hpaths' : ∀ g ∈ mid, (g.members.map PlanMemberEvidence.path).Nodup :=
      fun g hg => hpaths g (hperm.mem_iff.mpr hg)
    clear hperm
    induction hsame with
    | nil => rfl
    | cons hhead _ ih =>
      rw [List.forall_mem_cons] at hpaths'
      rw [List.map_cons, List.map_cons, normalGroup_same hhead hpaths'.1, ih hpaths'.2]
  have hsorts : (ActionPlan.normalize groups).Perm (ActionPlan.normalize groups') := by
    rw [normalize_eq, normalize_eq]
    have hleft := (List.perm_insertionSort (fun a b : PlanGroupInput => a.id.rank ≤ b.id.rank)
      groups).map normalGroup
    have hright := (List.perm_insertionSort (fun a b : PlanGroupInput => a.id.rank ≤ b.id.rank)
      groups').map normalGroup
    exact hleft.trans ((hperm.map _).trans (hmid ▸ hright.symm))
  have hnodup : ((ActionPlan.normalize groups).map fun g => g.id.rank).Nodup := by
    rw [List.Nodup, List.pairwise_map]
    exact hranks.imp fun hlt => Int.ne_of_lt hlt
  exact hsorts.eq_of_pairwise
    (fun a b ha hb hab hba =>
      List.inj_on_of_nodup_map hnodup ha (hsorts.mem_iff.mpr hb) (Int.le_antisymm hab hba))
    (normalize_sorted groups) (normalize_sorted groups')

/-! ## The answer -/

/-- What is accepted in one order is accepted in the other, as the same plan. -/
theorem tryNew_reordered {scanId : Int} {groups groups' : List PlanGroupInput} {plan : ActionPlan}
    (h : Reordered groups groups') (hplan : ActionPlan.tryNew scanId groups = .ok plan) :
    ActionPlan.tryNew scanId groups' = .ok plan := by
  have haccepted := ActionPlan.tryNew_ok hplan
  unfold ActionPlan.tryNew at hplan
  split at hplan
  · cases hplan
  rename_i head tail
  simp only at hplan
  split at hplan
  · cases hplan
  rename_i hids
  have hpaths : ∀ g ∈ head :: tail, (g.members.map PlanMemberEvidence.path).Nodup := by
    intro g hg
    have hmem := mem_normalize.mpr ⟨g, hg, rfl⟩
    have hnodup := (List.nodup_flatMap.mp haccepted.paths).1 _ hmem
    exact ((List.perm_insertionSort _ g.members).map PlanMemberEvidence.path).nodup_iff.mp hnodup
  have hadj : checkAdjacent (ActionPlan.normalize (head :: tail)) = .ok () := by
    cases hcheck : checkAdjacent (ActionPlan.normalize (head :: tail)) with
    | ok u => rfl
    | error e => simp [checkGlobalEvidence, hcheck] at hplan
  have hnormal := normalize_reordered h (ranks_distinct hids hadj) hpaths
  have hids' : checkIdentities scanId head.id.generation groups' = .ok () := by
    rw [checkIdentities_ok] at hids ⊢
    refine (h.forall_iff fun g g' hsame => ?_).mp hids
    rw [hsame.id]
  cases groups' with
  | nil =>
    obtain ⟨mid, hperm, hsame⟩ := h
    cases hsame
    exact absurd hperm.length_eq (by simp)
  | cons head' tail' =>
    have hgen := (checkIdentities_ok.mp hids' head' List.mem_cons_self).2.2
    unfold ActionPlan.tryNew
    simp only [hgen, hids', ← hnormal]
    exact hplan

/-- **A plan does not depend on the order of its evidence**: what is accepted in one order of the
groups and of the members is accepted in every other, as the same plan. -/
theorem try_new_order_free {scanId : Int} {groups groups' : List PlanGroupInput}
    (h : Reordered groups groups') (plan : ActionPlan) :
    ActionPlan.tryNew scanId groups = .ok plan ↔ ActionPlan.tryNew scanId groups' = .ok plan :=
  ⟨tryNew_reordered h, tryNew_reordered h.symm⟩

/-- `samplePair` with its members the other way round. -/
def samplePairTurned : List PlanGroupInput :=
  [⟨⟨1, 0, 5⟩, "aa",
    [sampleMember 98 isName_b 9 1 (.act .delete), sampleMember 97 isName_a 1 1 .keeper]⟩]

theorem try_new_order_free_pair : ∃ plan, ActionPlan.tryNew 1 samplePair = .ok plan ∧
    ActionPlan.tryNew 1 samplePairTurned = .ok plan := by
  cases h : ActionPlan.tryNew 1 samplePair with
  | error e =>
    have hrun : (ActionPlan.tryNew 1 samplePair).isOk = true := by decide
    rw [h] at hrun
    cases hrun
  | ok plan =>
    refine ⟨plan, rfl, (try_new_order_free ⟨samplePair, List.Perm.refl _, ?_⟩ plan).mp h⟩
    exact List.Forall₂.cons ⟨rfl, rfl, List.Perm.swap _ _ _⟩ List.Forall₂.nil

end DedupCommando
