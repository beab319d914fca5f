import DedupCommando.Kernel.Filesystem
import DedupCommando.Model.PlanObjects

/-!
# What a plan's figure means on disk

The plan counts pathnames of a manifest; a filesystem frees an inode when its last name goes.  Over
any filesystem in which every planned object's inode has exactly the recorded number of names, the
manifest's among them:

* `guaranteedBytes_eq_released` — where each object's inode also is as its key measured it, the
  guaranteed figure is the size of exactly those objects all of whose names on disk are targets; no
  name of a keeper's object is a target; no target is taken twice.
* `not_guaranteedBytes_eq_released` — two keys of one inode, measured at different times.
-/

set_option autoImplicit false

namespace DedupCommando

open Grouping

/-! ## Pathnames of a plan -/

/-- The pathname is one an action of the plan removes. -/
def ActionPlan.IsTarget (plan : ActionPlan) (p : Path) : Prop :=
  p ∈ plan.actions.map PlanAction.target

instance (plan : ActionPlan) (p : Path) : Decidable (plan.IsTarget p) :=
  inferInstanceAs (Decidable (p ∈ plan.actions.map PlanAction.target))

section Accepted

variable {groups : List PlanGroupInput} {plan : ActionPlan}

theorem AcceptedPlan.isTarget_iff (h : AcceptedPlan groups plan) {p : Path} :
    plan.IsTarget p ↔ ∃ g ∈ groups, ∃ t ∈ coveredOf g, t.1.path = p := by
  unfold ActionPlan.IsTarget
  rw [h.targets]
  simp only [List.mem_flatMap, List.mem_map]

/-- A pathname occurs once in the whole evidence. -/
theorem AcceptedPlan.member_eq (h : AcceptedPlan groups plan) {g g' : PlanGroupInput}
    (hg : g ∈ groups) (hg' : g' ∈ groups) {m m' : PlanMemberEvidence} (hm : m ∈ g.members)
    (hm' : m' ∈ g'.members) (hpath : m.path = m'.path) : g = g' ∧ m = m' := by
  obtain ⟨hnodup, hdisjoint⟩ := List.nodup_flatMap.1 h.paths
  have hgg : g = g' := by
    by_contra hne
    have : Std.Symm (Function.onFun List.Disjoint
        fun g : PlanGroupInput => g.members.map PlanMemberEvidence.path) :=
      ⟨fun _ _ hab => hab.symm⟩
    exact hdisjoint.forall hg hg' hne (List.mem_map_of_mem hm)
      (by rw [hpath]; exact List.mem_map_of_mem hm')
  subst hgg
  exact ⟨rfl, List.inj_on_of_nodup_map (hnodup g hg) hm hm' hpath⟩

theorem AcceptedPlan.nodup_targets (h : AcceptedPlan groups plan) :
    (plan.actions.map PlanAction.target).Nodup := by
  rw [h.targets]
  refine h.paths.sublist ?_
  clear h
  induction groups with
  | nil => exact List.Sublist.slnil
  | cons g gs ih =>
    rw [List.flatMap_cons, List.flatMap_cons]
    exact (coveredOf_sublist g).append ih

/-- The keeper's pathname stays. -/
theorem AcceptedPlan.keeper_not_target (h : AcceptedPlan groups plan) {g : PlanGroupInput}
    (hg : g ∈ groups) {k : PlanMemberEvidence} (hk : keeperOf g = some k) :
    ¬ plan.IsTarget k.path := by
  intro ht
  obtain ⟨g', hg', t, ht, hpath⟩ := h.isTarget_iff.1 ht
  obtain ⟨-, -, htm, htk, -⟩ := mem_coveredOf.1 ht
  obtain ⟨-, heq⟩ := h.member_eq hg' hg htm (keeperOf_mem hk).1 hpath
  rw [heq, (keeperOf_mem hk).2] at htk
  cases htk

/-- The pathnames of an object that the plan removes, as its group lists them. -/
def removedOf (g : PlanGroupInput) (o : PlannedObject) : List Path :=
  ((coveredOf g).filter fun t => decide (t.1.key = o.key)).map fun t => t.1.path

theorem AcceptedPlan.mem_removedOf (h : AcceptedPlan groups plan) {g : PlanGroupInput}
    (hg : g ∈ groups) {o : PlannedObject} (ho : ObjectOf g o) {p : Path} :
    p ∈ removedOf g o ↔ p ∈ o.members ∧ plan.IsTarget p := by
  rw [ho.members_eq, h.isTarget_iff]
  simp only [removedOf, List.mem_map, List.mem_filter, decide_eq_true_eq]
  constructor
  · rintro ⟨t, ⟨ht, hkey⟩, rfl⟩
    obtain ⟨-, -, htm, -⟩ := mem_coveredOf.1 ht
    exact ⟨⟨t.1, ⟨htm, hkey⟩, rfl⟩, g, hg, t, ht, rfl⟩
  · rintro ⟨⟨m, ⟨hm, hkey⟩, rfl⟩, g', hg', t, ht, hpath⟩
    obtain ⟨-, -, htm, -⟩ := mem_coveredOf.1 ht
    obtain ⟨rfl, heq⟩ := h.member_eq hg' hg htm hm hpath
    exact ⟨t, ⟨ht, by rw [heq]; exact hkey⟩, hpath⟩

theorem AcceptedPlan.nodup_members (h : AcceptedPlan groups plan) {g : PlanGroupInput}
    (hg : g ∈ groups) {o : PlannedObject} (ho : ObjectOf g o) : o.members.Nodup := by
  rw [ho.members_eq]
  exact ((List.nodup_flatMap.1 h.paths).1 g hg).sublist (List.filter_sublist.map _)

/-- `coveredLinks` never exceeds the pathnames, and reaches them exactly when every one goes. -/
theorem AcceptedPlan.coveredLinks_spec (h : AcceptedPlan groups plan) {g : PlanGroupInput}
    (hg : g ∈ groups) {o : PlannedObject} (ho : ObjectOf g o) :
    o.coveredLinks ≤ o.members.length ∧
      (o.members.length ≤ o.coveredLinks ↔ ∀ p ∈ o.members, plan.IsTarget p) := by
  have hlength : o.coveredLinks = (removedOf g o).length := by
    rw [ho.covered, removedOf, List.length_map, List.countP_eq_length_filter]
  have hnodup : (removedOf g o).Nodup := by
    refine ((List.nodup_flatMap.1 h.paths).1 g hg).sublist ?_
    exact (List.filter_sublist.map _).trans (coveredOf_sublist g)
  have hsub : removedOf g o ⊆ o.members := fun p hp => ((h.mem_removedOf hg ho).1 hp).1
  have hsubperm := hnodup.subperm hsub
  rw [hlength]
  refine ⟨hsubperm.length_le, fun hle p hp => ?_, fun hall => ?_⟩
  · have hperm := hsubperm.perm_of_length_le hle
    exact ((h.mem_removedOf hg ho).1 (hperm.mem_iff.2 hp)).2
  · refine ((h.nodup_members hg ho).subperm fun p hp => ?_).length_le
    exact (h.mem_removedOf hg ho).2 ⟨hp, hall p hp⟩

end Accepted

/-! ## The disk -/

/-- The inode behind an object. -/
def PlanObjectKey.id (k : PlanObjectKey) : InodeId := ⟨k.device, k.inode⟩

/-- The inode a key measured: every field of the key that `stat` answers. -/
structure PlanObjectKey.Measures (k : PlanObjectKey) (n : Node) : Prop where
  size : k.size = n.size
  mtime : (⟨k.mtime, k.mtimeNsec⟩ : Timespec) = n.mtime
  ctime : (⟨k.ctimeSec, k.ctimeNsec⟩ : Timespec) = n.ctime

/-- Every pathname of an inode. -/
def Filesystem.names (fs : Filesystem) (i : InodeId) : Set Path := {p | fs.entries p = some i}

/-- The object's inode has exactly `links` pathnames, the object's members among them. -/
structure PlannedObject.NamedBy (o : PlannedObject) (fs : Filesystem) : Prop where
  links : (fs.names o.key.id).encard = o.links
  members : ∀ p ∈ o.members, p ∈ fs.names o.key.id

/-- Named so, and on disk as it was measured. -/
structure PlannedObject.HeldBy (o : PlannedObject) (fs : Filesystem) : Prop
    extends PlannedObject.NamedBy o fs where
  node : ∃ n, fs.nodes o.key.id = some n ∧ o.key.Measures n

/-- Every name of the object's inode is a target: carrying the plan out frees it. -/
def ActionPlan.Frees (plan : ActionPlan) (fs : Filesystem) (o : PlannedObject) : Prop :=
  ∀ p ∈ fs.names o.key.id, plan.IsTarget p

open Classical in
/-- The objects the plan frees. -/
noncomputable def ActionPlan.released (plan : ActionPlan) (fs : Filesystem) : List PlannedObject :=
  plan.objects.filter fun o => decide (plan.Frees fs o)

/-- Two keys of verified evidence that measured one inode are one key. -/
theorem PlanObjectKey.eq_of_measures {k k' : PlanObjectKey} {fs : Filesystem} {n n' : Node}
    (hk : k.identityVersion = 1) (hk' : k'.identityVersion = 1) (hid : k.id = k'.id)
    (hn : fs.nodes k.id = some n) (hn' : fs.nodes k'.id = some n') (hm : k.Measures n)
    (hm' : k'.Measures n') : k = k' := by
  rw [hid, hn'] at hn
  cases hn
  obtain ⟨h₁, h₂, h₃⟩ := hm
  obtain ⟨h₁', h₂', h₃'⟩ := hm'
  rw [← h₁'] at h₁
  rw [← h₂'] at h₂
  rw [← h₃'] at h₃
  cases k
  cases k'
  simp only [PlanObjectKey.id, InodeId.mk.injEq, Timespec.mk.injEq] at *
  simp [hid, h₁, h₂, h₃, hk, hk']

section Disk

variable {groups : List PlanGroupInput} {plan : ActionPlan} {fs : Filesystem}

theorem ObjectOf.verified {g : PlanGroupInput} {o : PlannedObject} (ho : ObjectOf g o) :
    o.key.identityVersion = 1 := by
  obtain ⟨m, -, hm⟩ := ho.mem_keys
  rw [← hm]
  exact m.verified

/-- A target on disk names the inode of an object of its own group. -/
theorem AcceptedPlan.target_object (h : AcceptedPlan groups plan)
    (hfs : ∀ o ∈ plan.objects, o.HeldBy fs) {p : Path} (hp : plan.IsTarget p) :
    ∃ g ∈ groups, ∃ t ∈ coveredOf g, t.1.path = p ∧ ∃ o ∈ plan.objects, ObjectOf g o ∧
      o.key = t.1.key ∧ fs.entries p = some o.key.id := by
  obtain ⟨a, ha, hat⟩ := List.mem_map.1 hp
  obtain ⟨g, hg, hact⟩ := h.actions a ha
  obtain ⟨t, ht, htarget, -, -, o, ho, hof, hkey⟩ := hact.covered
  have hpath : t.1.path = p := by rw [← htarget, hat]
  have hom := List.mem_of_getElem? ho
  refine ⟨g, hg, t, ht, hpath, o, hom, hof, hkey, ?_⟩
  refine (hfs o hom).members p ?_
  obtain ⟨-, -, htm, -⟩ := mem_coveredOf.1 ht
  rw [hof.members_eq]
  exact List.mem_map.2 ⟨t.1, List.mem_filter.2 ⟨htm, by simp [hkey]⟩, hpath⟩

/-- With disjoint keys, a target that names an object's inode is asked for by the object's own
    group, on the object's key. -/
theorem AcceptedPlan.target_of_names (h : AcceptedPlan groups plan) (hd : KeyDisjoint groups)
    (hfs : ∀ o ∈ plan.objects, o.HeldBy fs) {g : PlanGroupInput} (hg : g ∈ groups)
    {o : PlannedObject} (ho : o ∈ plan.objects) (hof : ObjectOf g o) {p : Path}
    (hname : p ∈ fs.names o.key.id) (hp : plan.IsTarget p) :
    ∃ t ∈ coveredOf g, t.1.path = p ∧ t.1.key = o.key := by
  obtain ⟨g', hg', t, ht, hpath, o', ho', hof', hkey', hentry⟩ := h.target_object hfs hp
  have hid : o.key.id = o'.key.id := by
    have hname' : fs.entries p = some o.key.id := hname
    rw [hentry] at hname'
    exact (Option.some.inj hname').symm
  obtain ⟨n, hn, hm⟩ := (hfs o ho).node
  obtain ⟨n', hn', hm'⟩ := (hfs o' ho').node
  have hkeys := PlanObjectKey.eq_of_measures hof.verified hof'.verified hid hn hn' hm hm'
  obtain ⟨m, hmem, hmk⟩ := hof.mem_keys
  obtain ⟨-, -, htm, -⟩ := mem_coveredOf.1 ht
  have hgg := hd.eq_of_key hg' hg htm hmem (by rw [hmk, ← hkey', hkeys])
  subst hgg
  exact ⟨t, ht, hpath, by rw [← hkey', hkeys]⟩

/-- The plan guarantees an object's bytes exactly when it removes its inode's every name. -/
theorem AcceptedPlan.guaranteed_iff (h : AcceptedPlan groups plan) (hd : KeyDisjoint groups)
    (hfs : ∀ o ∈ plan.objects, o.HeldBy fs) {o : PlannedObject} (ho : o ∈ plan.objects) :
    (o.coveredLinks ≠ 0 ∧ o.members.length ≤ o.coveredLinks ∧ o.links ≤ o.members.length) ↔
      plan.Frees fs o := by
  obtain ⟨g, hg, hof⟩ := h.objects o ho
  obtain ⟨-, hcovered⟩ := h.coveredLinks_spec hg hof
  have hheld := hfs o ho
  have hcard : (↑o.members.toFinset : Set Path).encard = o.members.length := by
    rw [Set.encard_coe_eq_coe_finsetCard, List.toFinset_card_of_nodup (h.nodup_members hg hof)]
  have hsub : (↑o.members.toFinset : Set Path) ⊆ fs.names o.key.id := by
    intro p hp
    exact hheld.members p (by simpa using hp)
  constructor
  · rintro ⟨-, hall, hlinks⟩ p hp
    -- as many members as names, so every name is a member
    have hle : (fs.names o.key.id).encard ≤ (↑o.members.toFinset : Set Path).encard := by
      rw [hheld.links, hcard]
      exact_mod_cast hlinks
    have heq := o.members.toFinset.finite_toSet.eq_of_subset_of_encard_le hsub hle
    rw [← heq] at hp
    exact hcovered.1 hall p (by simpa using hp)
  · intro hfree
    have hnames : fs.names o.key.id ⊆ ↑o.members.toFinset := by
      intro p hp
      obtain ⟨t, ht, hpath, hkey⟩ := h.target_of_names hd hfs hg ho hof hp (hfree p hp)
      obtain ⟨-, -, htm, -⟩ := mem_coveredOf.1 ht
      simp only [List.coe_toFinset, Set.mem_ofPred_eq, hof.members_eq]
      exact List.mem_map.2 ⟨t.1, List.mem_filter.2 ⟨htm, by simp [hkey]⟩, hpath⟩
    have hall : o.members.length ≤ o.coveredLinks :=
      hcovered.2 fun p hp => hfree p (hheld.members p hp)
    have hpos : o.members.length ≠ 0 := by
      intro hzero
      have := o.representative_eq
      rw [List.eq_nil_of_length_eq_zero hzero] at this
      cases this
    refine ⟨by omega, hall, ?_⟩
    have := Set.encard_le_encard hnames
    rw [hheld.links, hcard] at this
    exact_mod_cast this

open Classical in
theorem AcceptedPlan.guaranteedBytes_eq (h : AcceptedPlan groups plan) (hd : KeyDisjoint groups)
    (hfs : ∀ o ∈ plan.objects, o.HeldBy fs) :
    plan.summary.estimate.guaranteedBytes =
      ((plan.released fs).map fun o => o.key.size).sum := by
  rw [h.summary_ok.2.1, ActionPlan.released]
  have hpoint : ∀ o ∈ plan.objects, o.estimate.guaranteedBytes =
      if plan.Frees fs o then o.key.size else 0 := by
    intro o ho
    have hiff := h.guaranteed_iff hd hfs ho
    unfold PlannedObject.estimate PlannedObject.remainingInside PlannedObject.unobservedLinks
      PlannedObject.observedLinks
    by_cases hfree : plan.Frees fs o
    · obtain ⟨h₁, h₂, h₃⟩ := hiff.2 hfree
      rw [if_neg (by omega), if_neg (by omega), if_pos hfree]
      rfl
    · rw [if_neg hfree]
      split
      · rfl
      · rename_i hc
        split
        · rfl
        · rename_i hu
          exact absurd (hiff.1 ⟨by omega, by omega, by omega⟩) hfree
  generalize plan.objects = objects at hpoint ⊢
  induction objects with
  | nil => rfl
  | cons o os ih =>
    have ho := hpoint o List.mem_cons_self
    have ih := ih fun o ho => hpoint o (List.mem_cons_of_mem _ ho)
    rw [List.map_cons, List.sum_cons, ho, ih, List.filter_cons]
    split
    · rename_i hfree
      rw [if_pos (by simpa using hfree), List.map_cons, List.sum_cons]
    · rename_i hfree
      rw [if_neg (by simpa using hfree), Nat.zero_add]

end Disk

/-- **A plan promises exactly what the disk releases.**  Over a filesystem that holds every planned
    object with its recorded links, the guaranteed bytes are the sizes of the objects all of whose
    names are targets; every action's keeper pathname stays, with every name of its object; and no
    pathname is the target of two actions. -/
theorem guaranteedBytes_eq_released {scanId : Int} {groups : List PlanGroupInput}
    {plan : ActionPlan} {fs : Filesystem} (h : ActionPlan.tryNew scanId groups = .ok plan)
    (hd : KeyDisjoint groups) (hfs : ∀ o ∈ plan.objects, o.HeldBy fs) :
    plan.summary.estimate.guaranteedBytes = ((plan.released fs).map fun o => o.key.size).sum ∧
      (∀ a ∈ plan.actions, ¬ plan.IsTarget a.keeper ∧ ∃ o, plan.keeperObjectOf a = some o ∧
        a.keeper ∈ o.members ∧ ∀ p ∈ fs.names o.key.id, ¬ plan.IsTarget p) ∧
      (plan.actions.map PlanAction.target).Nodup := by
  have hp := ActionPlan.tryNew_ok h
  have hd' := (keyDisjoint_normalize groups).2 hd
  refine ⟨hp.guaranteedBytes_eq hd' hfs, fun a ha => ?_, hp.nodup_targets⟩
  obtain ⟨g, hg, hact⟩ := hp.actions a ha
  obtain ⟨k, hk, hkeeper, o, ho, hof, hkey⟩ := hact.keeper
  refine ⟨?_, o, ho, ?_, fun p hname htarget => ?_⟩
  · rw [hkeeper]
    exact hp.keeper_not_target hg hk
  · rw [hkeeper, hof.members_eq]
    exact List.mem_map.2
      ⟨k, List.mem_filter.2 ⟨(keeperOf_mem hk).1, by simp [hkey]⟩, rfl⟩
  · obtain ⟨t, ht, -, htk⟩ :=
      hp.target_of_names hd' hfs hg (List.mem_of_getElem? ho) hof hname htarget
    obtain ⟨k', hk', -, -, -, hne⟩ := mem_coveredOf.1 ht
    rw [hk] at hk'
    cases hk'
    exact hne (by rw [htk, hkey])

/-! ## A disk with two files -/

def sampleNode : Node :=
  { kind := .regular, content := [1, 1], uid := 0, gid := 0, mode := 420, atime := ⟨10, 0⟩
    mtime := ⟨10, 0⟩, ctime := ⟨10, 0⟩, xattrs := [], nlink := 1 }

/-- `/a` names inode 1 and `/b` names inode 9. -/
def sampleDisk : Filesystem where
  entries p :=
    if p = rootFile 97 isName_a then some ⟨7, 1⟩
    else if p = rootFile 98 isName_b then some ⟨7, 9⟩ else none
  nodes i := if i = ⟨7, 1⟩ ∨ i = ⟨7, 9⟩ then some sampleNode else none
  live p i h := by
    split at h
    · cases h; rfl
    · split at h
      · cases h; rfl
      · cases h

theorem sampleDisk_names : sampleDisk.names ⟨7, 1⟩ = {rootFile 97 isName_a} ∧
    sampleDisk.names ⟨7, 9⟩ = {rootFile 98 isName_b} := by
  have hne : rootFile 98 isName_b ≠ rootFile 97 isName_a := by decide
  constructor
  · ext p
    by_cases ha : p = rootFile 97 isName_a
    · simp [Filesystem.names, sampleDisk, ha]
    · by_cases hb : p = rootFile 98 isName_b <;> simp [Filesystem.names, sampleDisk, ha, hb, hne]
  · ext p
    by_cases ha : p = rootFile 97 isName_a
    · simp [Filesystem.names, sampleDisk, ha, hne.symm]
    · by_cases hb : p = rootFile 98 isName_b <;> simp [Filesystem.names, sampleDisk, ha, hb, hne]

theorem guaranteedBytes_samplePair : ∃ plan, ActionPlan.tryNew 1 samplePair = .ok plan ∧
    plan.summary.estimate.guaranteedBytes =
      ((plan.released sampleDisk).map fun o => o.key.size).sum ∧
    (∀ a ∈ plan.actions, ¬ plan.IsTarget a.keeper ∧ ∃ o, plan.keeperObjectOf a = some o ∧
      a.keeper ∈ o.members ∧ ∀ p ∈ sampleDisk.names o.key.id, ¬ plan.IsTarget p) ∧
    (plan.actions.map PlanAction.target).Nodup := by
  have hrun : (match ActionPlan.tryNew 1 samplePair with
      | .ok plan => plan.objects.map fun o => (o.key, o.members, o.links)
      | .error _ => []) =
        [(sampleKey 1, [rootFile 97 isName_a], 1), (sampleKey 9, [rootFile 98 isName_b], 1)] := by decide
  cases h : ActionPlan.tryNew 1 samplePair with
  | error e => rw [h] at hrun; cases hrun
  | ok plan =>
    rw [h] at hrun
    refine ⟨plan, rfl, guaranteedBytes_eq_released h (by simp [KeyDisjoint, samplePair]) ?_⟩
    intro o ho
    have hmem : (o.key, o.members, o.links) ∈
        plan.objects.map fun o => (o.key, o.members, o.links) := List.mem_map.2 ⟨o, ho, rfl⟩
    simp only [hrun, List.mem_cons, List.not_mem_nil, or_false, Prod.mk.injEq] at hmem
    rcases hmem with ⟨hkey, hmembers, hlinks⟩ | ⟨hkey, hmembers, hlinks⟩
    · refine ⟨⟨?_, fun p hp => ?_⟩, sampleNode, ?_, ?_⟩
      · rw [hkey, hlinks]
        simp [PlanObjectKey.id, sampleKey, sampleDisk_names.1]
      · rw [hmembers, List.mem_singleton] at hp
        rw [hkey, hp]; rfl
      · rw [hkey]; rfl
      · rw [hkey]; exact ⟨rfl, rfl, rfl⟩
    · refine ⟨⟨?_, fun p hp => ?_⟩, sampleNode, ?_, ?_⟩
      · rw [hkey, hlinks]
        simp [PlanObjectKey.id, sampleKey, sampleDisk_names.2]
      · rw [hmembers, List.mem_singleton] at hp
        rw [hkey, hp]; rfl
      · rw [hkey]; rfl
      · rw [hkey]; exact ⟨rfl, rfl, rfl⟩

/-! ## One inode under two keys -/

/-- `/a` is kept and `/b` is deleted, two names of inode 1; `/c` and `/d`, two names of inode 9, are
    both deleted.  `/b` and `/d` were measured after a write. -/
def restamped : List PlanGroupInput :=
  [⟨⟨1, 0, 5⟩, "aa",
    [sampleMember 97 isName_a 1 2 .keeper,
      ⟨rootFile 98 isName_b, { sampleKey 1 with mtime := 20 }, 2, some (.act .delete), rfl⟩,
      sampleMember 99 isName_c 9 2 (.act .delete),
      ⟨rootFile 100 isName_d, { sampleKey 9 with mtime := 20 }, 2, some (.act .delete), rfl⟩]⟩]

/-- The disk of those four pathnames. -/
def linkedDisk : Filesystem where
  entries p :=
    if p = rootFile 97 isName_a ∨ p = rootFile 98 isName_b then some ⟨7, 1⟩
    else if p = rootFile 99 isName_c ∨ p = rootFile 100 isName_d then some ⟨7, 9⟩ else none
  nodes i := if i = ⟨7, 1⟩ ∨ i = ⟨7, 9⟩ then some { sampleNode with nlink := 2 } else none
  live p i h := by
    split at h
    · cases h; rfl
    · split at h
      · cases h; rfl
      · cases h

theorem linkedDisk_names :
    linkedDisk.names ⟨7, 1⟩ = {rootFile 97 isName_a, rootFile 98 isName_b} ∧
      linkedDisk.names ⟨7, 9⟩ = {rootFile 99 isName_c, rootFile 100 isName_d} := by
  have hapart : ∀ p, p = rootFile 99 isName_c ∨ p = rootFile 100 isName_d →
      ¬(p = rootFile 97 isName_a ∨ p = rootFile 98 isName_b) := by
    rintro p (rfl | rfl) <;> decide
  constructor
  · ext p
    show (if _ then _ else _) = some _ ↔ p = rootFile 97 isName_a ∨ p = rootFile 98 isName_b
    split
    · rename_i h; exact iff_of_true rfl h
    · rename_i h; refine iff_of_false ?_ h; split <;> simp
  · ext p
    show (if _ then _ else _) = some _ ↔ p = rootFile 99 isName_c ∨ p = rootFile 100 isName_d
    split
    · rename_i h; exact iff_of_false (by simp) fun h' => hapart p h' h
    · split
      · rename_i h; exact iff_of_true rfl h
      · rename_i h; exact iff_of_false (by simp) h

theorem not_guaranteedBytes_eq_released : ∃ plan, ActionPlan.tryNew 1 restamped = .ok plan ∧
    KeyDisjoint restamped ∧ (∀ o ∈ plan.objects, o.NamedBy linkedDisk) ∧
    plan.summary.estimate.guaranteedBytes <
      ((plan.released linkedDisk).map fun o => o.key.size).sum ∧
    ∃ a ∈ plan.actions, ∃ o, plan.keeperObjectOf a = some o ∧
      ∃ p ∈ linkedDisk.names o.key.id, plan.IsTarget p := by
  have hrun : (match ActionPlan.tryNew 1 restamped with
      | .ok plan => decide (plan.objects.map (fun o => (o.key, o.members, o.links)) =
            [(sampleKey 1, [rootFile 97 isName_a], 2),
              ({ sampleKey 1 with mtime := 20 }, [rootFile 98 isName_b], 2),
              (sampleKey 9, [rootFile 99 isName_c], 2),
              ({ sampleKey 9 with mtime := 20 }, [rootFile 100 isName_d], 2)] ∧
          plan.summary.estimate.guaranteedBytes = 0 ∧
          plan.actions.map PlanAction.target =
            [rootFile 98 isName_b, rootFile 99 isName_c, rootFile 100 isName_d] ∧
          ∃ a ∈ plan.actions, ∃ o ∈ plan.keeperObjectOf a, o.key = sampleKey 1)
      | .error _ => false) = true := by decide
  cases h : ActionPlan.tryNew 1 restamped with
  | error e => rw [h] at hrun; cases hrun
  | ok plan =>
    rw [h] at hrun
    obtain ⟨hobjects, hzero, htargets, a, ha, o, ho, hkey⟩ := of_decide_eq_true hrun
    refine ⟨plan, rfl, by simp [KeyDisjoint, restamped], fun o ho => ?_, ?_,
      a, ha, o, ho, rootFile 98 isName_b, ?_, ?_⟩
    · have hmem : (o.key, o.members, o.links) ∈
          plan.objects.map fun o => (o.key, o.members, o.links) := List.mem_map.2 ⟨o, ho, rfl⟩
      have hpair : ∀ p q : Path, p ≠ q → ({p, q} : Set Path).encard = (2 : Nat) :=
        fun p q hne => Set.encard_pair hne
      simp only [hobjects, List.mem_cons, List.not_mem_nil, or_false, Prod.mk.injEq] at hmem
      rcases hmem with ⟨hk, hm, hl⟩ | ⟨hk, hm, hl⟩ | ⟨hk, hm, hl⟩ | ⟨hk, hm, hl⟩
      all_goals
        refine ⟨?_, fun p hp => ?_⟩
        · rw [hk, hl]
          simp only [PlanObjectKey.id, sampleKey, linkedDisk_names]
          exact hpair _ _ (by decide)
        · rw [hm, List.mem_singleton] at hp
          rw [hk, hp]
          rfl
    · -- both names of inode 9 are targets
      have hmem : (sampleKey 9, [rootFile 99 isName_c], 2) ∈
          plan.objects.map fun o => (o.key, o.members, o.links) := by rw [hobjects]; decide
      obtain ⟨o, ho, hok⟩ := List.mem_map.1 hmem
      have hkey : o.key = sampleKey 9 := congrArg Prod.fst hok
      have hfree : o ∈ plan.released linkedDisk := by
        simp only [ActionPlan.released, List.mem_filter, decide_eq_true_eq]
        refine ⟨ho, fun p hp => ?_⟩
        rw [hkey] at hp
        unfold ActionPlan.IsTarget
        rw [htargets]
        simp only [PlanObjectKey.id, sampleKey, linkedDisk_names] at hp
        rcases hp with rfl | rfl <;> simp
      have hle := List.single_le_sum (fun _ _ => Nat.zero_le _) _
        (List.mem_map_of_mem (f := fun o : PlannedObject => o.key.size) hfree)
      rw [hkey] at hle
      rw [hzero]
      exact lt_of_lt_of_le (by decide : 0 < (sampleKey 9).size) hle
    · rw [hkey]
      rfl
    · unfold ActionPlan.IsTarget
      rw [htargets]
      exact List.mem_cons_self

end DedupCommando
