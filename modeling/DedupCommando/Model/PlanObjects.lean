import DedupCommando.Model.PlanFacts

/-!
# One allocation, one object

`check_global_evidence` refuses one object key under two digests, but it recognises a key it has
met before by its digest: a key in two groups that share a digest passes.

* `ActionPlan.RepresentsOnce` — no two objects carry one key, the ceiling counts every covered key
  once, and no action removes a pathname of a keeper.
* `representsOnce_iff` — an accepted plan has it exactly when no key occurs in two groups.
* `not_representsOnce` — three ranks of one digest around one inode, accepted.
-/

set_option autoImplicit false

namespace DedupCommando

open Grouping

/-- The distinct keys that have a covered pathname. -/
def ActionPlan.coveredKeys (plan : ActionPlan) : List PlanObjectKey :=
  ((plan.objects.filter fun o => decide (o.coveredLinks > 0)).map PlannedObject.key).dedup

/-- Each physical allocation is represented once. -/
structure ActionPlan.RepresentsOnce (plan : ActionPlan) : Prop where
  keys : (plan.objects.map PlannedObject.key).Nodup
  ceiling : plan.summary.estimate.ceilingBytes ≤ (plan.coveredKeys.map PlanObjectKey.size).sum
  keeper : ∀ a ∈ plan.actions, ∀ t, plan.targetObjectOf a = some t →
    ∀ o ∈ plan.objects, o.role = .keeper → t.key ≠ o.key

/-- With disjoint keys, two groups that hold one key are one group. -/
theorem KeyDisjoint.eq_of_key {groups : List PlanGroupInput} (hd : KeyDisjoint groups)
    {g h : PlanGroupInput} (hg : g ∈ groups) (hh : h ∈ groups) {m n : PlanMemberEvidence}
    (hm : m ∈ g.members) (hn : n ∈ h.members) (hkey : m.key = n.key) : g = h := by
  by_contra hne
  have : Std.Symm fun g h : PlanGroupInput =>
      ∀ m ∈ g.members, ∀ n ∈ h.members, m.key ≠ n.key :=
    ⟨fun _ _ hgh m hm n hn heq => hgh n hn m hm heq.symm⟩
  exact hd.forall hg hh hne m hm n hn hkey

theorem AcceptedPlan.nodup_keys_iff {groups : List PlanGroupInput} {plan : ActionPlan}
    (h : AcceptedPlan groups plan) :
    (plan.objects.map PlannedObject.key).Nodup ↔ KeyDisjoint groups := by
  rw [h.keys.nodup_iff, nodup_flatMap_keys _ _ fun g _ => nodup_keysOf _ _]
  unfold KeyDisjoint
  constructor
  · intro hp
    refine hp.imp fun {g k} hgk m hm n hn heq => ?_
    exact hgk m.key (mem_keysOf.2 ⟨m, hm, rfl⟩) (mem_keysOf.2 ⟨n, hn, heq.symm⟩)
  · intro hp
    refine hp.imp fun {g k} hgk key hg hk => ?_
    obtain ⟨m, hm, hmk⟩ := mem_keysOf.1 hg
    obtain ⟨n, hn, hnk⟩ := mem_keysOf.1 hk
    exact hgk m hm n hn (hmk.trans hnk.symm)

theorem PlannedObject.ceilingBytes_le (o : PlannedObject) :
    o.estimate.ceilingBytes ≤ if o.coveredLinks > 0 then o.key.size else 0 := by
  unfold estimate
  split
  · simp [ReclaimEstimate.exact]
  · rename_i hc
    have hpos : o.coveredLinks > 0 := by omega
    rw [if_pos hpos]
    split <;> simp [ReclaimEstimate.exact, ReclaimEstimate.upperBound]

/-- With one object per key the ceiling counts no covered key twice. -/
theorem AcceptedPlan.ceiling_le {groups : List PlanGroupInput} {plan : ActionPlan}
    (h : AcceptedPlan groups plan) (hkeys : (plan.objects.map PlannedObject.key).Nodup) :
    plan.summary.estimate.ceilingBytes ≤ (plan.coveredKeys.map PlanObjectKey.size).sum := by
  have hcovered : ((plan.objects.filter fun o => decide (o.coveredLinks > 0)).map
      PlannedObject.key).Nodup := hkeys.sublist (List.filter_sublist.map _)
  rw [h.summary_ok.2.2.1, ActionPlan.coveredKeys, hcovered.dedup, List.map_map]
  clear hkeys hcovered h
  induction plan.objects with
  | nil => simp
  | cons o os ih =>
    have ho := o.ceilingBytes_le
    simp only [List.map_cons, List.sum_cons, List.filter_cons]
    by_cases hc : o.coveredLinks > 0
    · rw [if_pos hc] at ho
      rw [if_pos (by simpa using hc), List.map_cons, List.sum_cons]
      exact Nat.add_le_add ho ih
    · rw [if_neg hc] at ho
      rw [if_neg (by simpa using hc)]
      omega

/-- With disjoint keys no action removes a pathname of an object some group keeps. -/
theorem AcceptedPlan.target_ne_keeper {groups : List PlanGroupInput} {plan : ActionPlan}
    (h : AcceptedPlan groups plan) (hd : KeyDisjoint groups) {a : PlanAction}
    (ha : a ∈ plan.actions) {t : PlannedObject} (ht : plan.targetObjectOf a = some t)
    {o : PlannedObject} (ho : o ∈ plan.objects) (hrole : o.role = .keeper) : t.key ≠ o.key := by
  intro heq
  obtain ⟨g, hg, hact⟩ := h.actions a ha
  obtain ⟨c, hc, -, -, -, t', ht', -, htk⟩ := hact.covered
  have htt : t = t' := by
    unfold ActionPlan.targetObjectOf at ht
    rw [ht] at ht'
    exact Option.some.inj ht'
  obtain ⟨k, hk, hcm, -, -, hck⟩ := mem_coveredOf.1 hc
  obtain ⟨g', hg', hof⟩ := h.objects o ho
  obtain ⟨k', hk', hkk⟩ := Option.map_eq_some_iff.1 (hof.role.1 hrole)
  have hkey : c.1.key = k'.key := by rw [hkk, ← heq, htt, htk]
  have hgg : g = g' := hd.eq_of_key hg hg' hcm (keeperOf_mem hk').1 hkey
  subst hgg
  rw [hk] at hk'
  cases hk'
  exact hck hkey

/-- **An accepted plan represents each allocation once exactly when no object key occurs among the
    members of two groups.** -/
theorem representsOnce_iff {scanId : Int} {groups : List PlanGroupInput} {plan : ActionPlan}
    (h : ActionPlan.tryNew scanId groups = .ok plan) :
    plan.RepresentsOnce ↔ KeyDisjoint groups := by
  have hp := ActionPlan.tryNew_ok h
  rw [← keyDisjoint_normalize]
  constructor
  · intro hr
    exact hp.nodup_keys_iff.1 hr.keys
  · intro hd
    have hkeys := hp.nodup_keys_iff.2 hd
    exact ⟨hkeys, hp.ceiling_le hkeys, fun a ha t ht o ho => hp.target_ne_keeper hd ha ht ho⟩

/-! ## Three ranks around one inode -/

theorem isName_a : isName [97] = true := rfl

theorem isName_c : isName [99] = true := rfl

theorem isName_d : isName [100] = true := rfl

theorem isName_b : isName [98] = true := rfl

/-- A pathname in the root directory. -/
def rootFile (letter : Byte) (h : isName [letter] = true) : Path :=
  [.rootDir, .normal ⟨[letter], h⟩]

def sampleKey (inode : Nat) : PlanObjectKey := ⟨7, inode, 2, 10, 0, 10, 0, 1⟩

def sampleMember (letter : Byte) (h : isName [letter] = true) (inode links : Nat)
    (mark : MarkIntent) : PlanMemberEvidence :=
  ⟨rootFile letter h, sampleKey inode, links, some mark, rfl⟩

/-- One group: `/a` is kept and `/b` is deleted. -/
def samplePair : List PlanGroupInput :=
  [⟨⟨1, 0, 5⟩, "aa",
    [sampleMember 97 isName_a 1 1 .keeper, sampleMember 98 isName_b 9 1 (.act .delete)]⟩]

/-- Inode 9 has three pathnames: a target of rank 0, a target of rank 1, and rank 2's keeper. -/
def sharedInode : List PlanGroupInput :=
  [⟨⟨1, 0, 5⟩, "aa",
      [sampleMember 97 isName_a 1 1 .keeper, sampleMember 98 isName_b 9 3 (.act .delete)]⟩,
    ⟨⟨1, 1, 5⟩, "aa",
      [sampleMember 99 rfl 2 1 .keeper, sampleMember 100 rfl 9 3 (.act .delete)]⟩,
    ⟨⟨1, 2, 5⟩, "aa",
      [sampleMember 101 rfl 9 3 .keeper, sampleMember 102 rfl 3 1 (.act .delete)]⟩]

/-- One key under one digest in several ranks is accepted, and nothing of the property is left. -/
theorem not_representsOnce : ∃ plan, ActionPlan.tryNew 1 sharedInode = .ok plan ∧
    ¬ (plan.objects.map PlannedObject.key).Nodup ∧
    ¬ plan.summary.estimate.ceilingBytes ≤ (plan.coveredKeys.map PlanObjectKey.size).sum ∧
    (∃ a ∈ plan.actions, ∃ t, plan.targetObjectOf a = some t ∧
      ∃ o ∈ plan.objects, o.role = .keeper ∧ t.key = o.key) ∧ ¬ plan.RepresentsOnce := by
  have hrun : (match ActionPlan.tryNew 1 sharedInode with
      | .ok plan => decide (¬ (plan.objects.map PlannedObject.key).Nodup ∧
          ¬ plan.summary.estimate.ceilingBytes ≤ (plan.coveredKeys.map PlanObjectKey.size).sum ∧
          ∃ a ∈ plan.actions, ∃ t ∈ plan.targetObjectOf a,
            ∃ o ∈ plan.objects, o.role = .keeper ∧ t.key = o.key)
      | .error _ => false) = true := by decide
  cases h : ActionPlan.tryNew 1 sharedInode with
  | error e => rw [h] at hrun; cases hrun
  | ok plan =>
    rw [h] at hrun
    obtain ⟨hkeys, hceiling, hkeeper⟩ := of_decide_eq_true hrun
    exact ⟨plan, rfl, hkeys, hceiling, hkeeper, fun hr => hkeys hr.keys⟩

/-- The same three groups, read through the characterisation. -/
theorem representsOnce_iff_sharedInode : ∃ plan,
    ActionPlan.tryNew 1 sharedInode = .ok plan ∧
      (plan.RepresentsOnce ↔ KeyDisjoint sharedInode) := by
  cases h : ActionPlan.tryNew 1 sharedInode with
  | error e =>
    have hrun : (ActionPlan.tryNew 1 sharedInode).isOk = true := by decide
    rw [h] at hrun; cases hrun
  | ok plan => exact ⟨plan, rfl, representsOnce_iff h⟩

end DedupCommando
