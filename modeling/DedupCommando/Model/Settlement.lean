import DedupCommando.Model.Realize

/-!
# What a batch leaves of the marks

`settle_marks` of `model/plan.rs` on an accepted plan.  A plan remembers the marked members of a
group by their index and the group of an action by its index; both indices are into the groups as
`tryNew` normalised them.

* `Placed` — where an action's target and keeper stand (`PlanFold.groups_placed`).
* `MarksRemembered` — what a plan remembers of the marks (`ActionPlan.tryNew_marks`).
* `Touched` — a group with an action that ran.
* `mem_spent`, `nodup_spent`, `leftMarked_eq` — what is spent and what is counted.
-/

set_option autoImplicit false

namespace DedupCommando

/-! ## The group of an action -/

/-- The action's target and keeper are members of the group it points to, marked for it. -/
structure Placed (groups : List PlanGroupInput) (a : PlanAction) : Prop where
  group : ∃ g, groups[a.group]? = some g ∧
    (∃ t ∈ g.members, t.path = a.target ∧ t.mark = some (.act a.kind)) ∧
    ∃ k ∈ g.members, k.path = a.keeper ∧ k.mark = some .keeper

theorem Placed.append {groups : List PlanGroupInput} {a : PlanAction} (h : Placed groups a)
    (more : List PlanGroupInput) : Placed (groups ++ more) a := by
  obtain ⟨g, hg, hmembers⟩ := h.group
  have hlt := (List.getElem?_eq_some_iff.1 hg).1
  exact ⟨g, by rw [List.getElem?_append_left hlt]; exact hg, hmembers⟩

theorem PlanMemberEvidence.mark_of_action {m : PlanMemberEvidence} {kind : ActionKind}
    (h : m.action = some kind) : m.mark = some (.act kind) := by
  unfold PlanMemberEvidence.action at h
  split at h
  · rename_i kind' hmark
    cases h
    exact hmark
  · cases h

theorem foldTargets_index (group : PlanGroupInput) (index size first : Nat)
    (keeper : PlanMemberEvidence) (covered : List (PlanMemberEvidence × ActionKind)) :
    ∀ fold : PlanFold, ∃ new,
      (covered.foldl (PlanFold.target group index size first keeper) fold).actions =
        fold.actions ++ new ∧ ∀ a ∈ new, a.group = index := by
  induction covered with
  | nil => exact fun fold => ⟨[], by simp, by simp⟩
  | cons t covered ih =>
    intro fold
    obtain ⟨new, hnew, hgroup⟩ := ih (PlanFold.target group index size first keeper fold t)
    rw [List.foldl_cons, hnew]
    unfold PlanFold.target
    split
    · exact ⟨new, rfl, hgroup⟩
    · refine ⟨_ :: new, by rw [List.append_assoc]; rfl, ?_⟩
      intro a ha
      rcases List.mem_cons.1 ha with rfl | ha
      · rfl
      · exact hgroup a ha

theorem PlanFold.group_index {index : Nat} {group : PlanGroupInput} {fold fold' : PlanFold}
    (h : PlanFold.group index group fold = .ok fold') :
    ∃ new, fold'.actions = fold.actions ++ new ∧ ∀ a ∈ new, a.group = index := by
  unfold PlanFold.group at h
  split at h
  · cases h
  split at h
  · cases h
  split at h
  · cases h
  · split at h
    · cases h
    · cases h; exact ⟨[], by simp, by simp⟩
  · cases h
  · simp only at h
    split at h
    · cases h
    · cases h
      apply foldTargets_index

/-- One pass of the group loop points its actions at the group it folded. -/
theorem PlanFold.group_placed {group : PlanGroupInput} {done : List PlanGroupInput}
    {fold fold' : PlanFold} (h : PlanFold.group done.length group fold = .ok fold')
    (hcross : fold'.crossing = none) :
    ∃ new, fold'.actions = fold.actions ++ new ∧ ∀ a ∈ new, Placed (done ++ [group]) a := by
  obtain ⟨-, new, hnew, -, hactions⟩ := (PlanFold.group_ok h).actions hcross
  obtain ⟨new', hnew', hindex⟩ := PlanFold.group_index h
  have hsame : new' = new := List.append_cancel_left (hnew'.symm.trans hnew)
  subst hsame
  refine ⟨new', hnew', fun a ha => ⟨group, ?_, ?_, ?_⟩⟩
  · rw [hindex a ha]; simp
  · obtain ⟨t, ht, htarget, hkind, -⟩ := (hactions a ha).covered
    obtain ⟨k, -, hm, -, haction, -⟩ := mem_coveredOf.1 ht
    exact ⟨t.1, hm, htarget.symm, by rw [hkind]; exact PlanMemberEvidence.mark_of_action haction⟩
  · obtain ⟨k, hk, hkeeper, -⟩ := (hactions a ha).keeper
    obtain ⟨hm, hkept⟩ := keeperOf_mem hk
    exact ⟨k, hm, hkeeper.symm, of_decide_eq_true hkept⟩

theorem PlanFold.groups_placed {groups : List PlanGroupInput} :
    ∀ {done : List PlanGroupInput} {fold fold' : PlanFold},
      (fold.crossing = none → ∀ a ∈ fold.actions, Placed done a) →
      PlanFold.groups done.length fold groups = .ok fold' → fold'.crossing = none →
      ∀ a ∈ fold'.actions, Placed (done ++ groups) a := by
  induction groups with
  | nil =>
    intro done fold fold' hplaced h hcross
    cases h
    rw [List.append_nil]
    exact hplaced hcross
  | cons g gs ih =>
    intro done fold fold' hplaced h hcross
    unfold PlanFold.groups at h
    split at h
    · cases h
    rename_i fold₁ hstep
    have hlength : done.length + 1 = (done ++ [g]).length := by simp
    rw [hlength] at h
    have hplaced' : fold₁.crossing = none → ∀ a ∈ fold₁.actions, Placed (done ++ [g]) a := by
      intro hcross₁ a ha
      obtain ⟨new, hnew, hnewPlaced⟩ := PlanFold.group_placed hstep hcross₁
      rw [hnew] at ha
      rcases List.mem_append.1 ha with ha | ha
      · exact (hplaced ((PlanFold.group_ok hstep).actions hcross₁).1 a ha).append [g]
      · exact hnewPlaced a ha
    have hrest := ih hplaced' h hcross
    rw [List.append_assoc] at hrest
    exact hrest

/-- What an accepted plan remembers of the marks, over the normalised input. -/
structure MarksRemembered (groups : List PlanGroupInput) (plan : ActionPlan) : Prop where
  witness : plan.witness.groups.map GroupWitness.members =
    groups.map fun g => g.members.map (·.path)
  marks : plan.groupMarks = groups.map ActionPlan.marksOf
  placed : ∀ a ∈ plan.actions, Placed groups a

theorem ActionPlan.tryNew_marks {scanId : Int} {groups : List PlanGroupInput} {plan : ActionPlan}
    (h : ActionPlan.tryNew scanId groups = .ok plan) :
    MarksRemembered (ActionPlan.normalize groups) plan := by
  unfold ActionPlan.tryNew at h
  split at h
  · cases h
  simp only at h
  split at h
  · cases h
  split at h
  · cases h
  split at h
  · cases h
  rename_i fold hfold
  unfold ActionPlan.finish at h
  split at h
  · cases h
  rename_i hcross
  split at h
  · cases h
  split at h
  · cases h
  cases h
  refine ⟨?_, rfl, ?_⟩
  · simp [ActionPlan.witnessFrom, Function.comp_def]
  · have hstart : PlanFold.empty.crossing = none → ∀ a ∈ PlanFold.empty.actions, Placed [] a := by
      intro _ a ha
      cases ha
    simpa using PlanFold.groups_placed hstart hfold hcross

/-! ## The groups a batch touched -/

/-- An action on a member of `g` ran. -/
def ActionPlan.Touched (plan : ActionPlan) (ran : List Bool) (g : PlanGroupInput) : Prop :=
  ∃ i a, plan.actions[i]? = some a ∧ ran.getD i false = true ∧ a.target ∈ g.members.map (·.path)

/-- The indices of the groups with an action that ran. -/
def ActionPlan.changed (plan : ActionPlan) (ran : List Bool) : List Nat :=
  (((plan.actions.zipIdx.filter fun a => ran.getD a.2 false).map
    fun a => a.1.group).dedup).insertionSort (· ≤ ·)

/-- The actions that did not run. -/
def ActionPlan.idle (plan : ActionPlan) (ran : List Bool) : List (PlanAction × Nat) :=
  plan.actions.zipIdx.filter fun a => !ran.getD a.2 false

/-- The pathnames of a group that carried a mark. -/
def markedOf (g : PlanGroupInput) : List Path :=
  (g.members.filter fun m => m.mark.isSome).map (·.path)

theorem mem_markedOf {g : PlanGroupInput} {p : Path} :
    p ∈ markedOf g ↔ ∃ m ∈ g.members, m.mark.isSome = true ∧ m.path = p := by
  simp only [markedOf, List.mem_map, List.mem_filter, and_assoc]

/-- Reading the marked indices of a group back gives its marked pathnames. -/
theorem filterMap_marksOf (g : PlanGroupInput) :
    (ActionPlan.marksOf g).filterMap (fun i => (g.members.map (·.path))[i]?) = markedOf g := by
  unfold ActionPlan.marksOf markedOf
  rw [List.filterMap_map]
  have hread : ∀ m ∈ g.members.zipIdx.filter fun m => m.1.mark.isSome,
      ((fun i => (g.members.map (·.path))[i]?) ∘ Prod.snd) m = some m.1.path := by
    intro m hm
    have := List.mem_zipIdx_iff_getElem?.1 (List.mem_filter.1 hm).1
    simp [this]
  rw [List.filterMap_congr hread]
  have hfilter : ∀ (l : List PlanMemberEvidence) (k : Nat),
      (l.zipIdx k).filterMap (fun m => if m.1.mark.isSome then some m.1.path else none) =
        (l.filter fun m => m.mark.isSome).map (·.path) := by
    intro l
    induction l with
    | nil => intro k; rfl
    | cons m l ih =>
      intro k
      rw [List.zipIdx_cons, List.filterMap_cons]
      cases hmark : m.mark.isSome
      · simp [hmark, ih]
      · simp [hmark, ih]
  rw [← hfilter g.members 0, List.filterMap_filter]

namespace MarksRemembered

variable {groups : List PlanGroupInput} {plan : ActionPlan} {ran : List Bool}

theorem spent_eq (h : MarksRemembered groups plan) (ran : List Bool) :
    (plan.settleMarks ran).spent =
      (plan.changed ran).flatMap fun i => ((groups[i]?).map markedOf).getD [] := by
  unfold ActionPlan.settleMarks ActionPlan.changed
  simp only
  congr 1
  funext i
  have hwitness : (plan.witness.groups[i]?).map GroupWitness.members =
      (groups[i]?).map fun g => g.members.map (·.path) := by
    rw [← List.getElem?_map, h.witness, List.getElem?_map]
  rw [hwitness, h.marks, List.getElem?_map]
  cases groups[i]? with
  | none => rfl
  | some g =>
    simp only [Option.map_some, Option.getD_some]
    exact filterMap_marksOf g

theorem mem_changed {i : Nat} :
    i ∈ plan.changed ran ↔
      ∃ k a, plan.actions[k]? = some a ∧ ran.getD k false = true ∧ a.group = i := by
  unfold ActionPlan.changed
  rw [(List.perm_insertionSort _ _).mem_iff, List.mem_dedup, List.mem_map]
  constructor
  · rintro ⟨⟨a, k⟩, hm, rfl⟩
    obtain ⟨hm, hran⟩ := List.mem_filter.1 hm
    exact ⟨k, a, List.mem_zipIdx_iff_getElem?.1 hm, hran, rfl⟩
  · rintro ⟨k, a, ha, hran, rfl⟩
    exact ⟨(a, k), List.mem_filter.2 ⟨List.mem_zipIdx_iff_getElem?.2 ha, hran⟩, rfl⟩

theorem nodup_changed : (plan.changed ran).Nodup := by
  unfold ActionPlan.changed
  exact (List.perm_insertionSort _ _).nodup_iff.2 (List.nodup_dedup _)

/-- No pathname stands in two groups. -/
theorem index_unique
    (hpaths : (groups.flatMap fun g => g.members.map PlanMemberEvidence.path).Nodup)
    {i j : Nat} {g g' : PlanGroupInput} {p : Path} (hg : groups[i]? = some g)
    (hg' : groups[j]? = some g') (hp : p ∈ g.members.map (·.path))
    (hp' : p ∈ g'.members.map (·.path)) : i = j := by
  obtain ⟨hi, hgi⟩ := List.getElem?_eq_some_iff.1 hg
  obtain ⟨hj, hgj⟩ := List.getElem?_eq_some_iff.1 hg'
  have hdisjoint := (List.nodup_flatMap.1 hpaths).2
  rw [List.pairwise_iff_getElem] at hdisjoint
  by_contra hne
  rcases Nat.lt_or_gt_of_ne hne with hlt | hlt
  · exact hdisjoint i j hi hj hlt (by rw [hgi]; exact hp) (by rw [hgj]; exact hp')
  · exact hdisjoint j i hj hi hlt (by rw [hgj]; exact hp') (by rw [hgi]; exact hp)

theorem touched_iff (h : MarksRemembered groups plan)
    (hpaths : (groups.flatMap fun g => g.members.map PlanMemberEvidence.path).Nodup)
    {i : Nat} {g : PlanGroupInput} (hg : groups[i]? = some g) :
    plan.Touched ran g ↔ i ∈ plan.changed ran := by
  rw [mem_changed]
  constructor
  · rintro ⟨k, a, ha, hran, htarget⟩
    obtain ⟨g', hg', ⟨t, ht, htp, -⟩, -⟩ := (h.placed a (List.mem_of_getElem? ha)).group
    have htarget' : a.target ∈ g'.members.map (·.path) := htp ▸ List.mem_map_of_mem ht
    exact ⟨k, a, ha, hran, index_unique hpaths hg' hg htarget' htarget⟩
  · rintro ⟨k, a, ha, hran, rfl⟩
    obtain ⟨g', hg', ⟨t, ht, htp, -⟩, -⟩ := (h.placed a (List.mem_of_getElem? ha)).group
    have hsame : g' = g := Option.some.inj (hg'.symm.trans hg)
    subst hsame
    exact ⟨k, a, ha, hran, htp ▸ List.mem_map_of_mem ht⟩

theorem mem_spent (h : MarksRemembered groups plan)
    (hpaths : (groups.flatMap fun g => g.members.map PlanMemberEvidence.path).Nodup) {p : Path} :
    p ∈ (plan.settleMarks ran).spent ↔
      ∃ g ∈ groups, plan.Touched ran g ∧ ∃ m ∈ g.members, m.mark.isSome = true ∧ m.path = p := by
  rw [h.spent_eq, List.mem_flatMap]
  constructor
  · rintro ⟨i, hi, hp⟩
    cases hg : groups[i]? with
    | none => rw [hg] at hp; cases hp
    | some g =>
      rw [hg] at hp
      exact ⟨g, List.mem_of_getElem? hg, (h.touched_iff hpaths hg).2 hi, mem_markedOf.1 hp⟩
  · rintro ⟨g, hgm, htouched, hm⟩
    obtain ⟨i, hg⟩ := List.getElem?_of_mem hgm
    refine ⟨i, (h.touched_iff hpaths hg).1 htouched, ?_⟩
    rw [hg]
    exact mem_markedOf.2 hm

theorem nodup_spent (h : MarksRemembered groups plan)
    (hpaths : (groups.flatMap fun g => g.members.map PlanMemberEvidence.path).Nodup) :
    (plan.settleMarks ran).spent.Nodup := by
  rw [h.spent_eq, List.nodup_flatMap]
  have hsub : ∀ g : PlanGroupInput, (markedOf g).Sublist (g.members.map (·.path)) :=
    fun g => List.filter_sublist.map _
  constructor
  · intro i _
    cases hg : groups[i]? with
    | none => exact List.nodup_nil
    | some g =>
      exact ((List.nodup_flatMap.1 hpaths).1 g (List.mem_of_getElem? hg)).sublist (hsub g)
  · refine nodup_changed.imp fun {i j} hne => ?_
    rw [Function.onFun, List.disjoint_left]
    intro p hp hp'
    cases hg : groups[i]? with
    | none => rw [hg] at hp; cases hp
    | some g =>
      cases hg' : groups[j]? with
      | none => rw [hg'] at hp'; cases hp'
      | some g' =>
        rw [hg] at hp
        rw [hg'] at hp'
        exact hne (index_unique hpaths hg hg' ((hsub g).subset hp) ((hsub g').subset hp'))

theorem leftMarked_eq (h : MarksRemembered groups plan)
    (hpaths : (groups.flatMap fun g => g.members.map PlanMemberEvidence.path).Nodup) :
    (plan.settleMarks ran).leftMarked = (plan.idle ran).countP fun a =>
      decide (a.1.target ∉ (plan.settleMarks ran).spent ∧
        a.1.keeper ∉ (plan.settleMarks ran).spent) := by
  show (plan.idle ran).countP (fun a => decide (a.1.group ∉ plan.changed ran)) = _
  apply List.countP_congr
  intro a ha
  have hmem : a.1 ∈ plan.actions :=
    List.mem_of_getElem? (List.mem_zipIdx_iff_getElem?.1 (List.mem_filter.1 ha).1)
  obtain ⟨g, hg, ⟨t, ht, htp, htm⟩, k, hk, hkp, hkm⟩ := (h.placed a.1 hmem).group
  rw [decide_eq_true_eq, decide_eq_true_eq, ← h.touched_iff hpaths hg]
  -- a member of the group is spent only with the group
  have honly : ∀ m ∈ g.members, m.path ∈ (plan.settleMarks ran).spent → plan.Touched ran g := by
    intro m hm hspent
    obtain ⟨g', hg'm, htouched, m', hm', -, hm'p⟩ := (h.mem_spent hpaths).1 hspent
    obtain ⟨j, hg'⟩ := List.getElem?_of_mem hg'm
    have hij := index_unique hpaths hg hg' (List.mem_map_of_mem hm)
      (hm'p ▸ List.mem_map_of_mem hm')
    subst hij
    cases hg.symm.trans hg'
    exact htouched
  constructor
  · intro hidle
    refine ⟨fun hspent => hidle (honly t ht (htp ▸ hspent)),
      fun hspent => hidle (honly k hk (hkp ▸ hspent))⟩
  · rintro ⟨htarget, -⟩ htouched
    apply htarget
    rw [h.mem_spent hpaths]
    exact ⟨g, List.mem_of_getElem? hg, htouched, t, ht, by rw [htm]; rfl, htp⟩

theorem left_sum :
    (plan.settleMarks ran).leftMarked + (plan.settleMarks ran).leftUnmarked =
      (plan.idle ran).length := by
  show (plan.idle ran).countP (fun a => decide (a.1.group ∉ plan.changed ran)) +
    (plan.idle ran).countP (fun a => decide (a.1.group ∈ plan.changed ran)) = _
  have := List.length_eq_countP_add_countP (fun a => decide (a.1.group ∈ plan.changed ran))
    (l := plan.idle ran)
  simp only [decide_not, Bool.decide_eq_true] at this ⊢
  omega

end MarksRemembered

/-! ## Over the input as it was given -/

/-- Normalising changes neither the groups nor their members, only their order. -/
theorem exists_normalize {groups : List PlanGroupInput} {P : PlanGroupInput → Prop}
    (hperm : ∀ g g' : PlanGroupInput, g.members.Perm g'.members → (P g ↔ P g')) :
    (∃ g ∈ ActionPlan.normalize groups, P g) ↔ ∃ g ∈ groups, P g := by
  have hmembers : ∀ g : PlanGroupInput,
      (g.members.insertionSort fun a b => a.path ≤ b.path).Perm g.members :=
    fun g => List.perm_insertionSort _ _
  unfold ActionPlan.normalize
  constructor
  · rintro ⟨_, hg, hP⟩
    obtain ⟨g, hgm, rfl⟩ := List.mem_map.1 hg
    exact ⟨g, (List.perm_insertionSort _ _).mem_iff.1 hgm, (hperm _ g (hmembers g)).1 hP⟩
  · rintro ⟨g, hgm, hP⟩
    exact ⟨_, List.mem_map_of_mem ((List.perm_insertionSort _ _).mem_iff.2 hgm),
      (hperm _ g (hmembers g)).2 hP⟩

theorem ActionPlan.Touched.perm {plan : ActionPlan} {ran : List Bool} {g g' : PlanGroupInput}
    (h : g.members.Perm g'.members) : plan.Touched ran g ↔ plan.Touched ran g' := by
  unfold ActionPlan.Touched
  simp only [(h.map PlanMemberEvidence.path).mem_iff]

theorem mem_spent_iff {scanId : Int} {groups : List PlanGroupInput} {plan : ActionPlan}
    (h : ActionPlan.tryNew scanId groups = .ok plan) (ran : List Bool) (p : Path) :
    p ∈ (plan.settleMarks ran).spent ↔
      ∃ g ∈ groups, plan.Touched ran g ∧ ∃ m ∈ g.members, m.mark.isSome = true ∧ m.path = p := by
  rw [(ActionPlan.tryNew_marks h).mem_spent (ActionPlan.tryNew_ok h).paths]
  apply exists_normalize
  intro g g' hperm
  rw [ActionPlan.Touched.perm hperm]
  simp only [hperm.mem_iff]

/-- A group without an action that ran keeps every mark. -/
theorem not_mem_spent {scanId : Int} {groups : List PlanGroupInput} {plan : ActionPlan}
    (h : ActionPlan.tryNew scanId groups = .ok plan) {ran : List Bool} {g : PlanGroupInput}
    (hg : g ∈ groups) (huntouched : ¬plan.Touched ran g) {m : PlanMemberEvidence}
    (hm : m ∈ g.members) : m.path ∉ (plan.settleMarks ran).spent := by
  intro hspent
  have hpaths := (ActionPlan.tryNew_ok h).paths
  have hmarks := ActionPlan.tryNew_marks h
  obtain ⟨g', hg', htouched, m', hm', -, hpath⟩ := (hmarks.mem_spent hpaths).1 hspent
  obtain ⟨i, hi⟩ := List.getElem?_of_mem hg'
  -- the normalised group that `g` became holds the same pathname
  have hperm : (g.members.insertionSort fun a b => a.path ≤ b.path).Perm g.members :=
    List.perm_insertionSort _ _
  have hn : { g with members := g.members.insertionSort fun a b => a.path ≤ b.path } ∈
      ActionPlan.normalize groups :=
    List.mem_map_of_mem ((List.perm_insertionSort _ _).mem_iff.2 hg)
  obtain ⟨j, hj⟩ := List.getElem?_of_mem hn
  have hij := MarksRemembered.index_unique hpaths hi hj (p := m.path)
    (hpath ▸ List.mem_map_of_mem hm') (List.mem_map_of_mem (hperm.mem_iff.2 hm))
  subst hij
  cases hi.symm.trans hj
  exact huntouched ((ActionPlan.Touched.perm hperm).1 htouched)

end DedupCommando
