import DedupCommando.Model.Plan

/-!
# What an accepted plan is made of

`tryNew` accepts a plan only after folding every group; this module says once what each step of
that fold leaves behind, so that no later proof unfolds it again.

* `ObjectOf` — one object of a group: its pathnames are all the group's pathnames of its key, they
  agree on the link count, and `coveredLinks` counts the actions the group asks for on them.
* `GroupFolded` — what one pass of the group loop adds (`PlanFold.group_ok`).
* `Folded` — the loop invariant over the groups done (`PlanFold.groups_ok`).
* `AcceptedPlan` — an accepted plan, over the normalised input (`tryNew_ok`).
-/

set_option autoImplicit false

namespace DedupCommando

open Grouping

/-! ## One object -/

theorem foldl_min_le {ms : List PlanMemberEvidence} :
    ∀ {b : Nat}, ms.foldl (fun low m => min low m.links) b ≤ b ∧
      ∀ m ∈ ms, ms.foldl (fun low m => min low m.links) b ≤ m.links := by
  induction ms with
  | nil => intro b; simp
  | cons m ms ih =>
    intro b
    obtain ⟨h₁, h₂⟩ := @ih (min b m.links)
    rw [List.foldl_cons]
    refine ⟨by omega, fun n hn => ?_⟩
    rcases List.mem_cons.1 hn with rfl | hn
    · omega
    · exact h₂ n hn

theorem le_foldl_max {ms : List PlanMemberEvidence} :
    ∀ {b : Nat}, b ≤ ms.foldl (fun high m => max high m.links) b ∧
      ∀ m ∈ ms, m.links ≤ ms.foldl (fun high m => max high m.links) b := by
  induction ms with
  | nil => intro b; simp
  | cons m ms ih =>
    intro b
    obtain ⟨h₁, h₂⟩ := @ih (max b m.links)
    rw [List.foldl_cons]
    refine ⟨by omega, fun n hn => ?_⟩
    rcases List.mem_cons.1 hn with rfl | hn
    · omega
    · exact h₂ n hn

theorem LinkCount.agreed_ok {low high c : LinkCount} {named : String}
    (h : LinkCount.agreed low high named = .ok c) : low = high := by
  unfold agreed at h
  split at h
  · assumption
  · cases h

/-- The object built for one key, in terms of the members that carry it. -/
structure BuiltFrom (hash : String) (keeper : Option PlanMemberEvidence)
    (covered members : List PlanMemberEvidence) (key : PlanObjectKey) (o : PlannedObject) :
    Prop where
  key_eq : o.key = key
  hash_eq : o.hash = hash
  members_eq : o.members = members.map PlanMemberEvidence.path
  links : ∀ m ∈ members, m.links = o.links
  covered : o.coveredLinks = covered.countP fun t => decide (t.key = key)
  role : o.role = .keeper ↔ keeper.map PlanMemberEvidence.key = some key

theorem buildObject_ok {hash : String} {keeper : Option PlanMemberEvidence}
    {covered : List PlanMemberEvidence} {key : PlanObjectKey} {first : PlanMemberEvidence}
    {rest : List PlanMemberEvidence} {o : PlannedObject}
    (h : buildObject hash keeper covered key first rest = .ok o) :
    BuiltFrom hash keeper covered (first :: rest) key o := by
  unfold buildObject at h
  simp only at h
  split at h
  · cases h
  · rename_i hagreed
    have heq := LinkCount.known.inj (LinkCount.agreed_ok hagreed)
    split at h
    · cases h
      refine ⟨rfl, rfl, rfl, fun m hm => ?_, rfl, ?_⟩
      · -- the smallest and the largest count reported are the same number
        obtain ⟨hlow, hlows⟩ := @foldl_min_le rest first.links
        obtain ⟨hhigh, hhighs⟩ := @le_foldl_max rest first.links
        rcases List.mem_cons.1 hm with rfl | hm
        · simp only; omega
        · have h₁ := hlows m hm
          have h₂ := hhighs m hm
          simp only; omega
      · simp only
        split
        · rename_i hk; exact ⟨fun _ => hk, fun _ => rfl⟩
        · rename_i hk
          refine ⟨fun hr => ?_, fun hk' => absurd hk' hk⟩
          split at hr <;> cases hr
    · cases h

theorem buildObjects_ok {hash : String} {keeper : Option PlanMemberEvidence}
    {covered : List PlanMemberEvidence} :
    ∀ {keys : List (PlanObjectKey × List PlanMemberEvidence)} {objects : List PlannedObject},
      (∀ k ∈ keys, k.2 ≠ []) → buildObjects hash keeper covered keys = .ok objects →
      objects.map PlannedObject.key = keys.map Prod.fst ∧
        ∀ o ∈ objects, ∃ k ∈ keys, BuiltFrom hash keeper covered k.2 k.1 o
  | [], objects, _, h => by
    simp only [buildObjects, Except.ok.injEq] at h
    subst h
    exact ⟨rfl, fun o ho => by cases ho⟩
  | (_, []) :: _, _, hne, _ => absurd rfl (hne _ List.mem_cons_self)
  | (key, first :: rest) :: keys, objects, hne, h => by
    unfold buildObjects at h
    split at h
    · cases h
    · rename_i object hobject
      split at h
      · cases h
      · rename_i more hmore
        cases h
        have hb := buildObject_ok hobject
        obtain ⟨hkeys, hall⟩ := buildObjects_ok (fun k hk => hne k (List.mem_cons_of_mem _ hk)) hmore
        refine ⟨by rw [List.map_cons, List.map_cons, hb.key_eq, hkeys], fun o ho => ?_⟩
        rcases List.mem_cons.1 ho with rfl | ho
        · exact ⟨_, List.mem_cons_self, hb⟩
        · obtain ⟨k, hk, hb⟩ := hall o ho
          exact ⟨k, List.mem_cons_of_mem _ hk, hb⟩

/-! ## One group -/

/-- The member the group keeps. -/
def keeperOf (group : PlanGroupInput) : Option PlanMemberEvidence :=
  group.members.find? PlanMemberEvidence.isKeeper

/-- The members the plan removes a pathname of: an action is asked for on them and they are not
    the keeper's own allocation. -/
def coveredOf (group : PlanGroupInput) : List (PlanMemberEvidence × ActionKind) :=
  match keeperOf group with
  | none => []
  | some keeper => (targetsOf group.members).filter fun t => decide (t.1.key ≠ keeper.key)

/-- One allocation of a group as the plan remembers it. -/
structure ObjectOf (group : PlanGroupInput) (o : PlannedObject) : Prop where
  hash_eq : o.hash = group.hash
  members_eq : o.members =
    (group.members.filter fun m => decide (m.key = o.key)).map PlanMemberEvidence.path
  links : ∀ m ∈ group.members, m.key = o.key → m.links = o.links
  covered : o.coveredLinks = (coveredOf group).countP fun t => decide (t.1.key = o.key)
  role : o.role = .keeper ↔ (keeperOf group).map PlanMemberEvidence.key = some o.key
  mem_keys : ∃ m ∈ group.members, m.key = o.key

theorem pushObjects_ok {objects objects' : List PlannedObject} {group : PlanGroupInput}
    (h : pushObjects objects group group.members (keeperOf group)
      ((coveredOf group).map Prod.fst) = .ok objects') :
    ∃ built, objects' = objects ++ built ∧
      (built.map PlannedObject.key).Perm (keysOf PlanMemberEvidence.key group.members) ∧
      ∀ o ∈ built, ObjectOf group o := by
  unfold pushObjects at h
  split at h
  · cases h
  · rename_i built hbuilt
    cases h
    obtain ⟨hkeys, hall⟩ := buildObjects_ok (fun k hk => group_ne_nil hk) hbuilt
    have hperm := List.perm_insertionSort (fun a b : PlannedObject =>
      a.representative ≤ b.representative) built
    refine ⟨_, rfl, ?_, fun o ho => ?_⟩
    · rw [← map_fst_groupByKey, ← hkeys]
      exact hperm.map _
    · obtain ⟨k, hk, hb⟩ := hall o (hperm.mem_iff.1 ho)
      obtain ⟨hex, hmembers⟩ := mem_groupByKey.1 hk
      have hkey := hb.key_eq
      refine ⟨hb.hash_eq, ?_, fun m hm hmk => ?_, ?_, ?_, ?_⟩
      · rw [hb.members_eq, hmembers, hkey]
      · exact hb.links m (by rw [hmembers]; exact List.mem_filter.2 ⟨hm, by simp [hmk, hkey]⟩)
      · rw [hb.covered, List.countP_map, hkey]; rfl
      · rw [hb.role, hkey]
      · rw [hkey]; exact hex

/-- The group of a plan: its members agree on the size, and at most one of them is kept. -/
structure GroupOk (group : PlanGroupInput) : Prop where
  size : ∀ m ∈ group.members, ∀ n ∈ group.members, m.key.size = n.key.size
  keeper : ∀ m ∈ group.members, m.isKeeper = true → keeperOf group = some m

theorem keeperOf_mem {group : PlanGroupInput} {k : PlanMemberEvidence}
    (h : keeperOf group = some k) : k ∈ group.members ∧ k.isKeeper = true :=
  ⟨List.mem_of_find?_eq_some h, List.find?_some h⟩

theorem mem_targetsOf {members : List PlanMemberEvidence} {t : PlanMemberEvidence × ActionKind} :
    t ∈ targetsOf members ↔ t.1 ∈ members ∧ t.1.isKeeper = false ∧ t.1.action = some t.2 := by
  obtain ⟨m, kind⟩ := t
  simp only [targetsOf, List.mem_filterMap]
  constructor
  · rintro ⟨m', hm', h⟩
    split at h
    · cases h
    · rename_i hk
      obtain ⟨kind', hkind, hpair⟩ := Option.map_eq_some_iff.1 h
      cases hpair
      exact ⟨hm', by simpa using hk, hkind⟩
  · rintro ⟨hm, hk, hkind⟩
    exact ⟨m, hm, by simp [hk, hkind]⟩

theorem mem_coveredOf {group : PlanGroupInput} {t : PlanMemberEvidence × ActionKind} :
    t ∈ coveredOf group ↔ ∃ k, keeperOf group = some k ∧ t.1 ∈ group.members ∧
      t.1.isKeeper = false ∧ t.1.action = some t.2 ∧ t.1.key ≠ k.key := by
  unfold coveredOf
  cases hk : keeperOf group with
  | none => simp
  | some k => simp [List.mem_filter, mem_targetsOf, and_assoc]

/-- The pathnames a group loses are pathnames of it, in its order. -/
theorem coveredOf_sublist (group : PlanGroupInput) :
    ((coveredOf group).map fun t => t.1.path).Sublist
      (group.members.map PlanMemberEvidence.path) := by
  have htargets : ∀ members : List PlanMemberEvidence,
      ((targetsOf members).map fun t => t.1.path).Sublist
        (members.map PlanMemberEvidence.path) := by
    intro members
    induction members with
    | nil => exact List.Sublist.slnil
    | cons m members ih =>
      simp only [targetsOf, List.filterMap_cons] at ih ⊢
      split
      · exact ih.cons _
      · rename_i t ht
        split at ht
        · cases ht
        · obtain ⟨kind, -, rfl⟩ := Option.map_eq_some_iff.1 ht
          exact ih.cons_cons _
  unfold coveredOf
  cases keeperOf group with
  | none => simp
  | some k => exact (List.filter_sublist.map _).trans (htargets _)

/-- The action an accepted plan holds for one covered target of a group. -/
structure ActionOf (objects : List PlannedObject) (group : PlanGroupInput) (a : PlanAction) :
    Prop where
  covered : ∃ t ∈ coveredOf group, a.target = t.1.path ∧ a.kind = t.2 ∧ a.size = t.1.key.size ∧
    ∃ o, objects[a.targetObject]? = some o ∧ ObjectOf group o ∧ o.key = t.1.key
  keeper : ∃ k, keeperOf group = some k ∧ a.keeper = k.path ∧
    ∃ o, objects[a.keeperObject]? = some o ∧ ObjectOf group o ∧ o.key = k.key
  hash : a.expectedHash = group.hash

theorem ActionOf.append {objects : List PlannedObject} {group : PlanGroupInput} {a : PlanAction}
    (h : ActionOf objects group a) (more : List PlannedObject) :
    ActionOf (objects ++ more) group a := by
  obtain ⟨⟨t, ht, h₁, h₂, h₃, o, ho, hoo, hok⟩, ⟨k, hk, hkp, o', ho', hoo', hok'⟩, hh⟩ := h
  have hlt := (List.getElem?_eq_some_iff.1 ho).1
  have hlt' := (List.getElem?_eq_some_iff.1 ho').1
  exact ⟨⟨t, ht, h₁, h₂, h₃, o, by rw [List.getElem?_append_left hlt]; exact ho, hoo, hok⟩,
    ⟨k, hk, hkp, o', by rw [List.getElem?_append_left hlt']; exact ho', hoo', hok'⟩, hh⟩

/-- `index_of` finds the object it looks for: its `expect` never fires. -/
theorem indexOf_spec (fold : PlanFold) {before built : List PlannedObject} {key : PlanObjectKey}
    (hobjects : fold.objects = before ++ built) (hkey : ∃ o ∈ built, o.key = key) :
    ∃ o ∈ built, fold.objects[fold.indexOf before.length key]? = some o ∧ o.key = key := by
  obtain ⟨o, ho, hok⟩ := hkey
  have hlt : built.findIdx (fun o => decide (o.key = key)) < built.length :=
    List.findIdx_lt_length_of_exists ⟨o, ho, by simp [hok]⟩
  have hidx : fold.indexOf before.length key =
      before.length + built.findIdx (fun o => decide (o.key = key)) := by
    unfold PlanFold.indexOf
    rw [hobjects, List.drop_left, Nat.add_comm]
  refine ⟨built[built.findIdx fun o => decide (o.key = key)], List.getElem_mem hlt, ?_, ?_⟩
  · rw [hidx, hobjects, List.getElem?_append_right (Nat.le_add_right _ _), Nat.add_sub_cancel_left,
      List.getElem?_eq_getElem hlt]
  · simpa using @List.findIdx_getElem _ (fun o : PlannedObject => decide (o.key = key)) built hlt

/-- What folding the covered targets of a group leaves behind. -/
theorem foldTargets_spec (group : PlanGroupInput) (index size first : Nat)
    (keeper : PlanMemberEvidence) :
    ∀ (covered : List (PlanMemberEvidence × ActionKind)) (fold : PlanFold),
      let fold' := covered.foldl (PlanFold.target group index size first keeper) fold
      fold'.objects = fold.objects ∧ fold'.warnings = fold.warnings ∧
      (fold'.crossing = none → fold.crossing = none ∧
        fold'.actions = fold.actions ++ covered.map fun t =>
          { kind := t.2
            target := t.1.path
            keeper := keeper.path
            targetObject := fold.indexOf first t.1.key
            keeperObject := fold.indexOf first keeper.key
            size := size
            expectedHash := group.hash
            group := index })
  | [], fold => ⟨rfl, rfl, fun h => ⟨h, (List.append_nil _).symm⟩⟩
  | t :: covered, fold => by
    obtain ⟨ho, hw, hc⟩ := foldTargets_spec group index size first keeper covered
      (PlanFold.target group index size first keeper fold t)
    have hobjects : (PlanFold.target group index size first keeper fold t).objects =
        fold.objects := by
      unfold PlanFold.target; split <;> rfl
    have hwarnings : (PlanFold.target group index size first keeper fold t).warnings =
        fold.warnings := by
      unfold PlanFold.target; split <;> rfl
    refine ⟨ho.trans hobjects, hw.trans hwarnings, fun hnone => ?_⟩
    obtain ⟨hnone', hactions⟩ := hc hnone
    have hindex : ∀ key, (PlanFold.target group index size first keeper fold t).indexOf first key =
        fold.indexOf first key := by
      intro key; unfold PlanFold.indexOf; rw [hobjects]
    simp only [List.foldl_cons] at hactions ⊢
    rw [hactions]
    simp only [hindex]
    unfold PlanFold.target at hnone' ⊢
    split
    · rename_i hcross
      rw [if_pos hcross] at hnone'
      simp at hnone'
    · rename_i hcross
      rw [if_neg hcross] at hnone'
      exact ⟨hnone', by simp⟩

/-- What one pass of the group loop adds. -/
structure GroupFolded (group : PlanGroupInput) (fold fold' : PlanFold) : Prop where
  ok : GroupOk group
  objects : ∃ built, fold'.objects = fold.objects ++ built ∧
    (built.map PlannedObject.key).Perm (keysOf PlanMemberEvidence.key group.members) ∧
    ∀ o ∈ built, ObjectOf group o
  actions : fold'.crossing = none → fold.crossing = none ∧
    ∃ new, fold'.actions = fold.actions ++ new ∧
      new.map PlanAction.target = (coveredOf group).map (fun t => t.1.path) ∧
      ∀ a ∈ new, ActionOf fold'.objects group a

theorem keeperOf_eq_head? (group : PlanGroupInput) :
    keeperOf group = (group.members.filter PlanMemberEvidence.isKeeper).head? :=
  List.head?_filter.symm

theorem exists_built {group : PlanGroupInput} {built : List PlannedObject}
    (hkeys : (built.map PlannedObject.key).Perm (keysOf PlanMemberEvidence.key group.members))
    {m : PlanMemberEvidence} (hm : m ∈ group.members) : ∃ o ∈ built, o.key = m.key := by
  have h : m.key ∈ built.map PlannedObject.key := hkeys.mem_iff.2 (mem_keysOf.2 ⟨m, hm, rfl⟩)
  exact List.mem_map.1 h

/-- **One pass of the group loop**: its objects, and an action for every covered target. -/
theorem PlanFold.group_ok {index : Nat} {group : PlanGroupInput} {fold fold' : PlanFold}
    (h : PlanFold.group index group fold = .ok fold') : GroupFolded group fold fold' := by
  unfold PlanFold.group at h
  split at h
  · cases h
  rename_i head tail hmembers
  split at h
  · cases h
  rename_i hsize
  have hsize' : ∀ m ∈ group.members, m.key.size = head.key.size := by
    intro m hm
    simp only [List.any_eq_true, not_exists, not_and] at hsize
    simpa using hsize m hm
  have hsizes : ∀ m ∈ group.members, ∀ n ∈ group.members, m.key.size = n.key.size :=
    fun m hm n hn => (hsize' m hm).trans (hsize' n hn).symm
  have hkeeper := keeperOf_eq_head? group
  split at h
  · cases h
  · -- nothing is kept and nothing is asked for: the group is evidence only
    rename_i hk ht
    rw [hk] at hkeeper
    have hcovered : coveredOf group = [] := by unfold coveredOf; rw [hkeeper]; rfl
    split at h
    · cases h
    · rename_i objects hpush
      cases h
      refine ⟨⟨hsizes, fun m hm hmk => ?_⟩, ?_, fun hnone => ⟨hnone, [], ?_, ?_, ?_⟩⟩
      · have : m ∈ group.members.filter PlanMemberEvidence.isKeeper :=
          List.mem_filter.2 ⟨hm, hmk⟩
        rw [hk] at this; cases this
      · refine @pushObjects_ok _ _ group ?_
        rw [hkeeper, hcovered]; exact hpush
      · simp
      · simp [hcovered]
      · simp
  · cases h
  · rename_i keeper hk
    rw [hk] at hkeeper
    have hcovered : coveredOf group =
        (targetsOf group.members).filter fun t => decide (t.1.key ≠ keeper.key) := by
      unfold coveredOf; rw [hkeeper]; rfl
    simp only at h
    split at h
    · cases h
    rename_i objects hpush
    cases h
    rw [← hcovered]
    generalize hstart : ({ fold with
      objects := objects
      warnings := fold.warnings ++
        ((targetsOf group.members).filter fun t => decide (t.1.key = keeper.key)).map
          fun t => .alreadyLinkedWithKeeper t.1.path } : PlanFold) = start
    obtain ⟨hso, hsa, hsc⟩ : start.objects = objects ∧ start.actions = fold.actions ∧
        start.crossing = fold.crossing := by subst hstart; exact ⟨rfl, rfl, rfl⟩
    obtain ⟨hobjects, -, hactions⟩ := foldTargets_spec group index head.key.size
      fold.objects.length keeper (coveredOf group) start
    rw [hso] at hobjects
    rw [hsa, hsc] at hactions
    obtain ⟨built, hbuilt, hkeys, hof⟩ : ∃ built, objects = fold.objects ++ built ∧
        (built.map PlannedObject.key).Perm (keysOf PlanMemberEvidence.key group.members) ∧
        ∀ o ∈ built, ObjectOf group o := by
      refine pushObjects_ok ?_
      rw [hkeeper, hcovered]; exact hpush
    refine ⟨⟨hsizes, fun m hm hmk => ?_⟩, ⟨built, hobjects.trans hbuilt, hkeys, hof⟩,
      fun hnone => ?_⟩
    · have : m ∈ group.members.filter PlanMemberEvidence.isKeeper := List.mem_filter.2 ⟨hm, hmk⟩
      rw [hk, List.mem_singleton] at this
      rw [hkeeper, this]; rfl
    · obtain ⟨hnone', hact⟩ := hactions hnone
      refine ⟨hnone', _, hact, ?_, fun a ha => ?_⟩
      · rw [List.map_map]; rfl
      · obtain ⟨t, ht, rfl⟩ := List.mem_map.1 ha
        obtain ⟨k, hk', htm, -, -, -⟩ := mem_coveredOf.1 ht
        have hkk : keeper = k := by rw [hkeeper] at hk'; simpa using hk'
        subst hkk
        rw [hobjects, ← hso]
        rw [hbuilt] at hso
        obtain ⟨o, ho, hoi, hokey⟩ := indexOf_spec start hso (exists_built hkeys htm)
        obtain ⟨o', ho', hoi', hokey'⟩ :=
          indexOf_spec start hso (exists_built hkeys (keeperOf_mem hk').1)
        exact ⟨⟨t, ht, rfl, rfl, (hsize' _ htm).symm, o, hoi, hof o ho, hokey⟩,
          ⟨keeper, hk', rfl, o', hoi', hof o' ho', hokey'⟩, rfl⟩

/-! ## The loop -/

/-- The group loop's invariant over the groups done so far. -/
structure Folded (done : List PlanGroupInput) (fold : PlanFold) : Prop where
  ok : ∀ g ∈ done, GroupOk g
  keys : (fold.objects.map PlannedObject.key).Perm
    (done.flatMap fun g => keysOf PlanMemberEvidence.key g.members)
  objects : ∀ o ∈ fold.objects, ∃ g ∈ done, ObjectOf g o
  targets : fold.crossing = none →
    fold.actions.map PlanAction.target = done.flatMap fun g => (coveredOf g).map fun t => t.1.path
  actions : fold.crossing = none → ∀ a ∈ fold.actions, ∃ g ∈ done, ActionOf fold.objects g a

theorem Folded.empty : Folded [] PlanFold.empty :=
  ⟨fun _ h => (List.not_mem_nil h).elim, List.Perm.refl _, fun _ h => (List.not_mem_nil h).elim,
    fun _ => rfl, fun _ _ h => (List.not_mem_nil h).elim⟩

theorem Folded.step {done : List PlanGroupInput} {group : PlanGroupInput} {fold fold' : PlanFold}
    (hf : Folded done fold) (hg : GroupFolded group fold fold') :
    Folded (done ++ [group]) fold' := by
  obtain ⟨built, hbuilt, hkeys, hof⟩ := hg.objects
  refine ⟨fun g hgm => ?_, ?_, fun o ho => ?_, fun hnone => ?_, fun hnone a ha => ?_⟩
  · rcases List.mem_append.1 hgm with hgm | hgm
    · exact hf.ok g hgm
    · rw [List.mem_singleton.1 hgm]; exact hg.ok
  · rw [hbuilt, List.map_append, List.flatMap_append, List.flatMap_singleton]
    exact hf.keys.append hkeys
  · rw [hbuilt] at ho
    rcases List.mem_append.1 ho with ho | ho
    · obtain ⟨g, hgm, hgo⟩ := hf.objects o ho
      exact ⟨g, List.mem_append_left _ hgm, hgo⟩
    · exact ⟨group, by simp, hof o ho⟩
  · obtain ⟨hnone', new, hnew, htargets, -⟩ := hg.actions hnone
    rw [hnew, List.map_append, hf.targets hnone', List.flatMap_append, List.flatMap_singleton,
      htargets]
  · obtain ⟨hnone', new, hnew, -, hact⟩ := hg.actions hnone
    rw [hnew] at ha
    rcases List.mem_append.1 ha with ha | ha
    · obtain ⟨g, hgm, hga⟩ := hf.actions hnone' a ha
      exact ⟨g, List.mem_append_left _ hgm, by rw [hbuilt]; exact hga.append built⟩
    · exact ⟨group, by simp, hact a ha⟩

theorem PlanFold.groups_ok :
    ∀ {groups done : List PlanGroupInput} {index : Nat} {fold fold' : PlanFold},
      Folded done fold → PlanFold.groups index fold groups = .ok fold' →
      Folded (done ++ groups) fold'
  | [], done, _, fold, fold', hf, h => by
    simp only [PlanFold.groups, Except.ok.injEq] at h
    subst h
    rw [List.append_nil]; exact hf
  | g :: gs, done, _, fold, fold', hf, h => by
    unfold PlanFold.groups at h
    split at h
    · cases h
    · rename_i fold₁ hstep
      have := PlanFold.groups_ok (hf.step (PlanFold.group_ok hstep)) h
      rw [List.append_assoc, List.singleton_append] at this
      exact this

/-! ## The evidence checks -/

theorem checkMembers_ok :
    ∀ {members : List (String × PlanMemberEvidence)} {paths : List Path}
      {owner : List (PlanObjectKey × String × Path)},
      checkMembers paths owner members = .ok () →
      (members.map fun m => m.2.path).Nodup ∧ ∀ m ∈ members, m.2.path ∉ paths
  | [], _, _, _ => ⟨List.nodup_nil, fun _ h => (List.not_mem_nil h).elim⟩
  | (hash, member) :: members, paths, owner, h => by
    unfold checkMembers at h
    split at h
    · cases h
    rename_i hfresh
    have done : ∀ {owner'}, checkMembers (member.path :: paths) owner' members = .ok () →
        ((hash, member) :: members |>.map fun m => m.2.path).Nodup ∧
          ∀ m ∈ (hash, member) :: members, m.2.path ∉ paths := by
      intro owner' h'
      obtain ⟨hnodup, hnew⟩ := checkMembers_ok h'
      refine ⟨List.nodup_cons.2 ⟨fun hmem => ?_, hnodup⟩, fun m hm => ?_⟩
      · obtain ⟨m, hm, hmp⟩ := List.mem_map.1 hmem
        exact hnew m hm (by rw [hmp]; exact List.mem_cons_self)
      · rcases List.mem_cons.1 hm with rfl | hm
        · exact hfresh
        · exact fun hp => hnew m hm (List.mem_cons_of_mem _ hp)
    split at h
    · exact done h
    · split at h
      · cases h
      · exact done h

theorem checkGlobalEvidence_ok {groups : List PlanGroupInput}
    (h : checkGlobalEvidence groups = .ok ()) :
    (groups.flatMap fun g => g.members.map PlanMemberEvidence.path).Nodup := by
  unfold checkGlobalEvidence at h
  split at h
  · cases h
  · have := (checkMembers_ok h).1
    rw [List.map_flatMap] at this
    simpa [Function.comp_def] using this

/-! ## The accepted plan -/

/-- No object key occurs among the members of two different groups. -/
def KeyDisjoint (groups : List PlanGroupInput) : Prop :=
  groups.Pairwise fun g h => ∀ m ∈ g.members, ∀ n ∈ h.members, m.key ≠ n.key

theorem keyDisjoint_normalize (groups : List PlanGroupInput) :
    KeyDisjoint (ActionPlan.normalize groups) ↔ KeyDisjoint groups := by
  have hsort := List.perm_insertionSort (fun a b : PlanGroupInput => a.id.rank ≤ b.id.rank) groups
  unfold KeyDisjoint ActionPlan.normalize
  rw [List.pairwise_map]
  have hmembers : ∀ (g : PlanGroupInput) (m : PlanMemberEvidence),
      m ∈ (g.members.insertionSort fun a b => a.path ≤ b.path) ↔ m ∈ g.members :=
    fun g m => (List.perm_insertionSort _ _).mem_iff
  simp only [hmembers]
  exact hsort.pairwise_iff fun hgh m hm n hn heq => hgh n hn m hm heq.symm

/-- A plan folded from `groups`: the loop invariant at its end, the figure, and the checks. -/
structure AcceptedPlan (groups : List PlanGroupInput) (plan : ActionPlan) : Prop where
  paths : (groups.flatMap fun g => g.members.map PlanMemberEvidence.path).Nodup
  ok : ∀ g ∈ groups, GroupOk g
  keys : (plan.objects.map PlannedObject.key).Perm
    (groups.flatMap fun g => keysOf PlanMemberEvidence.key g.members)
  objects : ∀ o ∈ plan.objects, ∃ g ∈ groups, ObjectOf g o
  targets : plan.actions.map PlanAction.target =
    groups.flatMap fun g => (coveredOf g).map fun t => t.1.path
  actions : ∀ a ∈ plan.actions, ∃ g ∈ groups, ActionOf plan.objects g a
  estimate : ReclaimEstimate.forFreshScan (plan.objects.map PlannedObject.estimate) =
    .ok plan.summary.estimate
  unrunnable : plan.unrunnable = .default

/-- **What an accepted plan is made of**, over the normalised input. -/
theorem ActionPlan.tryNew_ok {scanId : Int} {groups : List PlanGroupInput} {plan : ActionPlan}
    (h : ActionPlan.tryNew scanId groups = .ok plan) :
    AcceptedPlan (ActionPlan.normalize groups) plan := by
  unfold ActionPlan.tryNew at h
  split at h
  · cases h
  simp only at h
  split at h
  · cases h
  split at h
  · cases h
  rename_i hevidence
  split at h
  · cases h
  rename_i fold hfold
  have hf := PlanFold.groups_ok Folded.empty hfold
  rw [List.nil_append] at hf
  unfold ActionPlan.finish at h
  split at h
  · cases h
  rename_i hnone
  split at h
  · cases h
  split at h
  · cases h
  rename_i estimate hestimate
  cases h
  exact
    { paths := checkGlobalEvidence_ok hevidence
      ok := hf.ok
      keys := hf.keys
      objects := hf.objects
      targets := hf.targets hnone
      actions := hf.actions hnone
      estimate := hestimate
      unrunnable := rfl }

theorem PlannedObject.estimate_trusted (o : PlannedObject) : o.estimate.Trusted := by
  unfold PlannedObject.estimate ReclaimEstimate.Trusted
  split
  · simp [ReclaimEstimate.exact]
  · split <;> simp [ReclaimEstimate.exact, ReclaimEstimate.upperBound]

/-- The plan's own figure is known, and it is the sum of its objects' figures. -/
theorem AcceptedPlan.summary_ok {groups : List PlanGroupInput} {plan : ActionPlan}
    (h : AcceptedPlan groups plan) :
    plan.summary.estimate.Trusted ∧
      plan.summary.estimate.guaranteedBytes =
        (plan.objects.map fun o => o.estimate.guaranteedBytes).sum ∧
      plan.summary.estimate.ceilingBytes =
        (plan.objects.map fun o => o.estimate.ceilingBytes).sum ∧
      plan.summary.estimate.ceilingBytes ≤ i64Max := by
  have ht : ∀ e ∈ plan.objects.map PlannedObject.estimate, e.Trusted := by
    intro e he
    obtain ⟨o, -, rfl⟩ := List.mem_map.1 he
    exact o.estimate_trusted
  have := ReclaimEstimate.forFreshScan_ok ht h.estimate
  rw [List.map_map, List.map_map] at this
  exact this

end DedupCommando
