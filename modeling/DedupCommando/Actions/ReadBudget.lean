import DedupCommando.Actions.NoFalseAlarm
import DedupCommando.Actions.RecheckReads

/-!
# The read budget of a batch

`verify_bytes_total` of `actions/mod.rs` against the bytes a batch reads.

* `verifyBytesTotal` — the estimate.
* `Batch.KeepersRest` — behind no hardlink is its keeper asked for under another `ctime`.
* `AcceptedPlan.inGroups` — the actions of a group stand together.
* `applyAll_uses`, `applyAll_strict` — what a run reads.
* `reads_eq_total_iff` — **the estimate is exact** under that condition and no other.
* `not_reads_eq_total` — the second of two hardlinks to one keeper reads it again.
-/

set_option autoImplicit false

namespace DedupCommando

open World Filesystem

variable {own : Set InodeId} {w : World}

/-! ## The estimate -/

/-- The actions whose keeper no action before them has. -/
def keepersOnce : List Path → List PlanAction → List PlanAction
  | _, [] => []
  | seen, action :: actions =>
    if action.keeper ∈ seen then keepersOnce seen actions
    else action :: keepersOnce (action.keeper :: seen) actions

/-- `verify_bytes_total`; an iterator's sum wraps. -/
def verifyBytesTotal (plan : ActionPlan) (mode : RevalidationMode) : Nat :=
  if mode = .strict then
    (plan.actions.map fun action => min (action.size * 2) (2 ^ 64 - 1)).sum % 2 ^ 64
  else
    let targets := (plan.actions.map PlanAction.size).sum % 2 ^ 64
    let keepers := ((keepersOnce [] plan.actions).map PlanAction.size).sum % 2 ^ 64
    min (targets + keepers) (2 ^ 64 - 1)

/-- The `ctime` of the file a pathname names. -/
def ctimeAt (p : Path) (w : World) : Option Timespec := (w.fs.lookup p).map fun f => f.2.ctime

/-- Behind no hardlink is its keeper asked for again under another `ctime`, unless it is empty.
    `before` is the action before, with the world it started in. -/
def Batch.KeepersRest : Option (PlanAction × World) → Nat → List PlanAction → Batch → World → Prop
  | _, _, [], _, _ => True
  | before, index, action :: actions, b, w =>
    (∀ last v, before = some (last, v) → last.kind = .hardlink → last.keeper = action.keeper →
      0 < action.size → ctimeAt action.keeper v = ctimeAt action.keeper w) ∧
    KeepersRest (some (action, w)) (index + 1) actions
      (b.applyOne index action { w with index := index }).2.1
      (b.applyOne index action { w with index := index }).2.2

/-! ## The order of a plan's actions -/

/-- The actions of a group stand together, and no keeper is a target. -/
structure InGroups (actions : List PlanAction) : Prop where
  targets : (actions.map PlanAction.target).Nodup
  apart : ∀ a ∈ actions, ∀ b ∈ actions, a.keeper ≠ b.target
  together : ∀ first mid last, [first, mid, last].Sublist actions → first.keeper = last.keeper →
    mid.keeper = first.keeper

/-- An action on a pathname of the group, with the group's keeper. -/
def ActsIn (g : PlanGroupInput) (a : PlanAction) : Prop :=
  a.target ∈ g.members.map PlanMemberEvidence.path ∧ ∃ k, keeperOf g = some k ∧ a.keeper = k.path

theorem ActsIn.keeper_mem {g : PlanGroupInput} {a : PlanAction} (h : ActsIn g a) :
    a.keeper ∈ g.members.map PlanMemberEvidence.path := by
  obtain ⟨-, k, hk, heq⟩ := h
  rw [heq]
  exact List.mem_map_of_mem (keeperOf_mem hk).1

theorem covered_mem {g : PlanGroupInput} {p : Path}
    (h : p ∈ (coveredOf g).map fun t => t.1.path) : p ∈ g.members.map PlanMemberEvidence.path :=
  (coveredOf_sublist g).subset h

theorem together_of_groups : ∀ {groups : List PlanGroupInput} {actions : List PlanAction},
    (groups.flatMap fun g => g.members.map PlanMemberEvidence.path).Nodup →
    actions.map PlanAction.target =
      groups.flatMap (fun g => (coveredOf g).map fun t => t.1.path) →
    (∀ a ∈ actions, ∃ g ∈ groups, ActsIn g a) →
    ∀ {first mid last : PlanAction}, [first, mid, last].Sublist actions →
      first.keeper = last.keeper → mid.keeper = first.keeper
  | [], actions, _, htargets, _, first, mid, last, hsub, _ => by
    rw [List.map_eq_nil_iff.1 htargets] at hsub
    cases hsub
  | g :: groups, actions, hnodup, htargets, hacts, first, mid, last, hsub, hkeeper => by
    rw [List.flatMap_cons] at hnodup htargets
    obtain ⟨-, hrest, hdisjoint⟩ := List.nodup_append'.1 hnodup
    obtain ⟨here, later, rfl, hhere, hlater⟩ := List.map_eq_append_iff.1 htargets
    -- an action belongs to the group its target is a pathname of
    have hin : ∀ a ∈ here, ActsIn g a := by
      intro a ha
      have hmem : a.target ∈ g.members.map PlanMemberEvidence.path :=
        covered_mem (by rw [← hhere]; exact List.mem_map_of_mem ha)
      obtain ⟨g', hg', hact⟩ := hacts a (List.mem_append_left later ha)
      rcases List.mem_cons.1 hg' with rfl | hg'
      · exact hact
      · exact absurd (List.mem_flatMap.2 ⟨g', hg', hact.1⟩) (hdisjoint hmem)
    have hout : ∀ a ∈ later, ∃ g ∈ groups, ActsIn g a := by
      intro a ha
      have hmem : a.target ∈ groups.flatMap fun g => g.members.map PlanMemberEvidence.path := by
        have : a.target ∈ groups.flatMap fun g => (coveredOf g).map fun t => t.1.path := by
          rw [← hlater]
          exact List.mem_map_of_mem ha
        obtain ⟨g', hg', hp⟩ := List.mem_flatMap.1 this
        exact List.mem_flatMap.2 ⟨g', hg', covered_mem hp⟩
      obtain ⟨g', hg', hact⟩ := hacts a (List.mem_append_right here ha)
      rcases List.mem_cons.1 hg' with rfl | hg'
      · exact absurd hmem (hdisjoint hact.1)
      · exact ⟨g', hg', hact⟩
    have hcross : first ∈ here → last ∈ later → False := by
      intro hf hl
      obtain ⟨g', hg', hact⟩ := hout last hl
      refine hdisjoint (hin first hf).keeper_mem ?_
      rw [hkeeper]
      exact List.mem_flatMap.2 ⟨g', hg', hact.keeper_mem⟩
    obtain ⟨l₁, l₂, heq, h₁, h₂⟩ := List.sublist_append_iff.1 hsub
    rcases l₁ with _ | ⟨a, _ | ⟨b, _ | ⟨c, rest⟩⟩⟩
    · rw [← heq.trans (List.nil_append l₂)] at h₂
      exact together_of_groups hrest hlater hout h₂ hkeeper
    · cases heq
      exact (hcross (h₁.subset (by simp)) (h₂.subset (by simp))).elim
    · cases heq
      exact (hcross (h₁.subset (by simp)) (h₂.subset (by simp))).elim
    · obtain ⟨rfl, rfl, rfl, -⟩ : first = a ∧ mid = b ∧ last = c ∧ [] = rest ++ l₂ := by
        simpa using heq
      obtain ⟨-, k, hk, hf⟩ := hin first (h₁.subset (by simp))
      obtain ⟨-, k', hk', hm⟩ := hin mid (h₁.subset (by simp))
      rw [hk] at hk'
      cases hk'
      rw [hf, hm]

theorem AcceptedPlan.inGroups {groups : List PlanGroupInput} {plan : ActionPlan}
    (h : AcceptedPlan groups plan) : InGroups plan.actions := by
  have hacts : ∀ a ∈ plan.actions, ∃ g ∈ groups, ActsIn g a := by
    intro a ha
    obtain ⟨g, hg, hact⟩ := h.actions a ha
    obtain ⟨t, ht, htarget, -⟩ := hact.covered
    obtain ⟨k, hk, hkeeper, -⟩ := hact.keeper
    refine ⟨g, hg, ?_, k, hk, hkeeper⟩
    rw [htarget]
    exact covered_mem (List.mem_map_of_mem ht)
  refine ⟨h.nodup_targets, fun a ha b hb heq => ?_, fun first mid last =>
    together_of_groups h.paths h.targets hacts⟩
  obtain ⟨g, hg, -, k, hk, hkeeper⟩ := hacts a ha
  refine h.keeper_not_target hg hk ?_
  rw [← hkeeper, heq]
  exact List.mem_map_of_mem hb

/-- The keeper of an action that came up before is the keeper of the last action. -/
theorem InGroups.last_keeper {done rest : List PlanAction} {action c last : PlanAction}
    (h : InGroups (done ++ action :: rest)) (hc : c ∈ done) (hkeeper : c.keeper = action.keeper)
    (hlast : done.getLast? = some last) : last.keeper = action.keeper := by
  obtain ⟨init, rfl⟩ := List.getLast?_eq_some_iff.1 hlast
  rcases List.mem_append.1 hc with hc | hc
  · rw [← hkeeper]
    refine h.together c last action ?_ hkeeper
    exact ((List.singleton_sublist.2 hc).append (List.Sublist.refl [last])).append
      (List.singleton_sublist.2 List.mem_cons_self)
  · rw [← hkeeper, List.mem_singleton.1 hc]

/-! ## The run -/

/-- The files a list of actions re-checks, in order. -/
def filesOf (actions : List PlanAction) : List (Path × Nat) :=
  actions.flatMap fun a => [(a.target, a.size), (a.keeper, a.size)]

/-- The pathnames behind a list of actions. -/
def seenIn (done : List PlanAction) : List Path := done.flatMap fun a => [a.target, a.keeper]

theorem mem_seenIn {done : List PlanAction} {p : Path} :
    p ∈ seenIn done ↔ ∃ a ∈ done, p = a.target ∨ p = a.keeper := by
  simp [seenIn]

/-- The last action's keeper is remembered as it was when that action began, and only a hardlink
    has moved its `ctime` since. -/
def Behind (own : Set InodeId) (done : List PlanAction) (before : Option (PlanAction × World))
    (b : Batch) (w : World) : Prop :=
  done.getLast? = before.map Prod.fst ∧ ∀ last v, before = some (last, v) →
    ∃ i n n', i ∈ own ∧ v.fs.lookup last.keeper = some (i, n) ∧
      w.fs.lookup last.keeper = some (i, n') ∧
      b.verified.lookup last.keeper = some (n.fileIdentity i) ∧ n.Restamped n' ∧
      (last.kind ≠ .hardlink → n' = n)

theorem Node.Restamped.fileIdentity_eq_iff {n n' : Node} (h : n.Restamped n') (i : InodeId) :
    n.fileIdentity i = n'.fileIdentity i ↔ n.ctime = n'.ctime := by
  obtain ⟨hkind, hcontent, hmtime, hmode⟩ := h
  unfold Node.fileIdentity Node.size
  rw [hkind, hcontent, hmtime, hmode]
  simp

/-- What comes back moved exactly when the last action was a hardlink to it that moved its
    `ctime`. -/
theorem keeper_still_iff {done rest : List PlanAction} {action : PlanAction}
    {before : Option (PlanAction × World)} {b : Batch} {t k : InodeId} {nt nk : Node}
    (hgroups : InGroups (done ++ action :: rest)) (hs : Standing own w.fs action t k nt nk)
    (hholds : Recheck.Holds b.verified (seenIn done)) (hbehind : Behind own done before b w) :
    (∀ s, b.verified.lookup action.keeper = some s → s = nk.fileIdentity k ∨ action.size = 0) ↔
      ∀ last v, before = some (last, v) → last.kind = .hardlink → last.keeper = action.keeper →
        0 < action.size → ctimeAt action.keeper v = ctimeAt action.keeper w := by
  obtain ⟨hlast, hbehind⟩ := hbehind
  constructor
  · rintro h last v rfl - hkeeper hpos
    obtain ⟨i, n, n', -, hv, hw, hcache, hstamp, -⟩ := hbehind last v rfl
    rw [hkeeper] at hv hw hcache
    rw [hs.keeper] at hw
    cases hw
    rcases h _ hcache with heq | hzero
    · unfold ctimeAt
      rw [hv, hs.keeper]
      exact congrArg some ((hstamp.fileIdentity_eq_iff k).1 heq)
    · omega
  · intro h s hcache
    by_cases hzero : action.size = 0
    · exact .inr hzero
    left
    obtain ⟨a, ha, hp⟩ := mem_seenIn.1 ((hholds action.keeper).2 ⟨s, hcache⟩)
    have hmem : a ∈ done ++ action :: rest := List.mem_append_left _ ha
    have hself : action ∈ done ++ action :: rest := List.mem_append_right _ List.mem_cons_self
    have hkeeper : a.keeper = action.keeper :=
      (hp.resolve_left (hgroups.apart action hself a hmem)).symm
    cases hb : before with
    | none =>
      rw [hb] at hlast
      rw [List.getLast?_eq_none_iff.1 hlast] at ha
      cases ha
    | some entry =>
      obtain ⟨last, v⟩ := entry
      rw [hb] at hlast
      have hsame := hgroups.last_keeper ha hkeeper hlast
      obtain ⟨i, n, n', -, hv, hw, hcache', hstamp, hstill⟩ := hbehind last v hb
      rw [hsame] at hv hw hcache'
      rw [hs.keeper] at hw
      cases hw
      rw [hcache'] at hcache
      cases hcache
      rw [hstamp.fileIdentity_eq_iff]
      by_cases hkind : last.kind = .hardlink
      · have hct := h last v hb hkind hsame (Nat.pos_of_ne_zero hzero)
        unfold ctimeAt at hct
        rw [hv, hs.keeper] at hct
        exact Option.some.inj hct
      · rw [hstill hkind]

/-- What the next action finds. -/
theorem Standing.next {action later : PlanAction} {k : InodeId} {fs fs' : Filesystem}
    (hcarried : Carried own action k fs fs') (htarget : later.target ≠ action.target)
    (hkeeper : later.keeper ≠ action.target)
    (h : ∃ t k nt nk, Standing own fs later t k nt nk) :
    ∃ t k nt nk, Standing own fs' later t k nt nk := by
  obtain ⟨t, k', nt, nk, hs⟩ := h
  obtain ⟨nt', ht, -⟩ := hcarried _ t nt htarget hs.targetOwn hs.target
  obtain ⟨nk', hk, -⟩ := hcarried _ k' nk hkeeper hs.keeperOwn hs.keeper
  exact ⟨t, k', nt', nk', ht, hk, hs.targetOwn, hs.keeperOwn, hs.apart⟩

/-- Nothing stopped the loop and every action succeeded. -/
structure Completed (run : (List (ActionOutcome × ActionResult) × Bool) × Batch × World) : Prop where
  finished : run.1.2 = false
  succeeded : ∀ d ∈ run.1.1, d.1.result = .ok ()

theorem completed_cons {index : Nat} {action : PlanAction} {actions : List PlanAction} {b : Batch}
    (h : Completed (b.applyAll index (action :: actions) w)) :
    w.outside.cancelled w.tick = false ∧
      (b.applyOne index action { w with index := index }).1.1.result = .ok () ∧
      Completed ((b.applyOne index action { w with index := index }).2.1.applyAll (index + 1) actions
        (b.applyOne index action { w with index := index }).2.2) := by
  obtain ⟨hfinished, hsucceeded⟩ := h
  unfold Batch.applyAll at hfinished hsucceeded
  by_cases hc : w.outside.cancelled w.tick = true
  · rw [if_pos hc] at hfinished
    cases hfinished
  · rw [if_neg hc] at hfinished hsucceeded
    exact ⟨by simpa using hc, hsucceeded _ List.mem_cons_self, hfinished,
      fun d hd => hsucceeded d (List.mem_cons_of_mem _ hd)⟩

theorem reads_cons {index : Nat} {action : PlanAction} {actions : List PlanAction} {b : Batch}
    (h : w.outside.cancelled w.tick = false) :
    b.reads index (action :: actions) w =
      b.admissionReads index action ({ w with index := index } : World).pause +
        (b.applyOne index action { w with index := index }).2.1.reads (index + 1) actions
          (b.applyOne index action { w with index := index }).2.2 := by
  conv_lhs => unfold Batch.reads
  rw [if_neg (by rw [h]; exact Bool.false_ne_true)]

/-- What stays true from one action to the next. -/
structure Going (own : Set InodeId) (done rest : List PlanAction) (b : Batch) (w : World) : Prop where
  spares : Spares w.outside own
  clones : ∀ d n, (⟨d, w.outside.inode n⟩ : InodeId) ∈ own
  groups : InGroups (done ++ rest)
  standing : ∀ a ∈ rest, ∃ t k nt nk, Standing own w.fs a t k nt nk

theorem Going.next {done rest : List PlanAction} {action : PlanAction} {b : Batch} {k : InodeId}
    {index : Nat} (h : Going own done (action :: rest) b w)
    (hcarried : Carried own action k w.fs
      (b.applyOne index action { w with index := index }).2.2.fs) :
    Going own (done ++ [action]) rest (b.applyOne index action { w with index := index }).2.1
      (b.applyOne index action { w with index := index }).2.2 := by
  obtain ⟨-, hran, -⟩ := Batch.applyOne_ran index action b { w with index := index }
  have hself : action ∈ done ++ action :: rest := List.mem_append_right _ List.mem_cons_self
  refine ⟨hran.keeps h.spares, by rw [hran.outside]; exact h.clones, ?_, fun a ha => ?_⟩
  · rw [List.append_assoc, List.singleton_append]
    exact h.groups
  · have hmem : a ∈ done ++ action :: rest := List.mem_append_right _ (List.mem_cons_of_mem _ ha)
    refine Standing.next hcarried (fun heq => ?_) (h.groups.apart a hmem action hself)
      (h.standing a (List.mem_cons_of_mem _ ha))
    have hnodup := h.groups.targets
    rw [List.map_append, List.map_cons] at hnodup
    have hrest := (List.nodup_cons.1 (List.nodup_append'.1 hnodup).2.1).1
    rw [← heq] at hrest
    exact hrest (List.mem_map_of_mem ha)

/-- **The run without `--strict-verify`**: its bytes are what the cache lets through, and nothing
    comes back changed exactly when the keepers rest. -/
theorem applyAll_uses : ∀ {rest done : List PlanAction} {before : Option (PlanAction × World)}
    {index : Nat} {b : Batch} {w : World}, Going own done rest b w → b.mode ≠ .strict →
      Recheck.Holds b.verified (seenIn done) → Behind own done before b w →
      Completed (b.applyAll index rest w) →
      ∃ uses, uses.map Recheck.Use.file = filesOf rest ∧
        b.reads index rest w = Recheck.reads b.verified uses ∧
        (Recheck.Still b.verified uses ↔ b.KeepersRest before index rest w)
  | [], _, _, _, _, _, _, _, _, _, _ => ⟨[], rfl, rfl, Iff.rfl⟩
  | action :: rest, done, before, index, b, w, hgoing, hmode, hholds, hbehind, hrun => by
    obtain ⟨hgoes, hok, hmore⟩ := completed_cons hrun
    obtain ⟨t, k, nt, nk, hs⟩ := hgoing.standing action List.mem_cons_self
    obtain ⟨hreads, hcache, hcarried⟩ := applyOne_completed (w := { w with index := index })
      hgoing.spares hgoing.clones hs hok
    obtain ⟨hsame, -⟩ := Batch.applyOne_ran index action b { w with index := index }
    have hself : action ∈ done ++ action :: rest := List.mem_append_right _ List.mem_cons_self
    have hapart := hgoing.groups.apart action hself action hself
    rw [if_neg hmode] at hreads hcache
    have hnext : Going own (done ++ [action]) rest
        (b.applyOne index action { w with index := index }).2.1
        (b.applyOne index action { w with index := index }).2.2 := hgoing.next hcarried
    have hbehind' : Behind own (done ++ [action]) (some (action, w))
        (b.applyOne index action { w with index := index }).2.1
        (b.applyOne index action { w with index := index }).2.2 := by
      refine ⟨List.getLast?_concat, ?_⟩
      rintro last v heq
      cases heq
      obtain ⟨nk', hlookup, hkeep⟩ := hcarried action.keeper k nk hapart hs.keeperOwn hs.keeper
      refine ⟨k, nk, nk', hs.keeperOwn, hs.keeper, hlookup, ?_, hkeep rfl⟩
      rw [hcache]
      exact Recheck.lookup_remember_self _ (useOf action.keeper k nk action.size)
    have hholds' : Recheck.Holds (b.applyOne index action { w with index := index }).2.1.verified
        (seenIn (done ++ [action])) := by
      rw [hcache]
      refine ((hholds.remember (useOf action.target t nt action.size)).remember
        (useOf action.keeper k nk action.size)).congr fun p => ?_
      simp only [seenIn, List.flatMap_append, List.flatMap_singleton, List.mem_append,
        List.mem_cons, useOf, List.not_mem_nil, or_false]
      tauto
    obtain ⟨uses, hfiles, hrest, hstill⟩ := applyAll_uses hnext (by rw [hsame.mode]; exact hmode)
      hholds' hbehind' hmore
    -- the target is new to the cache, so only the keeper can come back
    have htarget : b.verified.lookup action.target = none := by
      refine hholds.lookup_eq_none fun hmem => ?_
      obtain ⟨a, ha, hp⟩ := mem_seenIn.1 hmem
      have hamem : a ∈ done ++ action :: rest := List.mem_append_left _ ha
      rcases hp with hp | hp
      · have hnodup := hgoing.groups.targets
        rw [List.map_append] at hnodup
        refine (List.nodup_append'.1 hnodup).2.2 (List.mem_map_of_mem ha) ?_
        rw [← hp]
        exact List.mem_map_of_mem List.mem_cons_self
      · exact hgoing.groups.apart a hamem action hself hp.symm
    have hkeeper : (Recheck.remember b.verified (useOf action.target t nt action.size)).lookup
        action.keeper = b.verified.lookup action.keeper :=
      Recheck.lookup_remember_of_ne hapart
    refine ⟨usesOf action t k nt nk ++ uses, ?_, ?_, ?_⟩
    · rw [List.map_append, hfiles]
      rfl
    · rw [reads_cons hgoes, hreads, hrest, hcache]
      unfold usesOf Verified.after
      simp only [List.foldl_cons, List.foldl_nil, List.cons_append, List.nil_append, Recheck.reads]
      omega
    · unfold Batch.KeepersRest
      rw [← hstill, ← keeper_still_iff hgoing.groups hs hholds hbehind, hcache]
      unfold usesOf Verified.after
      simp only [List.foldl_cons, List.foldl_nil, List.cons_append, List.nil_append, Recheck.Still]
      rw [show (useOf action.target t nt action.size).key = action.target from rfl, htarget,
        show (useOf action.keeper k nk action.size).key = action.keeper from rfl, hkeeper]
      simp [useOf]

/-- **The run under `--strict-verify`** reads every file of every action. -/
theorem applyAll_strict : ∀ {rest done : List PlanAction} {index : Nat} {b : Batch} {w : World},
    Going own done rest b w → b.mode = .strict → Completed (b.applyAll index rest w) →
      b.reads index rest w = (rest.map fun a => a.size * 2).sum
  | [], _, _, _, _, _, _, _ => rfl
  | action :: rest, done, index, b, w, hgoing, hmode, hrun => by
    obtain ⟨hgoes, hok, hmore⟩ := completed_cons hrun
    obtain ⟨t, k, nt, nk, hs⟩ := hgoing.standing action List.mem_cons_self
    obtain ⟨hreads, -, hcarried⟩ := applyOne_completed (w := { w with index := index })
      hgoing.spares hgoing.clones hs hok
    obtain ⟨hsame, -⟩ := Batch.applyOne_ran index action b { w with index := index }
    have hnext : Going own (done ++ [action]) rest
        (b.applyOne index action { w with index := index }).2.1
        (b.applyOne index action { w with index := index }).2.2 := hgoing.next hcarried
    have hrest := applyAll_strict hnext
      (by rw [hsame.mode]; exact hmode) hmore
    rw [if_pos hmode] at hreads
    rw [reads_cons hgoes, hreads, hrest, List.map_cons, List.sum_cons]
    omega

/-! ## The estimate and the run -/

/-- Each file of the actions once is each target and each keeper that is new. -/
theorem firsts_filesOf : ∀ {rest done : List PlanAction} {seen keepers : List Path},
    InGroups (done ++ rest) → (∀ p, p ∈ seen ↔ p ∈ seenIn done) →
    (∀ p, p ∈ keepers ↔ p ∈ done.map PlanAction.keeper) →
    Recheck.firsts seen (filesOf rest) =
      (rest.map PlanAction.size).sum + ((keepersOnce keepers rest).map PlanAction.size).sum
  | [], _, _, _, _, _, _ => rfl
  | action :: rest, done, seen, keepers, hgroups, hseen, hkeepers => by
    have hself : action ∈ done ++ action :: rest := List.mem_append_right _ List.mem_cons_self
    have hgroups' : InGroups ((done ++ [action]) ++ rest) := by
      rw [List.append_assoc, List.singleton_append]
      exact hgroups
    have hnew : action.target ∉ seen := by
      rw [hseen, mem_seenIn]
      rintro ⟨a, ha, hp | hp⟩
      · have hnodup := hgroups.targets
        rw [List.map_append] at hnodup
        refine (List.nodup_append'.1 hnodup).2.2 (List.mem_map_of_mem ha) ?_
        rw [← hp]
        exact List.mem_map_of_mem List.mem_cons_self
      · exact hgroups.apart a (List.mem_append_left _ ha) action hself hp.symm
    have hkeeper : action.keeper ∈ action.target :: seen ↔ action.keeper ∈ keepers := by
      rw [List.mem_cons, or_iff_right (hgroups.apart action hself action hself), hseen, hkeepers,
        mem_seenIn, List.mem_map]
      constructor
      · rintro ⟨a, ha, hp | hp⟩
        · exact absurd hp (hgroups.apart action hself a (List.mem_append_left _ ha))
        · exact ⟨a, ha, hp.symm⟩
      · rintro ⟨a, ha, hp⟩
        exact ⟨a, ha, .inr hp.symm⟩
    rw [show filesOf (action :: rest) = (action.target, action.size) ::
      (action.keeper, action.size) :: filesOf rest from rfl, Recheck.firsts, if_neg hnew,
      Recheck.firsts, keepersOnce, List.map_cons, List.sum_cons]
    by_cases hold : action.keeper ∈ keepers
    · rw [if_pos (hkeeper.2 hold), if_pos hold, @firsts_filesOf rest _ _ keepers hgroups'
        (fun p => ?_) fun p => ?_]
      · omega
      · rw [List.mem_cons, hseen]
        have : p = action.keeper → p ∈ seenIn done := by
          rintro rfl
          exact (hseen _).1 ((List.mem_cons.1 (hkeeper.2 hold)).resolve_left
            (hgroups.apart action hself action hself))
        simp only [seenIn, List.flatMap_append, List.flatMap_singleton, List.mem_append,
          List.mem_cons, List.not_mem_nil, or_false] at this ⊢
        tauto
      · rw [hkeepers, List.map_append, List.mem_append, or_iff_left_of_imp]
        intro hp
        rw [List.map_singleton, List.mem_singleton] at hp
        rw [hp, ← hkeepers]
        exact hold
    · rw [if_neg fun h => hold (hkeeper.1 h), if_neg hold, List.map_cons, List.sum_cons,
        @firsts_filesOf rest _ _ (action.keeper :: keepers) hgroups' (fun p => ?_) fun p => ?_]
      · omega
      · rw [List.mem_cons, List.mem_cons, hseen]
        simp only [seenIn, List.flatMap_append, List.flatMap_singleton, List.mem_append,
          List.mem_cons, List.not_mem_nil, or_false]
        tauto
      · rw [List.mem_cons, hkeepers, List.map_append, List.map_singleton, List.mem_append,
          List.mem_singleton]
        exact Or.comm

/-- A strict estimate is exact, and any other is unless a keeper comes back moved: in both cases as
    long as 64 bits hold it. -/
def Batch.WithinBudget (b : Batch) (w : World) : Prop :=
  if b.mode = .strict then (b.plan.actions.map fun action => action.size * 2).sum < 2 ^ 64
  else
    (b.plan.actions.map PlanAction.size).sum +
        ((keepersOnce [] b.plan.actions).map PlanAction.size).sum < 2 ^ 64 ∧
      b.KeepersRest none 0 b.plan.actions w

theorem strict_total_iff (sizes : List Nat) :
    (sizes.map fun n => n * 2).sum = (sizes.map fun n => min (n * 2) (2 ^ 64 - 1)).sum % 2 ^ 64 ↔
      (sizes.map fun n => n * 2).sum < 2 ^ 64 := by
  constructor
  · intro h
    rw [h]
    exact Nat.mod_lt _ (by decide)
  · intro h
    have hsame : (sizes.map fun n => min (n * 2) (2 ^ 64 - 1)) = sizes.map fun n => n * 2 := by
      refine List.map_congr_left fun n hn => ?_
      have := List.single_le_sum (fun _ _ => Nat.zero_le _) _
        (List.mem_map_of_mem (f := fun n => n * 2) hn)
      omega
    rw [hsame, Nat.mod_eq_of_lt h]

/-- What the cache lets through is the estimate. -/
theorem cached_total_iff {reads targets keepers : Nat} (h : targets + keepers ≤ reads) :
    reads = min (targets % 2 ^ 64 + keepers % 2 ^ 64) (2 ^ 64 - 1) ↔
      targets + keepers < 2 ^ 64 ∧ reads = targets + keepers := by
  constructor
  · intro heq
    have hlt : targets + keepers < 2 ^ 64 := by omega
    rw [Nat.mod_eq_of_lt (show targets < 2 ^ 64 by omega),
      Nat.mod_eq_of_lt (show keepers < 2 ^ 64 by omega)] at heq
    exact ⟨hlt, by omega⟩
  · rintro ⟨hlt, rfl⟩
    rw [Nat.mod_eq_of_lt (show targets < 2 ^ 64 by omega),
      Nat.mod_eq_of_lt (show keepers < 2 ^ 64 by omega)]
    omega

/-- The two files of an action, where the preflight passed. -/
theorem preflightActions_apart : ∀ {states : List ObjectState} {actions : List PlanAction},
    preflightActions states actions = .ok () → ∀ a ∈ actions, ∀ target keeper,
      states[a.targetObject]? = some target → states[a.keeperObject]? = some keeper →
        target.identity.id ≠ keeper.identity.id
  | _, [], _, _, ha, _, _, _, _ => by cases ha
  | states, action :: actions, h, a, ha, target, keeper, ht, hk => by
    have hrest : preflightActions states actions = .ok () := by
      unfold preflightActions at h
      split at h
      · split at h
        · cases h
        · exact h
      · exact h
    rcases List.mem_cons.1 ha with rfl | ha
    · unfold preflightActions at h
      rw [ht, hk] at h
      simp only at h
      split at h
      · cases h
      · rename_i hne
        exact fun heq => hne (by rw [Prod.mk.injEq]; exact ⟨congrArg InodeId.device heq,
          congrArg InodeId.inode heq⟩)
    · exact preflightActions_apart hrest a ha target keeper ht hk

section Budget

variable {scanId : Int} {groups : List PlanGroupInput} {accepted : ActionPlan} {u : Unrunnable}
  {w₀ : World} {live : RuntimeLedger} {b : Batch}

/-- **Behind the preflight** every action finds its two files. -/
theorem preflight_standing (h : AcceptedPlan groups accepted) (hk : Spares w₀.outside own)
    (hown : ∀ o ∈ accepted.objects, o.key.id ∈ own)
    (hpre : ((accepted.withUnrunnable u).preflight w₀).1 = .ok live) :
    ∀ a ∈ accepted.actions, ∃ t k nt nk,
      Standing own ((accepted.withUnrunnable u).preflight w₀).2.fs a t k nt nk := by
  intro a ha
  have hobjects : ∀ states, (preflightObjects accepted.objects w₀).1 = .ok states →
      List.Forall₂ (Opened (preflightObjects accepted.objects w₀).2.fs) accepted.objects states :=
    fun _ => preflightObjects_sync hk hown
  unfold ActionPlan.preflight at hpre ⊢
  rw [show (accepted.withUnrunnable u).objects = accepted.objects from rfl,
    show (accepted.withUnrunnable u).actions = accepted.actions from rfl] at hpre ⊢
  generalize preflightObjects accepted.objects w₀ = step at hpre hobjects ⊢
  obtain ⟨result, w₁⟩ := step
  cases result with
  | error e => cases hpre
  | ok states =>
  have hall := hobjects states rfl
  simp only at hpre hall ⊢
  cases hactions : preflightActions states accepted.actions with
  | error e =>
    rw [hactions] at hpre
    cases hpre
  | ok _ =>
  obtain ⟨g, hg, hact⟩ := h.actions a ha
  obtain ⟨t, ht, htarget, -, -, ot, hot, hoft, hkeyt⟩ := hact.covered
  obtain ⟨k, hkeep, hkeeper, ok, hok, hofk, hkeyk⟩ := hact.keeper
  obtain ⟨-, -, htm, -⟩ := mem_coveredOf.1 ht
  have hmt : a.target ∈ ot.members := by
    rw [hoft.members_eq, htarget]
    exact List.mem_map_of_mem (List.mem_filter.2 ⟨htm, by simp [hkeyt]⟩)
  have hmk : a.keeper ∈ ok.members := by
    rw [hofk.members_eq, hkeeper]
    exact List.mem_map_of_mem (List.mem_filter.2 ⟨(keeperOf_mem hkeep).1, by simp [hkeyk]⟩)
  have hentry : ∀ {index : Nat} {o : PlannedObject}, accepted.objects[index]? = some o →
      ∃ e, states[index]? = some e ∧ Opened w₁.fs o e := by
    intro index o ho
    obtain ⟨hlt, rfl⟩ := List.getElem?_eq_some_iff.1 ho
    have hlt' : index < states.length := by rw [← hall.length_eq]; exact hlt
    exact ⟨_, List.getElem?_eq_getElem hlt', hall.get hlt hlt'⟩
  obtain ⟨et, het, hopent⟩ := hentry hot
  obtain ⟨ek, hek, hopenk⟩ := hentry hok
  have hapart := preflightActions_apart hactions a ha et ek het hek
  obtain ⟨nt, Nt, hhast, -, -, hnamest⟩ := hopent.synced
  obtain ⟨nk, Nk, hhask, -, -, hnamesk⟩ := hopenk.synced
  rw [hopent.paths] at hnamest
  rw [hopenk.paths] at hnamesk
  exact ⟨et.identity.id, ek.identity.id, nt, nk, hhast.lookup (hnamest _ hmt),
    hhask.lookup (hnamesk _ hmk), by rw [hopent.id]; exact hown _ (List.mem_of_getElem? hot),
    by rw [hopenk.id]; exact hown _ (List.mem_of_getElem? hok), hapart⟩

/-- **The estimate is exact**: a batch over unchanged files in which every action succeeds shows on
    its counter the bytes it reads, and they are `verify_bytes_total` if and only if 64 bits hold
    them and, without `--strict-verify`, no action asks for a keeper whose `ctime` the hardlink
    before it has moved. -/
theorem reads_eq_total_iff (haccepted : ActionPlan.tryNew scanId groups = .ok accepted)
    (hfiles : Spares w₀.outside (planFiles accepted w₀.outside))
    (hpre : ((accepted.withUnrunnable u).preflight w₀).1 = .ok live)
    (hlater : Later (planFiles accepted w₀.outside) ((accepted.withUnrunnable u).preflight w₀).2 w)
    (hplan : b.plan = accepted.withUnrunnable u) (hverified : b.verified = [])
    (hrun : Completed (b.applyAll 0 b.plan.actions w)) :
    CounterGrew (b.reads 0 b.plan.actions w) w (b.applyAll 0 b.plan.actions w).2.2 ∧
      (b.reads 0 b.plan.actions w = verifyBytesTotal b.plan b.mode ↔ b.WithinBudget w) := by
  refine ⟨b.applyAll_counted 0 b.plan.actions w, ?_⟩
  have h := ActionPlan.tryNew_ok haccepted
  have houtside : w.outside = w₀.outside :=
    hlater.outside.trans ((accepted.withUnrunnable u).preflight_looked w₀).outside
  have hactions : b.plan.actions = accepted.actions := by rw [hplan]; rfl
  have hgoing : Going (planFiles accepted w₀.outside) [] b.plan.actions b w := by
    refine ⟨by rw [houtside]; exact hfiles, fun d n => .inr ⟨d, n, by rw [houtside]⟩, ?_, ?_⟩
    · rw [hactions]
      exact h.inGroups
    · intro a ha
      rw [hactions] at ha
      obtain ⟨t, k, nt, nk, hs⟩ := preflight_standing h hfiles (fun o ho => .inl ⟨o, ho, rfl⟩) hpre
        a ha
      exact ⟨t, k, nt, nk, hs.untouched hlater.files⟩
  unfold verifyBytesTotal Batch.WithinBudget
  by_cases hmode : b.mode = .strict
  · rw [if_pos hmode, if_pos hmode, applyAll_strict hgoing hmode hrun]
    have := strict_total_iff (b.plan.actions.map PlanAction.size)
    rwa [List.map_map, List.map_map] at this
  · obtain ⟨uses, hfilesOf, hreads, hstill⟩ := applyAll_uses hgoing hmode
      (by rw [hverified]; exact fun k => iff_of_false List.not_mem_nil nofun)
      (⟨rfl, nofun⟩ : Behind _ [] none b w) hrun
    obtain ⟨hle, hiff⟩ := @Recheck.reads_eq_firsts_iff _ _ _ _ _ uses b.verified []
      (by rw [hverified]; exact fun k => iff_of_false List.not_mem_nil nofun)
    have hfirsts := @firsts_filesOf b.plan.actions [] [] [] hgoing.groups (fun _ => Iff.rfl)
      fun _ => Iff.rfl
    rw [hfilesOf, hfirsts] at hle hiff
    rw [if_neg hmode, if_neg hmode, ← hstill, ← hiff, hreads]
    exact cached_total_iff hle

end Budget

/-- A plan in which no hardlink stands before an action with its keeper rests whatever the clock
    shows. -/
theorem keepersRest_of_chain : ∀ {actions : List PlanAction} {before : Option (PlanAction × World)}
    {index : Nat} {b : Batch} {w : World},
    ((before.map Prod.fst).toList ++ actions).IsChain (fun a a' =>
      a.kind = .hardlink → a.keeper = a'.keeper → a'.size = 0) →
    b.KeepersRest before index actions w
  | [], _, _, _, _, _ => trivial
  | action :: actions, before, index, b, w, h => by
    refine ⟨?_, keepersRest_of_chain (h.suffix (List.suffix_append _ _))⟩
    rintro last v rfl hkind hkeeper hpos
    have := (List.isChain_cons_cons.1 h).1 hkind hkeeper
    omega

/-! ## Two hardlinks to one keeper -/

/-- `/a` is kept, `/b` and `/c` are to become hardlinks of it. -/
def linkTwice : List PlanGroupInput :=
  [⟨⟨1, 0, 5⟩, "aa",
    [sampleMember 97 isName_a 1 1 .keeper, sampleMember 98 isName_b 9 1 (.act .hardlink),
      sampleMember 99 isName_c 3 1 (.act .hardlink)]⟩]

/-- A batch with the default re-check. -/
def hybridBatch (plan : ActionPlan) (live : RuntimeLedger) : Batch :=
  { batchOf plan live with mode := .hybrid }

instance (run : (List (ActionOutcome × ActionResult) × Bool) × Batch × World) :
    Decidable (Completed run) :=
  decidable_of_iff (run.1.2 = false ∧ ∀ d ∈ run.1.1, d.1.result = .ok ())
    ⟨fun h => ⟨h.1, h.2⟩, fun h => ⟨h.1, h.2⟩⟩

/-- The batch over `groups` completes, reads `reads` bytes and was estimated at `total`. -/
def measures (groups : List PlanGroupInput) (disk : Filesystem) (reads total : Nat) : Bool :=
  match ActionPlan.tryNew 1 groups with
  | .error _ => false
  | .ok plan =>
    match (plan.preflight (quietRun disk)).1 with
    | .error _ => false
    | .ok live =>
      let b := hybridBatch plan live
      let w := (plan.preflight (quietRun disk)).2
      decide (Completed (b.applyAll 0 b.plan.actions w) ∧ b.reads 0 b.plan.actions w = reads ∧
        verifyBytesTotal b.plan b.mode = total)

theorem measures_spec {groups : List PlanGroupInput} {disk : Filesystem} {reads total : Nat}
    (h : measures groups disk reads total = true) : ∃ plan live,
      ActionPlan.tryNew 1 groups = .ok plan ∧ (plan.preflight (quietRun disk)).1 = .ok live ∧
      Completed ((hybridBatch plan live).applyAll 0 (hybridBatch plan live).plan.actions
        (plan.preflight (quietRun disk)).2) ∧
      (hybridBatch plan live).reads 0 (hybridBatch plan live).plan.actions
        (plan.preflight (quietRun disk)).2 = reads ∧
      verifyBytesTotal (hybridBatch plan live).plan (hybridBatch plan live).mode = total := by
  unfold measures at h
  cases hplan : ActionPlan.tryNew 1 groups with
  | error e =>
    rw [hplan] at h
    cases h
  | ok plan =>
    rw [hplan] at h
    cases hpre : (plan.preflight (quietRun disk)).1 with
    | error e =>
      simp only [hpre] at h
      cases h
    | ok live =>
      simp only [hpre] at h
      exact ⟨plan, live, rfl, hpre, of_decide_eq_true h⟩

theorem spares_quietRun (plan : ActionPlan) (disk : Filesystem) :
    Spares (quietRun disk).outside (planFiles plan (quietRun disk).outside) :=
  (undisturbed_quietRun plan disk).spares

theorem withUnrunnable_default {scanId : Int} {groups : List PlanGroupInput} {plan : ActionPlan}
    (h : ActionPlan.tryNew scanId groups = .ok plan) : plan.withUnrunnable .default = plan := by
  unfold ActionPlan.withUnrunnable
  rw [ite_self, ← (ActionPlan.tryNew_ok h).unrunnable]

/-- A deletion and a hardlink with one keeper: the keeper is read once, as announced. -/
theorem reads_eq_total_iff_both : ∃ plan live,
    ActionPlan.tryNew 1 deleteAndLink = .ok plan ∧
    (hybridBatch plan live).reads 0 (hybridBatch plan live).plan.actions
      (plan.preflight (quietRun threeFiles)).2 = 6 ∧
    CounterGrew ((hybridBatch plan live).reads 0 (hybridBatch plan live).plan.actions
        (plan.preflight (quietRun threeFiles)).2) (plan.preflight (quietRun threeFiles)).2
      ((hybridBatch plan live).applyAll 0 (hybridBatch plan live).plan.actions
        (plan.preflight (quietRun threeFiles)).2).2.2 ∧
    ((hybridBatch plan live).reads 0 (hybridBatch plan live).plan.actions
        (plan.preflight (quietRun threeFiles)).2 =
      verifyBytesTotal (hybridBatch plan live).plan .hybrid ↔
        (hybridBatch plan live).WithinBudget (plan.preflight (quietRun threeFiles)).2) := by
  obtain ⟨plan, live, hplan, hpre, hrun, hreads, -⟩ :=
    measures_spec (show measures deleteAndLink threeFiles 6 6 = true by decide)
  have hsame := withUnrunnable_default hplan
  refine ⟨plan, live, hplan, hreads, ?_⟩
  exact reads_eq_total_iff (u := .default) hplan (spares_quietRun plan _) (by rw [hsame]; exact hpre)
    (by rw [hsame]; exact ⟨rfl, Untouched.refl _ _⟩) rfl rfl hrun

/-- The link and the rename of `/b` move the `ctime` of `/a`, and `/c` has it read a second time:
    eight bytes where six were announced, and nobody else touched a file. -/
theorem not_reads_eq_total : ∃ plan live,
    ActionPlan.tryNew 1 linkTwice = .ok plan ∧
    Spares (quietRun threeFiles).outside (planFiles plan (quietRun threeFiles).outside) ∧
    (plan.preflight (quietRun threeFiles)).1 = .ok live ∧
    Completed ((hybridBatch plan live).applyAll 0 (hybridBatch plan live).plan.actions
      (plan.preflight (quietRun threeFiles)).2) ∧
    (hybridBatch plan live).reads 0 (hybridBatch plan live).plan.actions
      (plan.preflight (quietRun threeFiles)).2 = 8 ∧
    verifyBytesTotal (hybridBatch plan live).plan .hybrid = 6 := by
  obtain ⟨plan, live, hplan, hpre, hrun, hreads, htotal⟩ :=
    measures_spec (show measures linkTwice threeFiles 8 6 = true by decide)
  exact ⟨plan, live, hplan, spares_quietRun plan _, hpre, hrun, hreads, htotal⟩

end DedupCommando
