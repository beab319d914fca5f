import DedupCommando.Actions.ActionSync

/-!
# No false alarm

A whole batch whose plan's files no other process changes.

* `preflight_sync` — the ledger a preflight opens describes the disk.
* `ClearRun` — the actions of a plan in any order, each at most once, each under a clear name.
* `no_false_alarm` — over such a run every check passes and nothing is unsettled.
* `not_no_false_alarm` — under a name that a pathname of the keeper has, the keeper is poisoned.
-/

set_option autoImplicit false

namespace DedupCommando

open World Filesystem

variable {own : Set InodeId} {w : World}

/-! ## The preflight -/

/-- What the member loop has read so far: nothing, or the inode with all the pathnames met. -/
def ReadSo (fs : Filesystem) (i : InodeId) (seen : List Path) : Option LiveIdentity → Prop
  | none => seen = []
  | some live => ∃ n names, fs.Has i n names ∧ n.kind ≠ .symlink ∧ n.identity i = live ∧
      ∀ p ∈ seen, p ∈ names

theorem ReadSo.untouched {fs fs' : Filesystem} {i : InodeId} {seen : List Path}
    {live : Option LiveIdentity} (h : ReadSo fs i seen live) (hu : Untouched own fs fs')
    (hi : i ∈ own) : ReadSo fs' i seen live := by
  cases live with
  | none => exact h
  | some live =>
    obtain ⟨n, names, hhas, hrest⟩ := h
    exact ⟨n, names, hu i hi n names hhas, hrest⟩

/-- A reading names an inode that is there and no symbolic link. -/
theorem liveIdentity_ok {p : Path} {live : LiveIdentity} (h : (liveIdentity p w).1 = .ok live) :
    ∃ i n, (liveIdentity p w).2.fs.entries p = some i ∧ (liveIdentity p w).2.fs.nodes i = some n ∧
      n.kind ≠ .symlink ∧ live = n.identity i := by
  unfold liveIdentity World.stat at h ⊢
  rcases w.perform_cases (.identity p) (Filesystem.lstat p) with ⟨e, hp, -⟩ | ⟨⟨i, n⟩, fs, hp, -, hop⟩
  · rw [hp] at h
    cases h
  · obtain ⟨hfs, hfound⟩ := Filesystem.lstat_ok hop
    obtain ⟨hentry, hnode⟩ := lookup_eq_some.1 hfound
    rw [hp] at h ⊢
    simp only at h ⊢
    split at h
    · cases h
    · rename_i hkind
      cases h
      rw [if_neg hkind]
      simp only
      rw [hfs]
      exact ⟨i, n, hentry, hnode, hkind, rfl⟩

theorem PlanObjectKey.firstDrift_id {key : PlanObjectKey} {live : LiveIdentity} {links : Nat}
    (h : key.firstDrift live links = none) : live.id = key.id := by
  unfold PlanObjectKey.firstDrift at h
  rw [firstDisagreement_eq_none] at h
  have hdevice := h _ List.mem_cons_self
  have hinode := h _ (List.mem_cons_of_mem _ List.mem_cons_self)
  simp only [decide_eq_true_eq] at hdevice hinode
  unfold LiveIdentity.id PlanObjectKey.id
  rw [hdevice, hinode]

theorem preflightMembers_sync {object : PlannedObject} (hown : object.key.id ∈ own) :
    ∀ {members seen : List Path} {before after : Option LiveIdentity} {w : World},
      Spares w.outside own → ReadSo w.fs object.key.id seen before →
      (preflightMembers object before members w).1 = .ok after →
      ReadSo (preflightMembers object before members w).2.fs object.key.id (seen ++ members) after
  | [], seen, before, after, w, _, hread, h => by
    cases h
    rw [List.append_nil]
    exact hread
  | p :: members, seen, before, after, w, hk, hread, h => by
    have hlooked := liveIdentity_looked p w
    have hread₁ := hread.untouched (hlooked.keeps _ hk) hown
    have hfound : ∀ live, (liveIdentity p w).1 = .ok live → ∃ i n,
        (liveIdentity p w).2.fs.entries p = some i ∧ (liveIdentity p w).2.fs.nodes i = some n ∧
        n.kind ≠ .symlink ∧ live = n.identity i := fun _ => liveIdentity_ok
    unfold preflightMembers at h ⊢
    generalize liveIdentity p w = step at *
    obtain ⟨result, w₁⟩ := step
    cases result with
    | error e => cases h
    | ok live =>
    obtain ⟨i, n, hentry, hnode, hkind, rfl⟩ := hfound live rfl
    simp only at h hentry hnode hread₁ ⊢
    split at h
    · cases h
    rename_i hdrift
    have hid : i = object.key.id := PlanObjectKey.firstDrift_id hdrift
    subst hid
    have hnow : ReadSo w₁.fs object.key.id (seen ++ [p]) (some (n.identity object.key.id)) := by
      refine ⟨n, {q | w₁.fs.entries q = some object.key.id}, ⟨hnode, fun q => Iff.rfl⟩, hkind, rfl,
        fun q hq => ?_⟩
      rcases List.mem_append.1 hq with hq | hq
      · cases before with
        | none =>
          have hnil : seen = [] := hread₁
          rw [hnil] at hq
          cases hq
        | some live =>
          obtain ⟨m, names, hhas, -, -, hseen⟩ := hread₁
          exact (hhas.names q).2 (hseen q hq)
      · rw [List.mem_singleton.1 hq]
        exact hentry
    have hrest := preflightMembers_sync hown (hlooked.toTraced.keeps hk) hnow h
    rw [List.append_assoc] at hrest
    exact hrest

/-- What the ledger records of an object of the plan. -/
structure Opened (fs : Filesystem) (o : PlannedObject) (e : ObjectState) : Prop where
  id : e.identity.id = o.key.id
  paths : e.paths = o.members
  settled : e.settled = true
  synced : SyncedEntry fs e

theorem opened_ids {fs : Filesystem} : ∀ {objects : List PlannedObject} {states : List ObjectState},
    List.Forall₂ (Opened fs) objects states →
      (states.map fun e => e.identity.id) = objects.map fun o => o.key.id
  | _, _, .nil => rfl
  | _, _, .cons hone hrest => by rw [List.map_cons, List.map_cons, hone.id, opened_ids hrest]

theorem preflightObjects_sync : ∀ {objects : List PlannedObject} {states : List ObjectState}
    {w : World}, Spares w.outside own → (∀ o ∈ objects, o.key.id ∈ own) →
    (preflightObjects objects w).1 = .ok states →
    List.Forall₂ (Opened (preflightObjects objects w).2.fs) objects states
  | [], states, w, _, _, h => by
    cases h
    exact .nil
  | o :: objects, states, w, hk, hown, h => by
    have hmem := hown o List.mem_cons_self
    have hlooked := preflightMembers_looked o o.members none w
    have hread : ∀ after, (preflightMembers o none o.members w).1 = .ok after →
        ReadSo (preflightMembers o none o.members w).2.fs o.key.id ([] ++ o.members) after :=
      fun _ => preflightMembers_sync hmem hk rfl
    unfold preflightObjects at h ⊢
    generalize preflightMembers o none o.members w = step at *
    obtain ⟨result, w₁⟩ := step
    rcases result with e | _ | live
    · cases h
    · cases h
    simp only at h hread ⊢
    split at h
    · cases h
    rename_i hmanifest
    simp only [if_neg hmanifest]
    have hk₁ := hlooked.toTraced.keeps hk
    have hlooked₁ := preflightObjects_looked objects w₁
    have hrest : ∀ states, (preflightObjects objects w₁).1 = .ok states →
        List.Forall₂ (Opened (preflightObjects objects w₁).2.fs) objects states :=
      fun _ => preflightObjects_sync hk₁ fun o' ho' => hown o' (List.mem_cons_of_mem o ho')
    generalize preflightObjects objects w₁ = step at *
    obtain ⟨result, w₂⟩ := step
    cases result with
    | error e => cases h
    | ok states' =>
    cases h
    obtain ⟨n, names, hhas, hkind, hid, hseen⟩ := (hread (some live) rfl).untouched
      (hlooked₁.keeps _ hk₁) hmem
    have hlive : live.id = o.key.id := by rw [← hid]; rfl
    refine .cons ⟨hlive, rfl, rfl, n, names, ?_, hkind, ?_, by simpa using hseen⟩
      (hrest states' rfl)
    · rw [show (ObjectState.mk live o.members true).identity.id = o.key.id from hlive]
      exact hhas
    · rw [show (ObjectState.mk live o.members true).identity.id = o.key.id from hlive]
      exact hid

/-- The files of a plan: its allocations, and the inodes its clones are given. -/
def planFiles (plan : ActionPlan) (o : Outside) : Set InodeId :=
  {i | (∃ object ∈ plan.objects, object.key.id = i) ∨ ∃ d n, i = ⟨d, o.inode n⟩}

/-- No other process changes a file of the plan, and no reading of the ledger's and no unlink fails
    by itself. -/
structure Undisturbed (plan : ActionPlan) (o : Outside) : Prop where
  spares : Spares o (planFiles plan o)
  reads : o.Reads
  unlinks : o.Unlinks

/-- **The ledger a preflight opens** describes the disk. -/
theorem preflight_sync {groups : List PlanGroupInput} {accepted : ActionPlan}
    (h : AcceptedPlan groups accepted) (hinodes : (accepted.objects.map fun o => o.key.id).Nodup)
    {u : Unrunnable} (hk : Spares w.outside own) (hown : ∀ o ∈ accepted.objects, o.key.id ∈ own)
    {live : RuntimeLedger} (hpre : ((accepted.withUnrunnable u).preflight w).1 = .ok live) :
    List.Forall₂ (Opened ((accepted.withUnrunnable u).preflight w).2.fs) accepted.objects
        live.objects ∧
      SyncedBut own ∅ ((accepted.withUnrunnable u).preflight w).2.fs live := by
  have hobjects : ∀ states, (preflightObjects accepted.objects w).1 = .ok states →
      List.Forall₂ (Opened (preflightObjects accepted.objects w).2.fs) accepted.objects states :=
    fun _ => preflightObjects_sync hk hown
  have hplan : (accepted.withUnrunnable u).objects = accepted.objects := rfl
  unfold ActionPlan.preflight at hpre ⊢
  rw [hplan] at hpre ⊢
  generalize preflightObjects accepted.objects w = step at *
  obtain ⟨result, w₁⟩ := step
  cases result with
  | error e => cases hpre
  | ok states =>
  have hall := hobjects states rfl
  simp only at hpre hall ⊢
  split at hpre
  · cases hpre
  cases hpre
  refine ⟨hall, ?_⟩
  have hopened : ∀ e ∈ states, ∃ o ∈ accepted.objects, Opened w₁.fs o e := by
    intro e he
    obtain ⟨i, hi, rfl⟩ := List.mem_iff_getElem.1 he
    have hlt : i < accepted.objects.length := by rw [hall.length_eq]; exact hi
    exact ⟨_, List.getElem_mem hlt, hall.get hlt hi⟩
  refine ⟨by rw [opened_ids hall]; exact hinodes, fun e he => ?_, fun e he => ?_, fun e he => ?_,
    fun e he _ => ?_⟩
  · obtain ⟨o, ho, hone⟩ := hopened e he
    rw [hone.id]
    exact hown o ho
  · obtain ⟨o, ho, hone⟩ := hopened e he
    exact hone.settled
  · obtain ⟨o, ho, hone⟩ := hopened e he
    obtain ⟨g, hg, hof⟩ := h.objects o ho
    rw [hone.paths]
    exact h.nodup_members hg hof
  · obtain ⟨o, ho, hone⟩ := hopened e he
    exact hone.synced

/-! ## Where the plan's pathnames are -/

theorem follow_eq : ∀ {booked : List Booking} {p : Path},
    (∀ source dest, .moved source dest ∈ booked → source ≠ p) → follow booked p = p
  | [], _, _ => rfl
  | .moved source dest :: booked, p, h => by
    unfold follow
    rw [if_neg (h source dest List.mem_cons_self).symm]
    exact follow_eq fun s d hm => h s d (List.mem_cons_of_mem _ hm)
  | .settled :: booked, p, h => @follow_eq booked p fun s d hm => h s d (List.mem_cons_of_mem _ hm)
  | .linked :: booked, p, h => @follow_eq booked p fun s d hm => h s d (List.mem_cons_of_mem _ hm)
  | .refused :: booked, p, h => @follow_eq booked p fun s d hm => h s d (List.mem_cons_of_mem _ hm)

theorem mem_ownOf {booked : List (Nat × Booking)} {object : Nat} {k : Booking}
    (h : k ∈ ownOf booked object) : (object, k) ∈ booked := by
  unfold ownOf at h
  obtain ⟨⟨o, k'⟩, hm, rfl⟩ := List.mem_map.1 h
  obtain ⟨hm, ho⟩ := List.mem_filter.1 hm
  have ho : o = object := by simpa using ho
  rw [← ho]
  exact hm

/-- A member of the plan that no executed action targets is where the plan found it, in the entry
    of its own object. -/
theorem member_kept {plan : ActionPlan} {fs : Filesystem}
    {b₀ b : Batch} {indices : List Nat} (hopened : List.Forall₂ (Opened fs) plan.objects
      b₀.ledger.objects) (hrun : BatchRun plan b₀ indices b) {i : Nat} {o : PlannedObject}
    (ho : plan.objects[i]? = some o) {p : Path} (hp : p ∈ o.members)
    (hkept : ∀ index ∈ indices, ∀ action, plan.actions[index]? = some action → action.target ≠ p) :
    ∃ e, b.ledger.objects[i]? = some e ∧ e.identity.id = o.key.id ∧ p ∈ e.paths := by
  obtain ⟨booked, hledger, hown⟩ := hrun.books
  obtain ⟨hlt, rfl⟩ := List.getElem?_eq_some_iff.1 ho
  have hlt' : i < b₀.ledger.objects.length := by rw [← hopened.length_eq]; exact hlt
  have hone : Opened fs plan.objects[i] b₀.ledger.objects[i] := hopened.get hlt hlt'
  obtain ⟨e, he, htracks⟩ := hledger.tracks (List.getElem?_eq_getElem hlt')
  refine ⟨e, he, ?_, ?_⟩
  · rw [← hone.id, htracks.identity.1]
    rfl
  · have hfollow : follow (ownOf booked i) p = p := follow_eq fun source dest hm => by
      obtain ⟨index, hindex, action, haction, -, hmoved⟩ := hown _ (mem_ownOf hm)
      rw [hmoved source dest rfl]
      exact hkept index hindex action haction
    have hpaths := htracks.paths p (by rw [hone.paths]; exact hp)
    rw [hfollow] at hpaths
    exact hpaths

/-! ## Runs -/

/-- Time passed, and the files `own` were left alone. -/
structure Later (own : Set InodeId) (w w' : World) : Prop where
  outside : w'.outside = w.outside
  files : Untouched own w.fs w'.fs

/-- A run of a batch over the actions of its plan, in any order and each at most once, whose every
    step is under a clear temporary name. -/
inductive ClearRun (own : Set InodeId) (b₀ : Batch) (w₀ : World) :
    List Nat → Batch → World → Prop
  | start : ClearRun own b₀ w₀ [] b₀ w₀
  | later {indices : List Nat} {b : Batch} {w w' : World} :
      ClearRun own b₀ w₀ indices b w → Later own w w' → ClearRun own b₀ w₀ indices b w'
  | step {indices : List Nat} {b : Batch} {w : World} {index : Nat} {action : PlanAction} :
      ClearRun own b₀ w₀ indices b w → b₀.plan.actions[index]? = some action → index ∉ indices →
      StepClear index action b w →
      ClearRun own b₀ w₀ (indices ++ [index]) (b.applyOne index action w).2.1
        (b.applyOne index action w).2.2

theorem ClearRun.batchRun {b₀ b : Batch} {w₀ : World} {indices : List Nat}
    (h : ClearRun own b₀ w₀ indices b w) : BatchRun b₀.plan b₀ indices b := by
  induction h with
  | start => exact .refl b₀
  | later _ _ ih => exact ih
  | step _ haction _ _ ih => exact ih.step _ haction

theorem ClearRun.same {b₀ b : Batch} {w₀ : World} {indices : List Nat}
    (h : ClearRun own b₀ w₀ indices b w) : Batch.Same b₀ b ∧ w.outside = w₀.outside := by
  induction h with
  | start => exact ⟨Batch.Same.refl b₀, rfl⟩
  | later _ hlater ih => exact ⟨ih.1, hlater.outside.trans ih.2⟩
  | @step indices b w index action _ _ _ _ ih =>
    obtain ⟨hsame, hran, -⟩ := Batch.applyOne_ran index action b w
    exact ⟨ih.1.trans hsame, hran.outside.trans ih.2⟩

/-- The allocations of an action that was not executed yet, in the ledger of any run. -/
theorem places_of_run {groups : List PlanGroupInput} {plan : ActionPlan} {fs : Filesystem}
    (h : AcceptedPlan groups plan) (hinodes : (plan.objects.map fun o => o.key.id).Nodup)
    {u : Unrunnable} {b₀ b : Batch} {indices : List Nat}
    (hopened : List.Forall₂ (Opened fs) plan.objects b₀.ledger.objects)
    (hrun : BatchRun (plan.withUnrunnable u) b₀ indices b) {index : Nat} {action : PlanAction}
    (haction : plan.actions[index]? = some action) (hindex : index ∉ indices) :
    ∃ et ek, Places b.ledger action et ek ∧
      (plan.withUnrunnable u).targetDevice action = et.identity.device ∧
      (plan.withUnrunnable u).keeperDevice action = ek.identity.device := by
  obtain ⟨g, hg, hof⟩ := h.actions action (List.mem_of_getElem? haction)
  obtain ⟨t, ht, htarget, -, -, ot, hot, hoft, hkeyt⟩ := hof.covered
  obtain ⟨k, hk, hkeeper, ok, hok, hofk, hkeyk⟩ := hof.keeper
  obtain ⟨k', hk', htm, -, -, hne⟩ := mem_coveredOf.1 ht
  rw [hk] at hk'
  cases hk'
  have hmt : action.target ∈ ot.members := by
    rw [hoft.members_eq, htarget]
    exact List.mem_map_of_mem (List.mem_filter.2 ⟨htm, by simp [hkeyt]⟩)
  have hmk : action.keeper ∈ ok.members := by
    rw [hofk.members_eq, hkeeper]
    exact List.mem_map_of_mem (List.mem_filter.2 ⟨(keeperOf_mem hk).1, by simp [hkeyk]⟩)
  have hopened' : List.Forall₂ (Opened fs) (plan.withUnrunnable u).objects b₀.ledger.objects :=
    hopened
  obtain ⟨et, het, hidt, hpt⟩ := member_kept hopened' hrun hot hmt (by
    intro i hi a ha heq
    have : i = index := by
      refine (List.getElem?_inj
        (by rw [List.length_map]; exact (List.getElem?_eq_some_iff.1 ha).1) h.nodup_targets).1 ?_
      rw [List.getElem?_map, List.getElem?_map, haction]
      change plan.actions[i]? = some a at ha
      rw [ha, Option.map_some, Option.map_some, heq]
    exact hindex (this ▸ hi))
  obtain ⟨ek, hek, hidk, hpk⟩ := member_kept hopened' hrun hok hmk (by
    intro i hi a ha heq
    refine h.keeper_not_target hg hk ?_
    rw [← hkeeper, ← heq]
    exact List.mem_map_of_mem (List.mem_of_getElem? ha))
  have hids : ot.key.id ≠ ok.key.id := by
    intro heq
    have := List.inj_on_of_nodup_map hinodes (List.mem_of_getElem? hot) (List.mem_of_getElem? hok) heq
    rw [← hkeyt, ← hkeyk, this] at hne
    exact hne rfl
  refine ⟨et, ek, ⟨het, hek, hpt, hpk, by rw [hidt, hidk]; exact hids⟩, ?_, ?_⟩
  · have hdevice : et.identity.device = ot.key.device := congrArg InodeId.device hidt
    unfold ActionPlan.targetDevice ActionPlan.targetObjectOf
    rw [show (plan.withUnrunnable u).objects[action.targetObject]? = some ot from hot, hdevice]
  · have hdevice : ek.identity.device = ok.key.device := congrArg InodeId.device hidk
    unfold ActionPlan.keeperDevice ActionPlan.keeperObjectOf
    rw [show (plan.withUnrunnable u).objects[action.keeperObject]? = some ok from hok, hdevice]

theorem guardedPlace_device {b : Batch} {action : PlanAction} {dataset : Dataset}
    (h : b.guardedPlace action = .ok dataset) (hkind : action.kind ≠ .delete) :
    b.plan.keeperDevice action = b.plan.targetDevice action := by
  unfold Batch.guardedPlace at h
  split at h
  · cases h
  · rename_i hplace
    exact (place_ok hplace).2 hkind

section Run

variable {scanId : Int} {groups : List PlanGroupInput} {accepted : ActionPlan} {u : Unrunnable}
  {w₀ : World} {live : RuntimeLedger} {b₀ b : Batch} {indices : List Nat}

/-- The allocations of the next action of a run, on one device unless it is a deletion. -/
theorem next_places (haccepted : ActionPlan.tryNew scanId groups = .ok accepted)
    (hinodes : (accepted.objects.map fun o => o.key.id).Nodup)
    (hfiles : Undisturbed accepted w₀.outside)
    (hpre : ((accepted.withUnrunnable u).preflight w₀).1 = .ok live)
    (hplan : b₀.plan = accepted.withUnrunnable u) (hledger : b₀.ledger = live)
    (hrun : ClearRun (planFiles accepted w₀.outside) b₀
      ((accepted.withUnrunnable u).preflight w₀).2 indices b w)
    {index : Nat} {action : PlanAction} (haction : b₀.plan.actions[index]? = some action)
    (hindex : index ∉ indices) : ∃ et ek, Places b.ledger action et ek ∧
      ∀ dataset, b.guardedPlace action = .ok dataset → action.kind ≠ .delete →
        ek.identity.device = et.identity.device := by
  have h := ActionPlan.tryNew_ok haccepted
  obtain ⟨hopened, -⟩ := preflight_sync h hinodes hfiles.spares
    (fun o ho => .inl ⟨o, ho, rfl⟩) hpre
  rw [← hledger] at hopened
  have hbatch := hrun.batchRun
  rw [hplan] at hbatch haction
  obtain ⟨et, ek, hp, hdt, hdk⟩ := places_of_run h hinodes hopened hbatch haction hindex
  refine ⟨et, ek, hp, fun dataset hplace hkind => ?_⟩
  have hdevice := guardedPlace_device hplace hkind
  rw [hrun.same.1.plan, hplan, hdt, hdk] at hdevice
  exact hdevice

/-- **The run lemma**: every state of such a run has a ledger that describes the disk. -/
theorem ClearRun.sync (haccepted : ActionPlan.tryNew scanId groups = .ok accepted)
    (hinodes : (accepted.objects.map fun o => o.key.id).Nodup)
    (hfiles : Undisturbed accepted w₀.outside)
    (hpre : ((accepted.withUnrunnable u).preflight w₀).1 = .ok live)
    (hplan : b₀.plan = accepted.withUnrunnable u) (hledger : b₀.ledger = live)
    (hrun : ClearRun (planFiles accepted w₀.outside) b₀
      ((accepted.withUnrunnable u).preflight w₀).2 indices b w) :
    w.outside = w₀.outside ∧ SyncedBut (planFiles accepted w₀.outside) ∅ w.fs b.ledger := by
  have houtside : w.outside = w₀.outside := by
    rw [hrun.same.2, ((accepted.withUnrunnable u).preflight_looked w₀).outside]
  refine ⟨houtside, ?_⟩
  induction hrun with
  | start =>
    obtain ⟨-, hsync⟩ := preflight_sync (ActionPlan.tryNew_ok haccepted) hinodes hfiles.spares
      (fun o ho => .inl ⟨o, ho, rfl⟩) hpre
    rw [hledger]
    exact hsync
  | later hrun hlater ih =>
    rw [hlater.outside] at houtside
    exact (ih houtside).untouched (hlater.files.mono Set.sdiff_subset)
  | @step indices b w index action hrun haction hindex hclear ih =>
    have hbefore : w.outside = w₀.outside := by
      rw [← (Batch.applyOne_ran index action b w).2.1.outside]
      exact houtside
    obtain ⟨et, ek, hp, hdevice⟩ := next_places haccepted hinodes hfiles hpre hplan hledger hrun
      haction hindex
    have hk : Spares w.outside (planFiles accepted w₀.outside) := by
      rw [hbefore]; exact hfiles.spares
    exact (applyOne_sync hk (by rw [hbefore]; exact hfiles.reads)
      (by rw [hbefore]; exact hfiles.unlinks)
      (fun d n => .inr ⟨d, n, by rw [hbefore]⟩) (ih hbefore) hp hdevice hclear).1

/-- The next action of a run passes its own checks and settles what it touches. -/
theorem ClearRun.next (haccepted : ActionPlan.tryNew scanId groups = .ok accepted)
    (hinodes : (accepted.objects.map fun o => o.key.id).Nodup)
    (hfiles : Undisturbed accepted w₀.outside)
    (hpre : ((accepted.withUnrunnable u).preflight w₀).1 = .ok live)
    (hplan : b₀.plan = accepted.withUnrunnable u) (hledger : b₀.ledger = live)
    (hrun : ClearRun (planFiles accepted w₀.outside) b₀
      ((accepted.withUnrunnable u).preflight w₀).2 indices b w)
    {index : Nat} {action : PlanAction} (haction : b₀.plan.actions[index]? = some action)
    (hindex : index ∉ indices) : (b.checkBoth action w.pause).1 = .ok () ∧
      (StepClear index action b w →
        ∀ q detail, (b.applyOne index action w).1.2 ≠ .unsettled q detail) := by
  obtain ⟨houtside, hsync⟩ := hrun.sync haccepted hinodes hfiles hpre hplan hledger
  have hk : Spares w.outside (planFiles accepted w₀.outside) := by
    rw [houtside]; exact hfiles.spares
  have hreads : w.outside.Reads := by rw [houtside]; exact hfiles.reads
  obtain ⟨et, ek, hp, hdevice⟩ := next_places haccepted hinodes hfiles hpre hplan hledger hrun
    haction hindex
  refine ⟨checkBoth_sync (w := w.pause) hk hreads
    (hsync.untouched (hk.pause.mono Set.sdiff_subset)) hp, fun hclear => ?_⟩
  exact (applyOne_sync hk hreads (by rw [houtside]; exact hfiles.unlinks)
    (fun d n => .inr ⟨d, n, by rw [houtside]⟩) hsync hp hdevice hclear).2

/-- Every action the loop gets to is under a clear temporary name. -/
def AllClear : Nat → List PlanAction → Batch → World → Prop
  | _, [], _, _ => True
  | index, action :: actions, b, w => w.outside.cancelled w.tick = false →
    StepClear index action b { w with index := index } ∧
      AllClear (index + 1) actions (b.applyOne index action { w with index := index }).2.1
        (b.applyOne index action { w with index := index }).2.2

/-- **The loop of a batch** is such a run, and unsettles nothing. -/
theorem applyAll_clear (haccepted : ActionPlan.tryNew scanId groups = .ok accepted)
    (hinodes : (accepted.objects.map fun o => o.key.id).Nodup)
    (hfiles : Undisturbed accepted w₀.outside)
    (hpre : ((accepted.withUnrunnable u).preflight w₀).1 = .ok live)
    (hplan : b₀.plan = accepted.withUnrunnable u) (hledger : b₀.ledger = live) :
    ∀ {index : Nat} {actions : List PlanAction} {b : Batch} {w : World} {indices : List Nat},
      ClearRun (planFiles accepted w₀.outside) b₀
        ((accepted.withUnrunnable u).preflight w₀).2 indices b w →
      b₀.plan.actions.drop index = actions → (∀ i ∈ indices, i < index) →
      AllClear index actions b w →
      (∃ indices', ClearRun (planFiles accepted w₀.outside) b₀
        ((accepted.withUnrunnable u).preflight w₀).2 indices' (b.applyAll index actions w).2.1
        (b.applyAll index actions w).2.2) ∧
      ∀ done ∈ (b.applyAll index actions w).1.1, ∀ q detail, done.2 ≠ .unsettled q detail
  | index, [], b, w, indices, hrun, _, _, _ => ⟨⟨indices, hrun⟩, by simp [Batch.applyAll]⟩
  | index, action :: actions, b, w, indices, hrun, hdrop, hbelow, hclear => by
    have haction : b₀.plan.actions[index]? = some action := by
      rw [← List.head?_drop, hdrop, List.head?_cons]
    have hrest : b₀.plan.actions.drop (index + 1) = actions := by
      rw [← List.tail_drop, hdrop, List.tail_cons]
    have hindex : index ∉ indices := fun hmem => Nat.lt_irrefl index (hbelow index hmem)
    unfold AllClear at hclear
    unfold Batch.applyAll
    split
    · exact ⟨⟨indices, hrun⟩, by simp⟩
    rename_i hgoes
    obtain ⟨hstep, hmore⟩ := hclear (by simpa using hgoes)
    have hnow := hrun.later (show Later _ w { w with index := index } from
      ⟨rfl, Untouched.refl _ _⟩)
    have hdone := (hnow.next haccepted hinodes hfiles hpre hplan hledger haction hindex).2 hstep
    have hnext := applyAll_clear haccepted hinodes hfiles hpre hplan hledger
      (hnow.step haction hindex hstep) hrest (by
        intro i hi
        rcases List.mem_append.1 hi with hi | hi
        · exact Nat.lt_succ_of_lt (hbelow i hi)
        · rw [List.mem_singleton.1 hi]
          exact Nat.lt_succ_self index) hmore
    generalize b.applyOne index action { w with index := index } = step at *
    obtain ⟨done, b₁, w₁⟩ := step
    simp only at hdone hnext ⊢
    generalize b₁.applyAll (index + 1) actions w₁ = rest at *
    obtain ⟨⟨results, cancelled⟩, b₂, w₂⟩ := rest
    refine ⟨hnext.1, fun d hd => ?_⟩
    rcases List.mem_cons.1 hd with rfl | hd
    · exact hdone
    · exact hnext.2 d hd

/-- **No false alarm.**  In every state of a run whose files no other process changes and whose
    every action is under a clear temporary name: each check of the ledger passes, so no transition
    before it was refused, and the next action passes its own checks and settles what it touches. -/
theorem no_false_alarm (haccepted : ActionPlan.tryNew scanId groups = .ok accepted)
    (hinodes : (accepted.objects.map fun o => o.key.id).Nodup)
    (hfiles : Undisturbed accepted w₀.outside)
    (hpre : ((accepted.withUnrunnable u).preflight w₀).1 = .ok live)
    (hplan : b₀.plan = accepted.withUnrunnable u) (hledger : b₀.ledger = live)
    (hrun : ClearRun (planFiles accepted w₀.outside) b₀
      ((accepted.withUnrunnable u).preflight w₀).2 indices b w) :
    (∀ object < b.ledger.objects.length, (b.ledger.check object w).1 = .ok ()) ∧
      ∀ index action, b₀.plan.actions[index]? = some action → index ∉ indices →
        (b.checkBoth action w.pause).1 = .ok () ∧
        (StepClear index action b w →
          ∀ q detail, (b.applyOne index action w).1.2 ≠ .unsettled q detail) := by
  obtain ⟨houtside, hsync⟩ := hrun.sync haccepted hinodes hfiles hpre hplan hledger
  refine ⟨fun object hlt => check_sync (by rw [houtside]; exact hfiles.spares)
    (by rw [houtside]; exact hfiles.reads) hsync (List.getElem?_eq_getElem hlt),
    fun index action haction hindex => ?_⟩
  exact hrun.next haccepted hinodes hfiles hpre hplan hledger haction hindex

end Run

/-! ## A name that is taken -/

theorem undisturbed_quietRun (plan : ActionPlan) (fs : Filesystem) :
    Undisturbed plan (quietRun fs).outside :=
  ⟨⟨Untouched.refl _, Untouched.trans, fun _ _ => Untouched.refl _ _⟩, fun _ _ => rfl,
    fun _ _ => rfl⟩

/-- A batch over a plan whose snapshot was taken, with the ledger of its preflight. -/
def batchOf (plan : ActionPlan) (live : RuntimeLedger) : Batch :=
  { sampleBatch (plan.withUnrunnable .default) with ledger := live }

/-- The batch and the world behind the first action. -/
def behindFirst (plan : ActionPlan) (live : RuntimeLedger) (a₀ : PlanAction) (w : World) :
    (ActionOutcome × ActionResult) × Batch × World :=
  (batchOf plan live).applyOne 0 a₀ w

/-- The first action deletes and the second links under a name that no file has; both succeed. -/
def LinksClear (plan : ActionPlan) (live : RuntimeLedger) (a₀ a₁ : PlanAction) (w : World) :
    Prop :=
  a₀.kind = .delete ∧ a₁.kind = .hardlink ∧
  (∀ parent ∈ a₁.target.parent,
    let first := behindFirst plan live a₀ w
    let admitted := (first.2.1.admission 1 a₁ first.2.2.pause).2.2
    admitted.fs.entries (admitted.stagingAt parent a₁.target.fileName) = none) ∧
  (behindFirst plan live a₀ w).1.1.result = .ok () ∧
  ((behindFirst plan live a₀ w).2.1.applyOne 1 a₁
    (behindFirst plan live a₀ w).2.2).1.1.result = .ok ()

instance (plan : ActionPlan) (live : RuntimeLedger) (a₀ a₁ : PlanAction) (w : World) :
    Decidable (LinksClear plan live a₀ a₁ w) :=
  inferInstanceAs (Decidable (_ ∧ _ ∧ _ ∧ _ ∧ _))

/-- `/a` is kept, `/b` is deleted and `/c` becomes a hardlink of `/a`, with nothing in the way. -/
theorem no_false_alarm_both : ∃ plan live a₀ a₁,
    ActionPlan.tryNew 1 deleteAndLink = .ok plan ∧
    (plan.preflight (quietRun threeFiles)).1 = .ok live ∧ plan.actions[0]? = some a₀ ∧
    plan.actions[1]? = some a₁ ∧
    LinksClear plan live a₀ a₁ (plan.preflight (quietRun threeFiles)).2 ∧
    let first := behindFirst plan live a₀ (plan.preflight (quietRun threeFiles)).2
    let after := first.2.1.applyOne 1 a₁ first.2.2
    ∀ object < after.2.1.ledger.objects.length,
      (after.2.1.ledger.check object after.2.2).1 = .ok () := by
  have hrun : ((ActionPlan.tryNew 1 deleteAndLink).toOption.any fun plan =>
      (plan.preflight (quietRun threeFiles)).1.toOption.any fun live =>
        plan.actions[0]?.any fun a₀ => plan.actions[1]?.any fun a₁ =>
          decide ((plan.objects.map fun o => o.key.id).Nodup ∧
            LinksClear plan live a₀ a₁ (plan.preflight (quietRun threeFiles)).2)) = true := by
    decide
  cases h : ActionPlan.tryNew 1 deleteAndLink with
  | error e => rw [h] at hrun; cases hrun
  | ok plan =>
  rw [h] at hrun
  simp only [Except.toOption, Option.any_some] at hrun
  cases hpre : (plan.preflight (quietRun threeFiles)).1 with
  | error e => rw [hpre] at hrun; cases hrun
  | ok live =>
  rw [hpre] at hrun
  simp only [Option.any_some] at hrun
  obtain ⟨a₀, h₀, hrun⟩ := (Option.any_eq_true _ _).1 hrun
  obtain ⟨a₁, h₁, hrun⟩ := (Option.any_eq_true _ _).1 hrun
  obtain ⟨hinodes, hlinks⟩ := of_decide_eq_true hrun
  refine ⟨plan, live, a₀, a₁, rfl, hpre, h₀, h₁, hlinks, ?_⟩
  have hnone : ClearRun (planFiles plan (quietRun threeFiles).outside) (batchOf plan live)
      (plan.preflight (quietRun threeFiles)).2 [] (batchOf plan live)
      (plan.preflight (quietRun threeFiles)).2 := .start
  have hstart := hnone.step h₀ (by simp) fun dataset _ => by
    unfold StagingClear
    rw [hlinks.1]
    trivial
  exact (no_false_alarm (u := .default) h hinodes (undisturbed_quietRun plan _) hpre
    (show (batchOf plan live).plan = plan.withUnrunnable .default from rfl)
    (show (batchOf plan live).ledger = live from rfl)
    (hstart.step h₁ (by simp) fun dataset _ => by
      unfold StagingClear
      rw [hlinks.2.1]
      intro parent hparent i _ hname
      cases (hlinks.2.2.1 parent hparent).symm.trans hname)).1

/-- The keeper's second pathname has the first temporary name of `/b`. -/
def aliasDisk : Filesystem where
  entries p :=
    if p = rootFile 97 isName_a then some ⟨7, 1⟩
    else if p = rootFile 98 isName_b then some ⟨7, 9⟩
    else if p = firstStaging then some ⟨7, 1⟩ else none
  nodes i :=
    if i = ⟨7, 1⟩ then some { sampleNode with nlink := 2 }
    else if i = ⟨7, 9⟩ then some sampleNode else none
  live p i h := by
    split at h
    · cases h; rfl
    · split at h
      · cases h; rfl
      · split at h
        · cases h; rfl
        · cases h

/-- `/b` is to become a hardlink of `/a`, whose allocation has two pathnames. -/
def aliasGroup : List PlanGroupInput :=
  [⟨⟨1, 0, 5⟩, "aa",
    [sampleMember 97 isName_a 1 2 .keeper, sampleMember 98 isName_b 9 1 (.act .hardlink),
      ⟨firstStaging, sampleKey 1, 2, none, rfl⟩]⟩]

/-- The first action of the plan over `groups` leaves its keeper unsettled. -/
def unsettlesKeeper (groups : List PlanGroupInput) (disk : Filesystem) : Bool :=
  match ActionPlan.tryNew 1 groups with
  | .error _ => false
  | .ok plan =>
    match (plan.preflight (quietRun disk)).1, plan.actions[0]? with
    | .ok live, some action =>
      let after := (batchOf plan live).applyOne 0 action (plan.preflight (quietRun disk)).2
      decide (plan.objects.map fun o => o.key.id).Nodup &&
        match (after.2.1.ledger.check action.keeperObject after.2.2).1 with
        | .error (.unsettledObject _) => true
        | _ => false
    | _, _ => false

/-- The cleanup of the failed build unlinks the keeper's second pathname: nobody else touched a
    file of the plan, and the ledger refuses the keeper from then on. -/
theorem not_no_false_alarm : ∃ plan live action,
    ActionPlan.tryNew 1 aliasGroup = .ok plan ∧ (plan.objects.map fun o => o.key.id).Nodup ∧
    Undisturbed plan (quietRun aliasDisk).outside ∧
    (plan.preflight (quietRun aliasDisk)).1 = .ok live ∧ plan.actions[0]? = some action ∧
    let after := (batchOf plan live).applyOne 0 action (plan.preflight (quietRun aliasDisk)).2
    ∃ path, (after.2.1.ledger.check action.keeperObject after.2.2).1 =
      .error (.unsettledObject path) := by
  have hrun : unsettlesKeeper aliasGroup aliasDisk = true := by decide
  unfold unsettlesKeeper at hrun
  cases h : ActionPlan.tryNew 1 aliasGroup with
  | error e => rw [h] at hrun; cases hrun
  | ok plan =>
  rw [h] at hrun
  simp only at hrun
  split at hrun
  · rename_i live action hpre haction
    rw [Bool.and_eq_true, decide_eq_true_eq] at hrun
    obtain ⟨hinodes, hrefused⟩ := hrun
    refine ⟨plan, live, action, rfl, hinodes, undisturbed_quietRun plan _, hpre, haction, ?_⟩
    split at hrefused
    · rename_i path hcheck
      exact ⟨path, hcheck⟩
    · cases hrefused
  · cases hrun

end DedupCommando
