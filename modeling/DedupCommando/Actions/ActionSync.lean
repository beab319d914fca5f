import DedupCommando.Actions.LedgerSync

/-!
# An action keeps the ledger in step

Other processes leave the plan's files alone.  Calls may fail in any way but two: a reading of the
ledger's, and the unlink of a temporary name.

* `Places` — the two entries of the ledger an action is about.
* `StepClear` — the temporary name of an action is no pathname of an allocation in the ledger.
* `settleBoth_sync`, `hardlink_booked`, `reflink_booked` — the tails of an action.
* `applyOne_sync` — an action under a clear name leaves the ledger describing the disk.
-/

set_option autoImplicit false

namespace DedupCommando

open World Filesystem

variable {own : Set InodeId} {w : World} {b : Batch} {action : PlanAction} {et ek : ObjectState}

/-! ## The two allocations of an action -/

/-- The action's allocations are two entries of the ledger, which list its target and its keeper. -/
structure Places (ledger : RuntimeLedger) (action : PlanAction) (et ek : ObjectState) : Prop where
  target : ledger.objects[action.targetObject]? = some et
  keeper : ledger.objects[action.keeperObject]? = some ek
  source : action.target ∈ et.paths
  kept : action.keeper ∈ ek.paths
  apart : et.identity.id ≠ ek.identity.id

theorem Places.index_ne (h : Places b.ledger action et ek) :
    action.targetObject ≠ action.keeperObject := by
  intro heq
  have htarget := h.target
  rw [heq, h.keeper] at htarget
  cases htarget
  exact h.apart rfl

/-- Adopting a record for the target leaves the keeper's. -/
theorem Places.keeper_adopt {ledger : RuntimeLedger} (h : Places ledger action et ek)
    (hne : action.targetObject ≠ action.keeperObject) (entry : ObjectState) :
    (ledger.adopt action.targetObject entry).objects[action.keeperObject]? = some ek := by
  rw [getElem?_adopt h.target, if_neg hne]
  exact h.keeper

theorem checkBoth_sync (hk : Spares w.outside own) (hreads : w.outside.Reads)
    (h : SyncedBut own ∅ w.fs b.ledger) (hp : Places b.ledger action et ek) :
    (b.checkBoth action w).1 = .ok () := by
  have hlooked := b.ledger.check_looked action.targetObject w
  have htarget := check_sync hk hreads h hp.target
  unfold Batch.checkBoth
  generalize b.ledger.check action.targetObject w = step at hlooked htarget
  obtain ⟨result, w₁⟩ := step
  simp only at hlooked htarget
  subst htarget
  exact check_sync (hlooked.toTraced.keeps hk) (by rw [hlooked.outside]; exact hreads)
    (h.untouched ((hlooked.keeps _ hk).mono Set.sdiff_subset)) hp.keeper

/-! ## The content re-check has read the sizes -/

theorem verifyFile_size (hk : Spares w.outside own) {i : InodeId} (hi : i ∈ own) {n : Node}
    {names : Set Path} (hhas : w.fs.Has i n names) {path : Path} (hpath : path ∈ names)
    {size : Nat} {hash role : String} {mode : RevalidationMode} {verified : Verified}
    (h : (verifyFile path size hash role mode verified w).1 = .ok ()) : n.size = size := by
  have hlstat := hk.perform (.lstat path) (Filesystem.lstat path)
  unfold verifyFile World.lstat at h
  generalize w.perform (.lstat path) (Filesystem.lstat path) = step at hlstat h
  obtain ⟨result, w₁⟩ := step
  simp only at hlstat h
  rcases hlstat with ⟨e, rfl, -⟩ | ⟨⟨j, m⟩, fs₁, rfl, hu, hop⟩
  · cases h
  · obtain ⟨-, hfound⟩ := Filesystem.lstat_ok hop
    rw [(hu i hi n names hhas).lookup hpath] at hfound
    cases hfound
    simp only at h
    split at h
    · cases h
    split at h
    · cases h
    · rename_i hsize
      exact not_not.1 hsize

/-- An admitted action's two allocations have the size the plan asks for. -/
theorem admission_sizes (hk : Spares w.outside own) (h : SyncedBut own ∅ w.fs b.ledger)
    (hp : Places b.ledger action et ek) {index : Nat} {dataset : Dataset}
    (htaken : (b.admission index action w).1 = .ok dataset) :
    et.identity.size = ek.identity.size := by
  have hmt := List.mem_of_getElem? hp.target
  have hmk := List.mem_of_getElem? hp.keeper
  obtain ⟨nt, Nt, hT, -, hidT, hpT⟩ := h.synced et hmt (Set.notMem_empty _)
  obtain ⟨nk, Nk, hK, -, hidK, hpK⟩ := h.synced ek hmk (Set.notMem_empty _)
  have hcheck := Batch.checkBoth_looked action b w
  unfold Batch.admission at htaken
  split at htaken
  · cases htaken
  split at htaken
  · cases htaken
  split at htaken
  · cases htaken
  rename_i w₁ hchecked
  rw [hchecked] at hcheck
  have hk₁ := hcheck.toTraced.keeps hk
  have hu₁ := hcheck.keeps _ hk
  split at htaken
  · cases htaken
  rename_i hcontent
  unfold revalidate at hcontent
  have hfirst := Batch.verifyFile_read action.target action.size action.expectedHash "target"
    b.mode b.verified w₁
  split at hcontent
  · cases hcontent
  rename_i verified₁ w₂ hverified
  rw [hverified] at hfirst
  have hsizeT := verifyFile_size hk₁ (h.mem et hmt) (hu₁ _ (h.mem et hmt) _ _ hT)
    (hpT _ hp.source) (by rw [hverified])
  have hsizeK := verifyFile_size (hfirst.toTraced.keeps hk₁) (h.mem ek hmk)
    (hfirst.keeps _ hk₁ _ (h.mem ek hmk) _ _ (hu₁ _ (h.mem ek hmk) _ _ hK))
    (hpK _ hp.kept) (by rw [hcontent])
  rw [← hidT, ← hidK]
  exact hsizeT.trans hsizeK.symm

/-! ## After the kernel's part -/

/-- A record that differs from the disk in the `ctime` alone. -/
theorem Loose.of_has {fs : Filesystem} {recorded : LiveIdentity} {n m : Node} {names : Set Path}
    {paths : List Path} (hid : n.identity recorded.id = recorded)
    (hhas : fs.Has recorded.id m names) (hkind : m.kind ≠ .symlink) (hsize : m.size = n.size)
    (hmtime : m.mtime = n.mtime) (hnlink : m.nlink = n.nlink) (hpaths : ∀ p ∈ paths, p ∈ names) :
    Loose fs recorded paths := by
  refine ⟨m, names, hhas, hkind, ?_, hpaths⟩
  generalize hi : recorded.id = i at *
  rw [← hid]
  unfold Node.identity LiveIdentity.withCtimeOf
  rw [hsize, hmtime, hnlink]

/-- Where an attempt that published nothing left the target's pathnames. -/
def placesAfter (action : PlanAction) (published : Publication) (paths : List Path) : List Path :=
  match published with
  | .stranded q _ => replacePath paths action.target q
  | _ => paths

/-- No pathname of an allocation is where the original is stranded. -/
def FreshPlace (published : Publication) (paths : List Path) : Prop :=
  ∀ q detail, published = .stranded q detail → q ∉ paths

theorem freshPlace_unmoved {published : Publication} (h : ∀ q detail, published ≠ .stranded q detail)
    (paths : List Path) : FreshPlace published paths := fun q detail he => absurd he (h q detail)

theorem targetSettle_sync (hk : Spares w.outside own) (hreads : w.outside.Reads)
    {owed : Set InodeId} {ledger : RuntimeLedger} (h : SyncedBut own owed w.fs ledger)
    (hp : Places ledger action et ek) {published : Publication}
    (hfresh : FreshPlace published et.paths)
    (hloose : Loose w.fs et.identity (placesAfter action published et.paths)) :
    ∃ entry', (Batch.targetSettle action published ledger w).1 =
        .ok (ledger.adopt action.targetObject entry') ∧
      SyncedBut own (owed \ {et.identity.id}) (Batch.targetSettle action published ledger w).2.fs
        (ledger.adopt action.targetObject entry') := by
  unfold Batch.targetSettle
  split
  · rename_i q detail
    obtain ⟨entry', hok, -, hsync⟩ :=
      quarantined_sync hk hreads h hp.target (hfresh q detail rfl) hloose
    exact ⟨entry', hok, hsync⟩
  · rename_i hne
    have hpaths : placesAfter action published et.paths = et.paths := by
      unfold placesAfter
      split
      · rename_i q detail
        exact absurd rfl (hne q detail)
      · rfl
    rw [hpaths] at hloose
    exact settled_sync hk hreads h hp.target hloose hp.source

/-- **An attempt that published nothing** leaves both allocations settled. -/
theorem settleBoth_sync (hk : Spares w.outside own) (hreads : w.outside.Reads)
    (h : SyncedBut own {et.identity.id, ek.identity.id} w.fs b.ledger)
    (hp : Places b.ledger action et ek) {published : Publication}
    (hfresh : FreshPlace published et.paths)
    (htarget : Loose w.fs et.identity (placesAfter action published et.paths))
    (hkeeper : Loose w.fs ek.identity ek.paths) :
    SyncedBut own ∅ (b.settleBoth action published w).2.2.fs
        (b.settleBoth action published w).2.1.ledger ∧
      (b.settleBoth action published w).1.2 = published.split.2.1 := by
  have hlooked := Batch.targetSettle_looked action published b.ledger w
  obtain ⟨entry₁, hok₁, hsync₁⟩ := targetSettle_sync hk hreads h hp hfresh htarget
  have hk₁ := hlooked.toTraced.keeps hk
  have hreads₁ : (Batch.targetSettle action published b.ledger w).2.outside.Reads := by
    rw [hlooked.outside]; exact hreads
  have hloose₁ := hkeeper.untouched (hlooked.keeps _ hk)
    (h.mem ek (List.mem_of_getElem? hp.keeper))
  unfold Batch.settleBoth
  generalize Batch.targetSettle action published b.ledger w = step at *
  obtain ⟨result₁, w₁⟩ := step
  simp only at hok₁ hsync₁ hk₁ hreads₁ hloose₁ ⊢
  subst hok₁
  obtain ⟨entry₂, hok₂, hsync₂⟩ := settled_sync hk₁ hreads₁ hsync₁
    (hp.keeper_adopt hp.index_ne entry₁) hloose₁ hp.kept
  simp only [Batch.bookedIn]
  generalize (b.ledger.adopt action.targetObject entry₁).settled action.keeperObject action.keeper w₁
    = step at hok₂ hsync₂
  obtain ⟨result₂, w₂⟩ := step
  simp only at hok₂ hsync₂ ⊢
  subst hok₂
  refine ⟨?_, trivial⟩
  rw [Set.pair_sdiff_left hp.apart, Set.sdiff_self] at hsync₂
  exact hsync₂

/-- The move and what was published in its place are both booked. -/
theorem afterMove_sync {moved : Path} (linkage : Option Linkage) {ledger₁ ledger₂ : RuntimeLedger}
    (hmove : (b.ledger.quarantined action.targetObject action.target moved w).1 = .ok ledger₁)
    (hlink : (Batch.linkTransition action linkage ledger₁
      (b.ledger.quarantined action.targetObject action.target moved w).2).1 = .ok ledger₂) :
    (b.afterMove action moved linkage w).1.2 = .removed ∧
      (b.afterMove action moved linkage w).2.1.ledger = ledger₂ ∧
      (b.afterMove action moved linkage w).2.2 = (Batch.linkTransition action linkage ledger₁
        (b.ledger.quarantined action.targetObject action.target moved w).2).2 := by
  unfold Batch.afterMove
  generalize b.ledger.quarantined action.targetObject action.target moved w = step at *
  obtain ⟨result₁, w₁⟩ := step
  simp only at hmove hlink ⊢
  subst hmove
  simp only
  generalize Batch.linkTransition action linkage ledger₁ w₁ = step at *
  obtain ⟨result₂, w₂⟩ := step
  simp only at hlink ⊢
  subst hlink
  exact ⟨rfl, rfl, rfl⟩

/-! ## The three actions -/

/-- The temporary name an action would build under is no pathname of `own`. -/
def StagingClear (own : Set InodeId) (action : PlanAction) (w : World) : Prop :=
  match action.kind with
  | .delete => True
  | .hardlink => StagingFree own action.target w
  | .reflink => ∀ carried, (metaRead action.target w).1 = .ok carried →
      StagingFree own action.target (metaRead action.target w).2

/-- A step that leaves the ledger describing the disk, and nothing unsettled. -/
def Sound (own : Set InodeId) (step : (ActionOutcome × ActionResult) × Batch × World) : Prop :=
  SyncedBut own ∅ step.2.2.fs step.2.1.ledger ∧ ∀ q detail, step.1.2 ≠ .unsettled q detail

/-- The target's record after a move out of its pathname. -/
theorem loose_moved {fs : Filesystem} {n : Node} {c : Timespec} {names : Set Path}
    (hid : n.identity et.identity.id = et.identity) (hkind : n.kind ≠ .symlink)
    (hpaths : ∀ p ∈ et.paths, p ∈ names) (hnodup : et.paths.Nodup) {source q : Path}
    (hhas : fs.Has et.identity.id { n with ctime := c } (insert q (names \ {source}))) :
    Loose fs et.identity (replacePath et.paths source q) := by
  refine Loose.of_has hid hhas hkind rfl rfl rfl fun p hp => ?_
  rcases mem_of_mem_replacePath hnodup hp with rfl | ⟨hmem, hne⟩
  · exact Set.mem_insert p _
  · exact Set.mem_insert_of_mem q ⟨hpaths p hmem, hne⟩

theorem Sound.of_same {b₁ : Batch} (hledger : b₁.ledger = b.ledger)
    (h : SyncedBut own ∅ w.fs b.ledger) (action : PlanAction) (detail : String) :
    Sound own (refused action detail, b₁, w) := by
  refine ⟨?_, nofun⟩
  show SyncedBut own ∅ w.fs b₁.ledger
  rw [hledger]
  exact h

theorem delete_sync (hk : Spares w.outside own) (hreads : w.outside.Reads)
    (h : SyncedBut own ∅ w.fs b.ledger) (hp : Places b.ledger action et ek)
    (hkind : action.kind = .delete) (dataset : Dataset) :
    Sound own (b.carryOut action dataset w) := by
  have hmt := List.mem_of_getElem? hp.target
  obtain ⟨nt, Nt, hT, hkT, hidT, hpT⟩ := h.synced et hmt (Set.notMem_empty _)
  unfold Batch.carryOut
  simp only [hkind]
  generalize hdir : quarantineDir dataset.mountpoint b.timestamp = dir
  have hran := deleteToQuarantine_ran action.target dataset.mountpoint dir w
  have hmove := deleteToQuarantine_has hk (h.mem et hmt) hT dataset.mountpoint dir
    (hpT _ hp.source)
  generalize deleteToQuarantine action.target dataset.mountpoint dir w = step at hran hmove
  obtain ⟨result, w₁⟩ := step
  simp only at hran hmove
  rcases hmove with ⟨e, rfl, hu⟩ | ⟨q, rfl, hq, ⟨c, hT₁⟩, hu⟩
  · exact Sound.of_same rfl (h.untouched (hu.mono Set.sdiff_subset)) action _
  · have hk₁ := hran.keeps hk
    have hreads₁ : w₁.outside.Reads := by rw [hran.outside]; exact hreads
    have hledger := Batch.noteQuarantine_ledger dir b
    have hsync : SyncedBut own {et.identity.id} w₁.fs (b.noteQuarantine dir).ledger := by
      rw [hledger]
      exact (h.mono (Set.empty_subset _)).untouched hu
    rw [← hledger] at hp
    obtain ⟨entry', hok, -, hdone⟩ := quarantined_sync hk₁ hreads₁ hsync hp.target
      (fun hmem => hq (hpT q hmem)) (loose_moved hidT hkT hpT (h.paths et hmt) hT₁)
    obtain ⟨hresult, hledger', hworld⟩ := afterMove_sync none hok rfl
    simp only
    refine ⟨?_, fun q' detail => ?_⟩
    · rw [hworld, hledger']
      rw [Set.sdiff_self] at hdone
      exact hdone
    · rw [hresult]; exact nofun

theorem finish_unpublished (hk : Spares w.outside own) (hreads : w.outside.Reads)
    (h : SyncedBut own {et.identity.id, ek.identity.id} w.fs b.ledger)
    (hp : Places b.ledger action et ek) {published : Publication}
    (hnot : published.isPublished = false) (hfresh : FreshPlace published et.paths)
    (htarget : Loose w.fs et.identity (placesAfter action published et.paths))
    (hkeeper : Loose w.fs ek.identity ek.paths) (dir : Path) (linkage : Linkage) :
    Sound own (b.finishPublication action dir published linkage w) := by
  have hsettle : ∀ b₁ : Batch, b₁.ledger = b.ledger →
      Sound own (b₁.settleBoth action published w) := by
    intro b₁ hledger
    rw [← hledger] at h hp
    obtain ⟨hsync, hresult⟩ := settleBoth_sync hk hreads h hp hfresh htarget hkeeper
    refine ⟨hsync, fun q detail => ?_⟩
    rw [hresult]
    cases published <;> exact nofun
  unfold Batch.finishPublication
  split
  · cases hnot
  · exact hsettle _ (Batch.noteQuarantine_ledger dir b)
  · exact hsettle b rfl

/-- A build that failed, with nothing the ledger knows under the temporary name. -/
theorem finish_notMoved {before : Filesystem} (hk : Spares w.outside own)
    (hreads : w.outside.Reads) (h : SyncedBut own ∅ before b.ledger)
    (hp : Places b.ledger action et ek) (hu : Untouched b.ledger.ids before w.fs) (detail : String)
    (dir : Path) (linkage : Linkage) :
    Sound own (b.finishPublication action dir (.notMoved detail) linkage w) := by
  have hsync := h.untouched_ids (hu.mono Set.sdiff_subset)
  have hloose : ∀ e ∈ b.ledger.objects, Loose w.fs e.identity e.paths := fun e he =>
    (hsync.synced e he (Set.notMem_empty _)).loose
  have htarget : Loose w.fs et.identity (placesAfter action (.notMoved detail) et.paths) :=
    hloose et (List.mem_of_getElem? hp.target)
  exact finish_unpublished hk hreads (hsync.mono (Set.empty_subset _)) hp rfl
    (freshPlace_unmoved (by intro q d he; cases he) _) htarget (hloose ek (List.mem_of_getElem? hp.keeper)) dir linkage

/-- What the end of an attempt leaves of the target's record. -/
theorem Ends.target_loose {fs : Filesystem} {nt nr : Node} {Nt Nr : Set Path} {r : InodeId}
    {published : Publication} (hid : nt.identity et.identity.id = et.identity)
    (hkind : nt.kind ≠ .symlink) (hpaths : ∀ p ∈ et.paths, p ∈ Nt) (hnodup : et.paths.Nodup)
    (h : Ends fs action.target et.identity.id nt Nt r nr Nr published) :
    (published.isPublished = false → FreshPlace published et.paths ∧
        Loose fs et.identity (placesAfter action published et.paths)) ∧
      ∀ q, published = .published q → q ∉ et.paths ∧
        Loose fs et.identity (replacePath et.paths action.target q) := by
  cases published with
  | published q =>
    obtain ⟨hq, ⟨c, hT⟩, -⟩ := h
    refine ⟨nofun, fun q' hq' => ?_⟩
    cases hq'
    exact ⟨fun hmem => hq (hpaths q hmem), loose_moved hid hkind hpaths hnodup hT⟩
  | stranded q detail =>
    obtain ⟨hq, ⟨c, hT⟩, -⟩ := h
    refine ⟨fun _ => ⟨fun q' detail' hq' => ?_, loose_moved hid hkind hpaths hnodup hT⟩, nofun⟩
    cases hq'
    exact fun hmem => hq (hpaths q hmem)
  | notMoved detail =>
    obtain ⟨⟨c, hT⟩, -⟩ := h
    exact ⟨fun _ => ⟨freshPlace_unmoved (by intro q d he; cases he) _, Loose.of_has hid hT hkind rfl rfl rfl hpaths⟩, nofun⟩
  | rolledBack detail =>
    obtain ⟨⟨c, hT⟩, -⟩ := h
    exact ⟨fun _ => ⟨freshPlace_unmoved (by intro q d he; cases he) _, Loose.of_has hid hT hkind rfl rfl rfl hpaths⟩, nofun⟩

/-- The replacement of an attempt that did not publish has the links it had before its build. -/
theorem Ends.replacement {fs : Filesystem} {target : Path} {t r : InodeId} {nt nr : Node}
    {Nt Nr : Set Path} {published : Publication} (hnot : published.isPublished = false)
    (h : Ends fs target t nt Nt r nr Nr published) :
    ∃ c, fs.Has r { nr with nlink := nr.nlink - 1, ctime := c } Nr := by
  cases published with
  | published q => cases hnot
  | stranded q detail => exact h.2.2
  | notMoved detail => exact h.2
  | rolledBack detail => exact h.2

theorem saturatingSucc_eq {n : Nat} (h : n + 1 < 2 ^ 64) : saturatingSucc n = n + 1 := by
  unfold saturatingSucc
  omega

/-- A published hardlink is booked: first the move, then the keeper's new link. -/
theorem hardlink_booked (hk : Spares w.outside own) (hreads : w.outside.Reads)
    (h : SyncedBut own {et.identity.id, ek.identity.id} w.fs b.ledger)
    (hp : Places b.ledger action et ek) {q : Path} (hq : q ∉ et.paths)
    (htarget : Loose w.fs et.identity (replacePath et.paths action.target q)) {nk : Node}
    {Nk : Set Path} (hidK : nk.identity ek.identity.id = ek.identity) (hkind : nk.kind ≠ .symlink)
    (hroom : nk.nlink + 1 < 2 ^ 64) (hpaths : ∀ p ∈ ek.paths, p ∈ Nk) (hfree : action.target ∉ Nk)
    {c : Timespec} (hK : w.fs.Has ek.identity.id { nk with nlink := nk.nlink + 1, ctime := c }
      (insert action.target Nk)) :
    Sound own (b.afterMove action q (some .hardlink) w) := by
  obtain ⟨entry₁, hok₁, -, hsync₁⟩ := quarantined_sync hk hreads h hp.target hq htarget
  have hlooked : Looked w (b.ledger.quarantined action.targetObject action.target q w).2 :=
    b.ledger.quarantined_looked action.targetObject action.target q w
  have hk₁ := hlooked.toTraced.keeps hk
  have hreads₁ : (b.ledger.quarantined action.targetObject action.target q w).2.outside.Reads := by
    rw [hlooked.outside]; exact hreads
  have hK₁ := hlooked.keeps _ hk _ (h.mem ek (List.mem_of_getElem? hp.keeper)) _ _ hK
  obtain ⟨entry₂, hok₂, hsync₂⟩ := linked_sync hk₁ hreads₁ hsync₁
    (hp.keeper_adopt hp.index_ne entry₁) hK₁ hkind
    (by
      generalize ek.identity.id = i at *
      rw [← hidK]
      unfold Node.identity LiveIdentity.withCtimeOf
      simp only
      rw [saturatingSucc_eq hroom]
      rfl)
    hp.kept (fun hmem => hfree (hpaths _ hmem))
    (fun p hmem => by
      rcases List.mem_append.1 hmem with hmem | hmem
      · exact Set.mem_insert_of_mem _ (hpaths p hmem)
      · rw [List.mem_singleton.1 hmem]
        exact Set.mem_insert _ Nk)
  obtain ⟨hresult, hledger, hworld⟩ := afterMove_sync (some .hardlink) hok₁ hok₂
  refine ⟨?_, fun q' detail => by rw [hresult]; exact nofun⟩
  rw [hledger, hworld]
  rw [Set.pair_sdiff_left hp.apart, Set.sdiff_self] at hsync₂
  exact hsync₂

theorem hardlink_sync (hk : Spares w.outside own) (hreads : w.outside.Reads)
    (hunlinks : w.outside.Unlinks) (h : SyncedBut own ∅ w.fs b.ledger)
    (hp : Places b.ledger action et ek) (hkind : action.kind = .hardlink)
    (hclear : StagingFree b.ledger.ids action.target w) (dataset : Dataset) :
    Sound own (b.carryOut action dataset w) := by
  have hmt := List.mem_of_getElem? hp.target
  have hmk := List.mem_of_getElem? hp.keeper
  obtain ⟨nt, Nt, hT, hkT, hidT, hpT⟩ := h.synced et hmt (Set.notMem_empty _)
  obtain ⟨nk, Nk, hK, hkK, hidK, hpK⟩ := h.synced ek hmk (Set.notMem_empty _)
  have hfree : action.target ∉ Nk :=
    hK.ne ((hT.names _).2 (hpT _ hp.source)) hp.apart.symm
  unfold Batch.carryOut
  simp only [hkind]
  generalize hdir : quarantineDir dataset.mountpoint b.timestamp = dir
  have hran := hardlink_ran action.target action.keeper dataset.mountpoint dir w
  have hmove := hardlink_has hk hunlinks (h.mem et hmt) (h.mem ek hmk) hp.apart hT hK
    (hpT _ hp.source) (hpK _ hp.kept) h.ids_subset hclear dataset.mountpoint dir
  generalize hardlink action.target action.keeper dataset.mountpoint dir w = step at hran hmove
  obtain ⟨published, w₁⟩ := step
  simp only at hran hmove ⊢
  have hk₁ := hran.keeps hk
  have hreads₁ : w₁.outside.Reads := by rw [hran.outside]; exact hreads
  rcases hmove with ⟨⟨detail, rfl⟩, hu⟩ | ⟨hroom, hu, c, hends⟩
  · exact finish_notMoved hk₁ hreads₁ h hp hu detail dir .hardlink
  have hsync := (h.mono (Set.empty_subset {et.identity.id, ek.identity.id})).untouched hu
  obtain ⟨hnot, hyes⟩ := hends.target_loose hidT hkT hpT (h.paths et hmt)
  cases hpub : published.isPublished with
  | false =>
    obtain ⟨hfresh, htarget⟩ := hnot hpub
    obtain ⟨c', hK'⟩ := hends.replacement hpub
    exact finish_unpublished hk₁ hreads₁ hsync hp hpub hfresh htarget
      (Loose.of_has hidK hK' hkK rfl rfl rfl hpK) dir .hardlink
  | true =>
    cases published with
    | published q =>
      obtain ⟨hq, htarget⟩ := hyes q rfl
      obtain ⟨-, -, c', hK'⟩ := hends
      have hledger := Batch.noteQuarantine_ledger dir b
      rw [← hledger] at hsync hp
      exact hardlink_booked hk₁ hreads₁ hsync hp hq htarget hidK hkK hroom hpK hfree hK'
    | notMoved detail => cases hpub
    | rolledBack detail => cases hpub
    | stranded q detail => cases hpub

/-- A published clone is booked: first the move, then an entry for the fresh inode. -/
theorem reflink_booked (hk : Spares w.outside own) (hreads : w.outside.Reads)
    (h : SyncedBut own {et.identity.id} w.fs b.ledger)
    (hp : Places b.ledger action et ek) {q : Path} (hq : q ∉ et.paths)
    (htarget : Loose w.fs et.identity (replacePath et.paths action.target q)) {c : InodeId}
    (hc : c ∈ own) {nc : Node} (hC : w.fs.Has c nc {action.target})
    (hfresh : ∀ e ∈ b.ledger.objects, e.identity.id ≠ c)
    (hdevice : c.device = et.identity.device) (hkind : nc.kind ≠ .symlink)
    (hsize : nc.size = et.identity.size) (hmtime : nc.mtime.sec = et.identity.mtime ∧
      nc.mtime.nsec = et.identity.mtimeNsec) (hnlink : nc.nlink = 1) :
    Sound own (b.afterMove action q (some .reflink) w) := by
  obtain ⟨entry₁, hok₁, hid₁, hsync₁⟩ := quarantined_sync hk hreads h hp.target hq htarget
  have hlooked : Looked w (b.ledger.quarantined action.targetObject action.target q w).2 :=
    b.ledger.quarantined_looked action.targetObject action.target q w
  have hk₁ := hlooked.toTraced.keeps hk
  have hreads₁ : (b.ledger.quarantined action.targetObject action.target q w).2.outside.Reads := by
    rw [hlooked.outside]; exact hreads
  have hC₁ := hlooked.keeps _ hk c hc _ _ hC
  rw [Set.sdiff_self] at hsync₁
  have hentry₁ : (b.ledger.adopt action.targetObject entry₁).objects[action.targetObject]? =
      some entry₁ := by
    rw [getElem?_adopt hp.target, if_pos rfl]
  have hfresh₁ : ∀ e ∈ (b.ledger.adopt action.targetObject entry₁).objects, e.identity.id ≠ c := by
    intro e he
    rcases List.mem_or_eq_of_mem_set he with he | rfl
    · exact hfresh e he
    · rw [hid₁]
      exact hfresh et (List.mem_of_getElem? hp.target)
  obtain ⟨ledger₂, hok₂, hsync₂⟩ := cloned_sync hk₁ hreads₁ hsync₁
    (hp.keeper_adopt hp.index_ne entry₁) hentry₁ hc hfresh₁ hC₁ hkind
    (by rw [hid₁]; exact hdevice) (by rw [hid₁]; exact hsize) (by rw [hid₁]; exact hmtime) hnlink
    hp.kept (Set.mem_singleton action.target)
  obtain ⟨hresult, hledger, hworld⟩ := afterMove_sync (some .reflink) hok₁ hok₂
  refine ⟨?_, fun q' detail => by rw [hresult]; exact nofun⟩
  rw [hledger, hworld]
  exact hsync₂

theorem reflink_sync (hk : Spares w.outside own) (hreads : w.outside.Reads)
    (hunlinks : w.outside.Unlinks) (hclones : ∀ d n, (⟨d, w.outside.inode n⟩ : InodeId) ∈ own)
    (h : SyncedBut own ∅ w.fs b.ledger) (hp : Places b.ledger action et ek)
    (hkind : action.kind = .reflink) (hsize : et.identity.size = ek.identity.size)
    (hdevice : ek.identity.device = et.identity.device)
    (hclear : ∀ carried, (metaRead action.target w).1 = .ok carried →
      StagingFree b.ledger.ids action.target (metaRead action.target w).2) (dataset : Dataset) :
    Sound own (b.carryOut action dataset w) := by
  have hmt := List.mem_of_getElem? hp.target
  have hmk := List.mem_of_getElem? hp.keeper
  obtain ⟨nt, Nt, hT, hkT, hidT, hpT⟩ := h.synced et hmt (Set.notMem_empty _)
  obtain ⟨nk, Nk, hK, hkK, hidK, hpK⟩ := h.synced ek hmk (Set.notMem_empty _)
  unfold Batch.carryOut
  simp only [hkind]
  generalize hdir : quarantineDir dataset.mountpoint b.timestamp = dir
  have hran := reflink_ran action.target action.keeper dataset.mountpoint dir w
  have hmove := reflink_has hk hunlinks hclones (h.mem et hmt) (h.mem ek hmk) hT hK
    (hpT _ hp.source) (hpK _ hp.kept) h.ids_subset hclear dataset.mountpoint dir
  generalize reflink action.target action.keeper dataset.mountpoint dir w = step at hran hmove
  obtain ⟨published, w₁⟩ := step
  simp only at hran hmove ⊢
  have hk₁ := hran.keeps hk
  have hreads₁ : w₁.outside.Reads := by rw [hran.outside]; exact hreads
  rcases hmove with ⟨⟨detail, rfl⟩, hu⟩ |
    ⟨c, nc, hc, hfresh, hcdevice, hckind, hcontent, hnlink, hmtime, hu, hends⟩
  · exact finish_notMoved hk₁ hreads₁ h hp hu detail dir .reflink
  have hfresh' : ∀ e ∈ b.ledger.objects, e.identity.id ≠ c := by
    intro e he
    obtain ⟨n, N, hE, -⟩ := h.synced e he (Set.notMem_empty _)
    exact hfresh _ (h.mem e he) n N hE
  -- the clone is no inode of the ledger, so only the target is owed anything
  have hsync : SyncedBut own {et.identity.id} w₁.fs b.ledger := by
    refine (h.mono (Set.empty_subset _)).untouched_ids (hu.mono ?_)
    rintro i ⟨⟨e, he, rfl⟩, hne⟩
    exact ⟨h.mem e he, not_or.2 ⟨hne, hfresh' e he⟩⟩
  obtain ⟨hnot, hyes⟩ := hends.target_loose hidT hkT hpT (h.paths et hmt)
  cases hpub : published.isPublished with
  | false =>
    obtain ⟨hplace, htarget⟩ := hnot hpub
    have hkeeper := (hsync.synced ek hmk fun he => hp.apart he.symm).loose
    exact finish_unpublished hk₁ hreads₁
      (hsync.mono (Set.singleton_subset_iff.2 (Set.mem_insert _ _))) hp hpub hplace htarget
      hkeeper dir .reflink
  | true =>
    cases published with
    | published q =>
      obtain ⟨hq, htarget⟩ := hyes q rfl
      obtain ⟨-, -, c', hC⟩ := hends
      have hledger := Batch.noteQuarantine_ledger dir b
      rw [← hledger] at hsync hp hfresh'
      have hkeeperSize : nk.size = ek.identity.size := by rw [← hidK]; rfl
      rw [insert_empty_eq] at hC
      refine reflink_booked hk₁ hreads₁ hsync hp hq htarget hc hC hfresh'
        (hcdevice.trans hdevice) ?_ ?_ ?_ hnlink
      · simp only [hckind]; exact nofun
      · show nc.content.length = _
        rw [hcontent, hsize]
        exact hkeeperSize
      · rw [← hidT]
        simp only [hmtime]
        exact ⟨rfl, rfl⟩
    | notMoved detail => cases hpub
    | rolledBack detail => cases hpub
    | stranded q detail => cases hpub

/-! ## One action -/

/-- The temporary name of an action that is admitted is no pathname of an allocation in the
    ledger. -/
def StepClear (index : Nat) (action : PlanAction) (b : Batch) (w : World) : Prop :=
  ∀ dataset, (b.admission index action w.pause).1 = .ok dataset →
    StagingClear b.ledger.ids action (b.admission index action w.pause).2.2

/-- **One action** under a clear name, whatever becomes of its calls. -/
theorem applyOne_sync (hk : Spares w.outside own) (hreads : w.outside.Reads)
    (hunlinks : w.outside.Unlinks) (hclones : ∀ d n, (⟨d, w.outside.inode n⟩ : InodeId) ∈ own)
    (h : SyncedBut own ∅ w.fs b.ledger) (hp : Places b.ledger action et ek)
    (hdevice : ∀ dataset, b.guardedPlace action = .ok dataset → action.kind ≠ .delete →
      ek.identity.device = et.identity.device) {index : Nat} (hclear : StepClear index action b w) :
    Sound own (b.applyOne index action w) := by
  have hpause := h.untouched ((hk.pause).mono Set.sdiff_subset)
  obtain ⟨-, hlooked, hledger, hadmitted⟩ := Batch.admission_spec index action b w.pause
  have hsizes : ∀ dataset, (b.admission index action w.pause).1 = .ok dataset →
      et.identity.size = ek.identity.size := fun _ => admission_sizes (w := w.pause) hk hpause hp
  unfold StepClear at hclear
  unfold Batch.applyOne
  generalize b.admission index action w.pause = step at *
  obtain ⟨result, b₁, w₁⟩ := step
  simp only at hlooked hledger hadmitted hsizes hclear ⊢
  have hk₁ := hlooked.toTraced.keeps hk
  have hsync := hpause.untouched ((hlooked.keeps _ hk).mono Set.sdiff_subset)
  cases result with
  | error reason => exact Sound.of_same hledger hsync action reason
  | ok dataset =>
    have hreads₁ : w₁.outside.Reads := by rw [hlooked.outside]; exact hreads
    have hunlinks₁ : w₁.outside.Unlinks := by rw [hlooked.outside]; exact hunlinks
    have hclones₁ : ∀ d n, (⟨d, w₁.outside.inode n⟩ : InodeId) ∈ own := by
      rw [hlooked.outside]; exact hclones
    have hclear := hclear dataset rfl
    rw [← hledger] at hsync hp hclear
    unfold StagingClear at hclear
    cases hkind : action.kind with
    | delete => exact delete_sync hk₁ hreads₁ hsync hp hkind dataset
    | hardlink =>
      rw [hkind] at hclear
      exact hardlink_sync hk₁ hreads₁ hunlinks₁ hsync hp hkind hclear dataset
    | reflink =>
      rw [hkind] at hclear
      exact reflink_sync hk₁ hreads₁ hunlinks₁ hclones₁ hsync hp hkind (hsizes dataset rfl)
        (hdevice dataset (hadmitted dataset rfl).2 (by rw [hkind]; exact nofun)) hclear dataset

end DedupCommando
