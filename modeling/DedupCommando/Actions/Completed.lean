import DedupCommando.Actions.BatchSafety
import DedupCommando.Actions.PublishInodes

/-!
# What a completed action leaves of the plan's files

Other processes leave the plan's files alone.  An action that succeeds takes its own pathname from
the target's inode, and every other pathname goes on naming the inode it named.

* `publishAt_published` — a publication that succeeds, whatever fails elsewhere.
* `Carried` — the pathnames and the keeper behind an action.
* `carryOut_carried` — a completed action leaves them so; only a hardlink moves the keeper's `ctime`.
-/

set_option autoImplicit false

namespace DedupCommando

open World Filesystem

variable {own : Set InodeId} {w : World}

theorem Filesystem.Untouched.lookup {fs fs' : Filesystem} (h : Untouched own fs fs') {i : InodeId}
    (hi : i ∈ own) {p : Path} {n : Node} (hp : fs.lookup p = some (i, n)) :
    fs'.lookup p = some (i, n) := by
  obtain ⟨hentry, hnode⟩ := lookup_eq_some.1 hp
  exact (h i hi n {q | fs.entries q = some i} ⟨hnode, fun _ => Iff.rfl⟩).lookup hentry

/-- An inode with the pathnames it has. -/
theorem Filesystem.has_of_lookup {fs : Filesystem} {p : Path} {i : InodeId} {n : Node}
    (hp : fs.lookup p = some (i, n)) : fs.Has i n {q | fs.entries q = some i} ∧
      p ∈ {q | fs.entries q = some i} := by
  obtain ⟨hentry, hnode⟩ := lookup_eq_some.1 hp
  exact ⟨⟨hnode, fun _ => Iff.rfl⟩, hentry⟩

theorem Filesystem.Has.of_lookup {fs : Filesystem} {p : Path} {i : InodeId} {n m : Node}
    {names : Set Path} (h : fs.Has i m names) (hp : fs.lookup p = some (i, n)) :
    n = m ∧ p ∈ names := by
  obtain ⟨hentry, hnode⟩ := lookup_eq_some.1 hp
  rw [h.node] at hnode
  exact ⟨(Option.some.inj hnode).symm, (h.names p).1 hentry⟩

/-! ## A publication that succeeds -/

theorem publishEvacuated_published {temp target q : Path}
    (h : (publishEvacuated temp target q w).1.isPublished = true) :
    (w.renameNoreplace temp target).1 = .ok () ∧
      (publishEvacuated temp target q w).2 = (w.renameNoreplace temp target).2 := by
  unfold publishEvacuated at h ⊢
  generalize w.renameNoreplace temp target = step at h ⊢
  obtain ⟨result, w₁⟩ := step
  cases result with
  | ok a => exact ⟨rfl, rfl⟩
  | error e =>
    exfalso
    simp only at h
    revert h
    generalize w₁.removeFile temp = removed
    generalize removeReplacement temp w₁ = cleaned
    obtain ⟨leftover, w₂⟩ := cleaned
    simp only
    split <;> simp [Publication.isPublished]

theorem publishAt_built {temp target : Path} {build : Build} {mountpoint dir : Path}
    (h : (publishAt temp target build mountpoint dir w).1.isPublished = true) :
    (build temp w).1 = .ok () := by
  unfold publishAt at h
  generalize build temp w = step at h ⊢
  obtain ⟨result, w₁⟩ := step
  cases result with
  | error e => cases h
  | ok a => rfl

/-- **A publication that succeeds** moves one pathname of the original aside and puts the
    replacement in its place. -/
theorem publishAt_published (hk : Spares w.outside own) {t r : InodeId} (ht : t ∈ own)
    (htr : t ≠ r) {nt nr : Node} {Nt Nr : Set Path} (hT : w.fs.Has t nt Nt) {target temp : Path}
    (htarget : target ∈ Nt) {build : Build} (hran : Ran w (build temp w).2)
    (hbuilt : (build temp w).1 = .ok () → BuiltHas own temp w.fs (build temp w).2.fs r nr Nr)
    {mountpoint dir : Path} (h : (publishAt temp target build mountpoint dir w).1.isPublished = true) :
    Untouched (own \ {t, r}) w.fs (publishAt temp target build mountpoint dir w).2.fs ∧
      (∃ q c, (publishAt temp target build mountpoint dir w).2.fs.Has t { nt with ctime := c }
        (insert q (Nt \ {target}))) ∧
      ∃ c, (publishAt temp target build mountpoint dir w).2.fs.Has r { nr with ctime := c }
        (insert target Nr) := by
  unfold publishAt at h ⊢
  generalize build temp w = step at h hran hbuilt ⊢
  obtain ⟨result, w₁⟩ := step
  cases result with
  | error e => cases h
  | ok a =>
  obtain ⟨hr, hR, hfresh, hrest⟩ := hbuilt rfl
  have hk₁ : Spares w₁.outside own := hran.keeps hk
  have hT₁ := hrest t ⟨ht, htr⟩ nt Nt hT
  have hmove := deleteToQuarantine_has hk₁ ht hT₁ mountpoint dir htarget
  have hran₁ := deleteToQuarantine_ran target mountpoint dir w₁
  simp only at h ⊢
  generalize deleteToQuarantine target mountpoint dir w₁ = step at h hmove hran₁ ⊢
  obtain ⟨result, w₂⟩ := step
  rcases hmove with ⟨e, rfl, -⟩ | ⟨q, rfl, -, ⟨c, hT₂⟩, hrest₁⟩
  · cases h
  simp only at h hT₂ hrest₁ ⊢
  have hk₂ : Spares w₂.outside own := hran₁.keeps hk₁
  obtain ⟨hok, hworld⟩ := publishEvacuated_published h
  rw [hworld]
  have hR₂ := hk₂.pause r hr _ _ (hrest₁ r ⟨hr, Ne.symm htr⟩ nr _ hR)
  have hk₃ : Spares w₂.pause.outside own := hk₂
  rcases renameNoreplace_has hk₃ hr hR₂ target (Set.mem_insert temp Nr) with
    ⟨e, he, -⟩ | ⟨-, -, ⟨c', hR₃⟩, hrest₂⟩
  · rw [he] at hok
    cases hok
  refine ⟨?_, ⟨q, c, ?_⟩, c', ?_⟩
  · intro i hi n names hhas
    have hit : i ≠ t := fun he => hi.2 (by rw [he]; exact Set.mem_insert t {r})
    have hir : i ≠ r := fun he => hi.2 (by rw [he]; exact Set.mem_insert_of_mem t rfl)
    exact hrest₂ i ⟨hi.1, hir⟩ n names (hk₂.pause i hi.1 n names
      (hrest₁ i ⟨hi.1, hit⟩ n names (hrest i ⟨hi.1, hir⟩ n names hhas)))
  · exact hrest₂ t ⟨ht, htr⟩ _ _ (hk₂.pause t ht _ _ hT₂)
  · rw [Set.insert_sdiff_self_of_notMem hfresh] at hR₃
    exact hR₃

/-! ## The three actions -/

/-- A node as it was, but for its links and its `ctime`. -/
structure Node.Restamped (n n' : Node) : Prop where
  kind : n'.kind = n.kind
  content : n'.content = n.content
  mtime : n'.mtime = n.mtime
  mode : n'.mode = n.mode

theorem Node.Restamped.refl (n : Node) : n.Restamped n := ⟨rfl, rfl, rfl, rfl⟩

/-- Behind an action every other pathname names the inode it named, and the keeper's inode is as it
    was, down to its `ctime` unless the action is a hardlink. -/
def Carried (own : Set InodeId) (action : PlanAction) (k : InodeId) (fs fs' : Filesystem) : Prop :=
  ∀ p i n, p ≠ action.target → i ∈ own → fs.lookup p = some (i, n) →
    ∃ n', fs'.lookup p = some (i, n') ∧
      (i = k → n.Restamped n' ∧ (action.kind ≠ .hardlink → n' = n))

theorem Carried.untouched {action : PlanAction} {k : InodeId} {a b c d : Filesystem}
    (h₁ : Untouched own a b) (h : Carried own action k b c) (h₂ : Untouched own c d) :
    Carried own action k a d := by
  intro p i n hp hi hlookup
  obtain ⟨n', hlookup', hrest⟩ := h p i n hp hi (h₁.lookup hi hlookup)
  exact ⟨n', h₂.lookup hi hlookup', hrest⟩

/-- The target lost a pathname, the replacement `r` is new or the keeper, and nothing else moved. -/
theorem carried_of_ends {action : PlanAction} {t k r : InodeId} {fs fs' : Filesystem} {nt : Node}
    {Nt : Set Path} (htk : t ≠ k) (hT : fs.Has t nt Nt)
    (hrest : Untouched (own \ {t, r}) fs fs')
    (hT' : ∃ q c, fs'.Has t { nt with ctime := c } (insert q (Nt \ {action.target})))
    (hR : r ≠ t → ∀ p n, fs.lookup p = some (r, n) →
      ∃ n', fs'.lookup p = some (r, n') ∧ n.Restamped n' ∧
        (r = k → action.kind ≠ .hardlink → n' = n)) :
    Carried own action k fs fs' := by
  intro p i n hp hi hlookup
  by_cases hit : i = t
  · subst hit
    obtain ⟨q, c, hT'⟩ := hT'
    obtain ⟨-, hmem⟩ := hT.of_lookup hlookup
    exact ⟨_, hT'.lookup (Set.mem_insert_of_mem q ⟨hmem, hp⟩), fun he => absurd he htk⟩
  by_cases hir : i = r
  · subst hir
    obtain ⟨n', hlookup', hsame, hnode⟩ := hR hit p n hlookup
    exact ⟨n', hlookup', fun he => ⟨hsame, hnode he⟩⟩
  · refine ⟨n, hrest.lookup ⟨hi, ?_⟩ hlookup, fun _ => ⟨.refl n, fun _ => rfl⟩⟩
    exact fun he => he.elim hit hir

theorem deleteToQuarantine_carried (hk : Spares w.outside own) {action : PlanAction}
    {t k : InodeId} (ht : t ∈ own) (htk : t ≠ k) {nt : Node}
    (htarget : w.fs.lookup action.target = some (t, nt)) {mountpoint dir q : Path}
    (hok : (deleteToQuarantine action.target mountpoint dir w).1 = .ok q) :
    Carried own action k w.fs (deleteToQuarantine action.target mountpoint dir w).2.fs := by
  obtain ⟨hT, hmem⟩ := has_of_lookup htarget
  rcases deleteToQuarantine_has hk ht hT mountpoint dir hmem with
    ⟨e, he, -⟩ | ⟨q', -, -, ⟨c, hT'⟩, hrest⟩
  · rw [he] at hok
    cases hok
  exact carried_of_ends htk hT (by rw [Set.pair_eq_singleton]; exact hrest) ⟨q', c, hT'⟩
    fun hne => absurd rfl hne

theorem evacuateThenPublish_published {target : Path} {build : Build} {mountpoint dir : Path}
    (h : (evacuateThenPublish target build mountpoint dir w).1.isPublished = true) :
    ∃ temp, (publishAt temp target build mountpoint dir
        { w with stagingSeq := w.stagingSeq + 1 }).1.isPublished = true ∧
      (evacuateThenPublish target build mountpoint dir w).2 =
        (publishAt temp target build mountpoint dir { w with stagingSeq := w.stagingSeq + 1 }).2 := by
  unfold evacuateThenPublish stagingPath at h ⊢
  cases hparent : target.parent with
  | none =>
    rw [hparent] at h
    cases h
  | some parent =>
    rw [hparent] at h
    exact ⟨_, h, rfl⟩

theorem hardlink_carried (hk : Spares w.outside own) {action : PlanAction} {t k : InodeId}
    (ht : t ∈ own) (hkeep : k ∈ own) (htk : t ≠ k) {nt nk : Node}
    (htarget : w.fs.lookup action.target = some (t, nt))
    (hkeeper : w.fs.lookup action.keeper = some (k, nk)) (hkind : action.kind = .hardlink)
    {mountpoint dir : Path}
    (hok : (hardlink action.target action.keeper mountpoint dir w).1.isPublished = true) :
    Carried own action k w.fs (hardlink action.target action.keeper mountpoint dir w).2.fs := by
  obtain ⟨hT, hmem⟩ := has_of_lookup htarget
  obtain ⟨hK, hmemk⟩ := has_of_lookup hkeeper
  obtain ⟨temp, hpub, hworld⟩ := evacuateThenPublish_published hok
  unfold hardlink
  rw [hworld]
  have hbuilt := (hardlinkBuild_has (w := { w with stagingSeq := w.stagingSeq + 1 }) hk hkeep hK
    hmemk temp).2
  have hran := (hardlinkBuild_builds action.keeper).ran temp { w with stagingSeq := w.stagingSeq + 1 }
  by_cases hbuild : (hardlinkBuild action.keeper temp
      { w with stagingSeq := w.stagingSeq + 1 }).1 = .ok ()
  · obtain ⟨-, c, hb⟩ := hbuilt hbuild
    obtain ⟨hrest, hT', c', hK'⟩ := publishAt_published
      (w := { w with stagingSeq := w.stagingSeq + 1 }) hk ht htk hT hmem hran (fun _ => hb) hpub
    refine carried_of_ends htk hT hrest hT' fun _ p n hp => ?_
    obtain ⟨rfl, hmemp⟩ := hK.of_lookup hp
    exact ⟨_, hK'.lookup (Set.mem_insert_of_mem _ hmemp), ⟨rfl, rfl, rfl, rfl⟩,
      fun _ hne => absurd hkind hne⟩
  · exact absurd (publishAt_built hpub) hbuild

theorem reflink_carried (hk : Spares w.outside own)
    (hclones : ∀ d n, (⟨d, w.outside.inode n⟩ : InodeId) ∈ own) {action : PlanAction}
    {t k : InodeId} (ht : t ∈ own) (hkeep : k ∈ own) (htk : t ≠ k) {nt nk : Node}
    (htarget : w.fs.lookup action.target = some (t, nt))
    (hkeeper : w.fs.lookup action.keeper = some (k, nk)) {mountpoint dir : Path}
    (hok : (reflink action.target action.keeper mountpoint dir w).1.isPublished = true) :
    Carried own action k w.fs (reflink action.target action.keeper mountpoint dir w).2.fs := by
  have hlooked := metaRead_looked action.target w
  unfold reflink at hok ⊢
  generalize metaRead action.target w = step at hlooked hok ⊢
  obtain ⟨result, w₁⟩ := step
  cases result with
  | error e => cases hok
  | ok carried =>
  simp only at hlooked hok ⊢
  have hk₁ : Spares w₁.outside own := hlooked.toTraced.keeps hk
  have hread := hlooked.keeps _ hk
  obtain ⟨hT, hmem⟩ := has_of_lookup (hread.lookup ht htarget)
  obtain ⟨hK, hmemk⟩ := has_of_lookup (hread.lookup hkeep hkeeper)
  obtain ⟨temp, hpub, hworld⟩ := evacuateThenPublish_published hok
  rw [hworld]
  have hran := (cloneBuild_builds action.keeper carried).ran temp
    { w₁ with stagingSeq := w₁.stagingSeq + 1 }
  have hbuilt := (cloneBuild_has (w := { w₁ with stagingSeq := w₁.stagingSeq + 1 }) hk₁
    (by rw [show ({ w₁ with stagingSeq := w₁.stagingSeq + 1 } : World).outside = w.outside from
          hlooked.outside]
        exact hclones) hkeep hK hmemk carried temp).2 (publishAt_built hpub)
  obtain ⟨c, nc, hfresh, -, -, -, -, -, hb⟩ := hbuilt
  have hnew : ∀ p i n, w₁.fs.lookup p = some (i, n) → i ≠ c := by
    rintro p i n hp rfl
    have := (lookup_eq_some.1 hp).2
    rw [show w₁.fs.nodes i = none from hfresh] at this
    cases this
  obtain ⟨hrest, hT', -⟩ := publishAt_published
    (w := { w₁ with stagingSeq := w₁.stagingSeq + 1 }) hk₁ ht
    (hnew _ _ _ (hread.lookup ht htarget)) hT hmem hran (fun _ => hb) hpub
  refine (carried_of_ends htk hT hrest hT' fun _ p n hp => ?_).untouched hread (Untouched.refl _ _)
  exact absurd rfl (hnew p c n hp)

/-! ## The action as a whole -/

namespace Batch

/-- Only a publication that succeeds is a success. -/
theorem finishPublication_ok {action : PlanAction} {dir : Path} {published : Publication}
    {linkage : Linkage} {b : Batch}
    (h : (b.finishPublication action dir published linkage w).1.1.result = .ok ()) :
    published.isPublished = true := by
  cases published with
  | published q => rfl
  | stranded q detail => exact absurd h nofun
  | notMoved detail => exact absurd h nofun
  | rolledBack detail => exact absurd h nofun

/-- **A completed action** takes the target's pathname from its inode and leaves the rest. -/
theorem carryOut_carried (hk : Spares w.outside own)
    (hclones : ∀ d n, (⟨d, w.outside.inode n⟩ : InodeId) ∈ own) {action : PlanAction}
    {t k : InodeId} (ht : t ∈ own) (hkeep : k ∈ own) (htk : t ≠ k) {nt nk : Node}
    (htarget : w.fs.lookup action.target = some (t, nt))
    (hkeeper : w.fs.lookup action.keeper = some (k, nk)) {dataset : Dataset} {b : Batch}
    (hok : (b.carryOut action dataset w).1.1.result = .ok ()) :
    Carried own action k w.fs (b.carryOut action dataset w).2.2.fs := by
  unfold carryOut at hok ⊢
  cases hkind : action.kind with
  | delete =>
    simp only [hkind] at hok ⊢
    have hcarried := fun q => @deleteToQuarantine_carried own w hk action t k ht htk nt htarget
      dataset.mountpoint (quarantineDir dataset.mountpoint b.timestamp) q
    have hran := deleteToQuarantine_ran action.target dataset.mountpoint
      (quarantineDir dataset.mountpoint b.timestamp) w
    generalize deleteToQuarantine action.target dataset.mountpoint
      (quarantineDir dataset.mountpoint b.timestamp) w = step at hok hcarried hran ⊢
    obtain ⟨result, w₁⟩ := step
    cases result with
    | error e => exact absurd hok nofun
    | ok moved =>
      have hs := afterMove_settles action moved none
        (b.noteQuarantine (quarantineDir dataset.mountpoint b.timestamp)) w₁
      exact (hcarried moved rfl).untouched (Untouched.refl _ _) (hs.looked.keeps _ (hran.keeps hk))
  | hardlink =>
    simp only [hkind] at hok ⊢
    have hcarried := @hardlink_carried own w hk action t k ht hkeep htk nt nk htarget hkeeper hkind
      dataset.mountpoint (quarantineDir dataset.mountpoint b.timestamp)
    have hran := hardlink_ran action.target action.keeper dataset.mountpoint
      (quarantineDir dataset.mountpoint b.timestamp) w
    generalize hardlink action.target action.keeper dataset.mountpoint
      (quarantineDir dataset.mountpoint b.timestamp) w = step at hok hcarried hran ⊢
    obtain ⟨published, w₁⟩ := step
    have hs := finishPublication_settles action (quarantineDir dataset.mountpoint b.timestamp)
      published .hardlink b w₁
    exact (hcarried (finishPublication_ok hok)).untouched (Untouched.refl _ _)
      (hs.looked.keeps _ (hran.keeps hk))
  | reflink =>
    simp only [hkind] at hok ⊢
    have hcarried := @reflink_carried own w hk hclones action t k ht hkeep htk nt nk htarget hkeeper
      dataset.mountpoint (quarantineDir dataset.mountpoint b.timestamp)
    have hran := reflink_ran action.target action.keeper dataset.mountpoint
      (quarantineDir dataset.mountpoint b.timestamp) w
    generalize reflink action.target action.keeper dataset.mountpoint
      (quarantineDir dataset.mountpoint b.timestamp) w = step at hok hcarried hran ⊢
    obtain ⟨published, w₁⟩ := step
    have hs := finishPublication_settles action (quarantineDir dataset.mountpoint b.timestamp)
      published .reflink b w₁
    exact (hcarried (finishPublication_ok hok)).untouched (Untouched.refl _ _)
      (hs.looked.keeps _ (hran.keeps hk))

/-! ## What an action leaves of the cache -/

theorem noteQuarantine_verified (dir : Path) (b : Batch) :
    (b.noteQuarantine dir).verified = b.verified := by
  unfold noteQuarantine
  split <;> rfl

theorem afterMove_verified (action : PlanAction) (moved : Path) (linkage : Option Linkage)
    (b : Batch) (w : World) : (b.afterMove action moved linkage w).2.1.verified = b.verified := by
  unfold afterMove unsettled
  split
  · rfl
  · split <;> rfl

theorem finishPublication_verified (action : PlanAction) (dir : Path) (published : Publication)
    (linkage : Linkage) (b : Batch) (w : World) :
    (b.finishPublication action dir published linkage w).2.1.verified = b.verified := by
  unfold finishPublication
  split
  · rw [afterMove_verified, noteQuarantine_verified]
  · exact noteQuarantine_verified dir b
  · rfl

theorem carryOut_verified (action : PlanAction) (dataset : Dataset) (b : Batch) (w : World) :
    (b.carryOut action dataset w).2.1.verified = b.verified := by
  unfold carryOut
  simp only
  split
  · split
    · rfl
    · rw [afterMove_verified, noteQuarantine_verified]
  · exact finishPublication_verified _ _ _ _ _ _
  · exact finishPublication_verified _ _ _ _ _ _

end Batch

end DedupCommando
