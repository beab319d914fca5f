import DedupCommando.Actions.PublishSafety
import DedupCommando.Kernel.Inodes

/-!
# What a publication does to the inodes of a plan

Other processes leave a set `own` of inodes alone and may do anything else; every call may fail but
the unlink of a temporary name.

* `BuiltHas` — what a build leaves of the replacement under its temporary name.
* `Ends` — what a publication leaves of the original and of the replacement.
* `publishAt_has` — a publication attempt touches nothing else of `own`.
* `hardlinkBuild_has`, `cloneBuild_has` — the two builds.
* `hardlink_has`, `reflink_has` — the two publications.
-/

set_option autoImplicit false

namespace DedupCommando

open World Filesystem

/-- Other processes leave `own` alone. -/
abbrev Spares (o : Outside) (own : Set InodeId) : Prop := Keeps o (Untouched own)

/-- No unlink fails by itself. -/
def Outside.Unlinks (o : Outside) : Prop := ∀ n p, o.fault n (.unlink p) = none

/-- `temp` is the name of no inode of `own`. -/
def Filesystem.Clear (own : Set InodeId) (temp : Path) (fs : Filesystem) : Prop :=
  ∀ i ∈ own, fs.entries temp ≠ some i

variable {own : Set InodeId} {w : World}

theorem Spares.mono {o : Outside} {own' : Set InodeId} (h : Spares o own) (hsub : own' ⊆ own) :
    Spares o own' :=
  ⟨Untouched.refl own', Untouched.trans, fun n fs => (h.others n fs).mono hsub⟩

theorem Untouched.insert_trans {i : InodeId} {a b c : Filesystem}
    (h₁ : Untouched own a b) (h₂ : Untouched (own \ {i}) b c) : Untouched (own \ {i}) a c :=
  (h₁.mono Set.sdiff_subset).trans h₂

theorem Untouched.of_ne {i : InodeId} {a b : Filesystem} (h : Untouched {j | j ≠ i} a b) :
    Untouched (own \ {i}) a b := h.mono fun _ hj => hj.2

/-! ## Single calls -/

theorem renameNoreplace_has (hk : Spares w.outside own) {i : InodeId} (hi : i ∈ own) {n : Node}
    {names : Set Path} (hhas : w.fs.Has i n names) {src : Path} (dest : Path)
    (hsrc : src ∈ names) :
    (∃ e, (w.renameNoreplace src dest).1 = .error e ∧
        Untouched own w.fs (w.renameNoreplace src dest).2.fs) ∨
      (w.renameNoreplace src dest).1 = .ok () ∧ dest ∉ names ∧
        (∃ c, (w.renameNoreplace src dest).2.fs.Has i { n with ctime := c }
          (insert dest (names \ {src}))) ∧
        Untouched (own \ {i}) w.fs (w.renameNoreplace src dest).2.fs := by
  rcases hk.perform (.rename src dest) (rename w.now src dest) with
    ⟨e, he, hu⟩ | ⟨a, fs₁, hok, hu, hop⟩
  · exact .inl ⟨e, he, hu⟩
  · obtain ⟨hdest, hmoved, hrest⟩ := rename_has hop (hu i hi n names hhas) hsrc
    exact .inr ⟨hok, hdest, ⟨_, hmoved⟩, Untouched.insert_trans hu (Untouched.of_ne hrest)⟩

theorem deleteToQuarantine_has (hk : Spares w.outside own) {i : InodeId} (hi : i ∈ own) {n : Node}
    {names : Set Path} (hhas : w.fs.Has i n names) {target : Path} (mountpoint dir : Path)
    (htarget : target ∈ names) :
    (∃ e, (deleteToQuarantine target mountpoint dir w).1 = .error e ∧
        Untouched own w.fs (deleteToQuarantine target mountpoint dir w).2.fs) ∨
      ∃ q, (deleteToQuarantine target mountpoint dir w).1 = .ok q ∧ q ∉ names ∧
        (∃ c, (deleteToQuarantine target mountpoint dir w).2.fs.Has i { n with ctime := c }
          (insert q (names \ {target}))) ∧
        Untouched (own \ {i}) w.fs (deleteToQuarantine target mountpoint dir w).2.fs := by
  rcases deleteToQuarantine_spec target mountpoint dir hk with ⟨e, he, hu⟩ | ⟨q, fs₁, now, hq, hu, hop⟩
  · exact .inl ⟨e, he, hu⟩
  · obtain ⟨hfree, hmoved, hrest⟩ := rename_has hop (hu i hi n names hhas) htarget
    exact .inr ⟨q, hq, hfree, ⟨_, hmoved⟩, Untouched.insert_trans hu (Untouched.of_ne hrest)⟩

/-- The cleanup of a replacement that is one of `own`. -/
theorem removeFile_has (hk : Spares w.outside own) (hunlinks : w.outside.Unlinks) {r : InodeId}
    (hr : r ∈ own) {n : Node} {names : Set Path} {temp : Path}
    (hhas : w.fs.Has r n (insert temp names)) (htemp : temp ∉ names) :
    (∃ c, (w.removeFile temp).2.fs.Has r { n with nlink := n.nlink - 1, ctime := c } names) ∧
      Untouched (own \ {r}) w.fs (w.removeFile temp).2.fs := by
  have hthere := hk.enter (.unlink temp) r hr n _ hhas
  rcases w.perform_cases (.unlink temp) (unlink w.now temp) with
    ⟨e, -, hfault | ⟨-, hop⟩⟩ | ⟨a, fs, h, -, hop⟩
  · rw [hunlinks] at hfault; cases hfault
  · unfold unlink at hop
    rw [hthere.lookup (Set.mem_insert temp names)] at hop
    cases hop
  · obtain ⟨hgone, hrest⟩ := unlink_has hop ((hthere.names temp).2 (Set.mem_insert temp names))
    have hnames := hgone n _ hthere
    rw [Set.insert_sdiff_self_of_notMem htemp] at hnames
    unfold World.removeFile
    rw [h]
    exact ⟨⟨_, hnames⟩, Untouched.insert_trans (hk.enter _) (Untouched.of_ne hrest)⟩

/-- The cleanup of a name that was none of `own`'s when the call began. -/
theorem removeFile_foreign (hk : Spares w.outside own) {before : Filesystem} {temp : Path}
    (hclear : before.Clear own temp) (hu : Untouched own before w.fs) :
    Untouched own before (w.removeFile temp).2.fs := by
  rcases hk.perform (.unlink temp) (unlink w.now temp) with ⟨e, -, hR⟩ | ⟨a, fs₁, -, hR, hop⟩
  · exact hu.trans hR
  · obtain ⟨j, -, hj, -⟩ := unlink_ok hop
    obtain ⟨-, hrest⟩ := unlink_has hop hj
    intro i hi n names hhas
    have hthere := hu.trans hR i hi n names hhas
    refine hrest i (fun he => ?_) n names hthere
    have hmem : temp ∈ names := (hthere.names temp).1 (by rw [hj, he])
    exact hclear i hi ((hhas.names temp).2 hmem)

/-! ## A publication -/

/-- What a build leaves: the replacement `r` under the temporary name as well. -/
structure BuiltHas (own : Set InodeId) (temp : Path) (before after : Filesystem) (r : InodeId)
    (n : Node) (names : Set Path) : Prop where
  mem : r ∈ own
  has : after.Has r n (insert temp names)
  temp_notMem : temp ∉ names
  rest : Untouched (own \ {r}) before after

/-- What an attempt leaves of the original `t` and of the replacement `r`. -/
def Ends (after : Filesystem) (target : Path) (t : InodeId) (nt : Node) (Nt : Set Path)
    (r : InodeId) (nr : Node) (Nr : Set Path) : Publication → Prop
  | .published q => q ∉ Nt ∧ (∃ c, after.Has t { nt with ctime := c } (insert q (Nt \ {target}))) ∧
      ∃ c, after.Has r { nr with ctime := c } (insert target Nr)
  | .stranded q _ => q ∉ Nt ∧
      (∃ c, after.Has t { nt with ctime := c } (insert q (Nt \ {target}))) ∧
      ∃ c, after.Has r { nr with nlink := nr.nlink - 1, ctime := c } Nr
  | _ => (∃ c, after.Has t { nt with ctime := c } Nt) ∧
      ∃ c, after.Has r { nr with nlink := nr.nlink - 1, ctime := c } Nr

/-- The `ctime` the original had on the way is nothing an end remembers. -/
theorem Ends.ctime {after : Filesystem} {target : Path} {t : InodeId} {nt : Node} {Nt : Set Path}
    {r : InodeId} {nr : Node} {Nr : Set Path} {c : Timespec} {p : Publication}
    (h : Ends after target t { nt with ctime := c } Nt r nr Nr p) :
    Ends after target t nt Nt r nr Nr p := by
  cases p with
  | published q => exact h
  | stranded q d => exact h
  | notMoved d => exact h
  | rolledBack d => exact h

theorem removeReplacement_fs (temp : Path) (w : World) :
    (removeReplacement temp w).2.fs = (w.removeFile temp).2.fs := by
  rw [removeReplacement_snd]

theorem publishEvacuated_has (hk : Spares w.outside own) (hunlinks : w.outside.Unlinks)
    {t r : InodeId} (ht : t ∈ own) (hr : r ∈ own) (htr : t ≠ r) {nt nr : Node} {Nt Nr : Set Path}
    {target temp q : Path} (htarget : target ∈ Nt) (hq : q ∉ Nt)
    (hT : w.fs.Has t nt (insert q (Nt \ {target}))) (hR : w.fs.Has r nr (insert temp Nr))
    (htemp : temp ∉ Nr) :
    Untouched (own \ {t, r}) w.fs (publishEvacuated temp target q w).2.fs ∧
      Ends (publishEvacuated temp target q w).2.fs target t nt Nt r nr Nr
        (publishEvacuated temp target q w).1 := by
  have hsub : ∀ i ∈ ({t, r} : Set InodeId), own \ {t, r} ⊆ own \ {i} := fun i hi =>
    Set.sdiff_subset_sdiff_right (Set.singleton_subset_iff.2 hi)
  have hT_mem : t ∈ own \ {r} := ⟨ht, htr⟩
  have hR_mem : r ∈ own \ {t} := ⟨hr, htr.symm⟩
  unfold publishEvacuated
  have hran : Ran w (w.renameNoreplace temp target).2 := perform_ran _ _ w
  have hpublish := renameNoreplace_has hk hr hR target (Set.mem_insert temp Nr)
  generalize w.renameNoreplace temp target = step at hran hpublish
  obtain ⟨result, w₁⟩ := step
  simp only at hran hpublish
  rcases hpublish with ⟨e, rfl, hu⟩ | ⟨rfl, htargetNr, ⟨c, hr₁⟩, hu⟩
  swap
  · -- published
    refine ⟨hu.mono (hsub r (by simp)), hq, ⟨nt.ctime, ?_⟩, c, ?_⟩
    · exact hu t hT_mem _ _ hT
    · rw [Set.insert_sdiff_self_of_notMem htemp] at hr₁
      exact hr₁
  · have hk₁ := hran.keeps hk
    have hunlinks₁ : w₁.outside.Unlinks := by rw [hran.outside]; exact hunlinks
    have hran₂ : Ran w₁ (removeReplacement temp w₁).2 := by
      rw [removeReplacement_snd]; exact perform_ran _ _ w₁
    obtain ⟨⟨c, hr₂⟩, hu₂⟩ := removeFile_has hk₁ hunlinks₁ hr (hu r hr _ _ hR) htemp
    rw [← removeReplacement_fs] at hr₂ hu₂
    simp only
    generalize removeReplacement temp w₁ = step at hran₂ hr₂ hu₂
    obtain ⟨leftover, w₂⟩ := step
    simp only at hran₂ hr₂ hu₂
    have hk₂ := hran₂.keeps hk₁
    have hT₂ := hu₂ t hT_mem _ _ (hu t ht _ _ hT)
    have hstart := Untouched.insert_trans hu hu₂
    have hback := renameNoreplace_has hk₂ ht hT₂ target (Set.mem_insert q _)
    simp only
    generalize w₂.renameNoreplace q target = step at hback
    obtain ⟨result, w₃⟩ := step
    simp only at hback
    rcases hback with ⟨back, rfl, hu₃⟩ | ⟨rfl, -, ⟨c', ht₃⟩, hu₃⟩
    · -- the original stays in quarantine
      refine ⟨(hstart.mono (hsub r (by simp))).trans (hu₃.mono Set.sdiff_subset),
        hq, ⟨nt.ctime, hu₃ t ht _ _ hT₂⟩, c, hu₃ r hr _ _ hr₂⟩
    · -- the original is back
      refine ⟨(hstart.mono (hsub r (by simp))).trans (hu₃.mono (hsub t (by simp))),
        ⟨c', ?_⟩, c, hu₃ r hR_mem _ _ hr₂⟩
      have hnames : insert target (insert q (Nt \ {target}) \ {q}) = Nt := by
        rw [Set.insert_sdiff_self_of_notMem fun h => hq h.1, Set.insert_sdiff_singleton,
          Set.insert_eq_of_mem htarget]
      rw [hnames] at ht₃
      exact ht₃

/-- **A publication attempt**: either its build failed and what the temporary name is no name of is
    as it was, or the original and the replacement are where the publication says, and the rest of
    `own` is untouched. -/
theorem publishAt_has (hk : Spares w.outside own) (hunlinks : w.outside.Unlinks) {t : InodeId}
    (ht : t ∈ own) {nt : Node} {Nt : Set Path} (hT : w.fs.Has t nt Nt) {target temp : Path}
    (htarget : target ∈ Nt) {own' : Set InodeId} (hsub' : own' ⊆ own)
    (hclear : w.fs.Clear own' temp) {build : Build}
    (hran : Ran w (build temp w).2)
    (hfailed : ∀ e, (build temp w).1 = .error e → Untouched own w.fs (build temp w).2.fs)
    (hbuilt : (build temp w).1 = .ok () → ∃ r nr Nr, t ≠ r ∧
      BuiltHas own temp w.fs (build temp w).2.fs r nr Nr) (mountpoint dir : Path) :
    ((∃ detail, (publishAt temp target build mountpoint dir w).1 = .notMoved detail) ∧
        Untouched own' w.fs (publishAt temp target build mountpoint dir w).2.fs) ∨
      (build temp w).1 = .ok () ∧
        ∀ r nr Nr, t ≠ r → BuiltHas own temp w.fs (build temp w).2.fs r nr Nr →
        Untouched (own \ {t, r}) w.fs (publishAt temp target build mountpoint dir w).2.fs ∧
        Ends (publishAt temp target build mountpoint dir w).2.fs target t nt Nt r nr Nr
          (publishAt temp target build mountpoint dir w).1 := by
  unfold publishAt
  generalize build temp w = step at hran hfailed hbuilt
  obtain ⟨result, w₁⟩ := step
  simp only at hran hfailed hbuilt
  have hk₁ := hran.keeps hk
  have hunlinks₁ : w₁.outside.Unlinks := by rw [hran.outside]; exact hunlinks
  cases result with
  | error e =>
    exact .inl ⟨⟨_, rfl⟩, removeFile_foreign (Spares.mono hk₁ hsub') hclear
      ((hfailed e rfl).mono hsub')⟩
  | ok u =>
    refine .inr ⟨rfl, fun r nr Nr htr hb => ?_⟩
    have hsub : ∀ i ∈ ({t, r} : Set InodeId), own \ {t, r} ⊆ own \ {i} := fun i hi =>
      Set.sdiff_subset_sdiff_right (Set.singleton_subset_iff.2 hi)
    have hT₁ := hb.rest t ⟨ht, htr⟩ _ _ hT
    have hran₁ := deleteToQuarantine_ran target mountpoint dir w₁
    have hmove := deleteToQuarantine_has hk₁ ht hT₁ mountpoint dir htarget
    simp only
    generalize deleteToQuarantine target mountpoint dir w₁ = step at hran₁ hmove
    obtain ⟨result, w₂⟩ := step
    simp only at hran₁ hmove
    have hk₂ := hran₁.keeps hk₁
    have hunlinks₂ : w₂.outside.Unlinks := by rw [hran₁.outside]; exact hunlinks₁
    rcases hmove with ⟨e, rfl, hu⟩ | ⟨q, rfl, hq, ⟨c, hT₂⟩, hu⟩
    · -- the evacuation failed
      obtain ⟨⟨c, hr₃⟩, hu₃⟩ := removeFile_has hk₂ hunlinks₂ hb.mem (hu r hb.mem _ _ hb.has)
        hb.temp_notMem
      refine ⟨(hb.rest.trans ((hu.mono Set.sdiff_subset).trans hu₃)).mono (hsub r (by simp)),
        ⟨nt.ctime, hu₃ t ⟨ht, htr⟩ _ _ (hu t ht _ _ hT₁)⟩, c, hr₃⟩
    · have hr₂ := hu r ⟨hb.mem, htr.symm⟩ _ _ hb.has
      have hpause := hk₂.pause
      obtain ⟨hu₃, hends⟩ := publishEvacuated_has (w := w₂.pause) hk₂ hunlinks₂ ht hb.mem htr
        htarget hq (hpause t ht _ _ hT₂) (hpause r hb.mem _ _ hr₂) hb.temp_notMem
      exact ⟨((hb.rest.mono (hsub r (by simp))).trans (hu.mono (hsub t (by simp)))).trans
        ((hpause.mono Set.sdiff_subset).trans hu₃), hends.ctime⟩

/-! ## The builds -/

/-- A hardlink's replacement is the keeper, with one link more. -/
theorem hardlinkBuild_has (hk : Spares w.outside own) {k : InodeId} (hkeep : k ∈ own) {nk : Node}
    {Nk : Set Path} (hK : w.fs.Has k nk Nk) {keeper : Path} (hkeeper : keeper ∈ Nk) (temp : Path) :
    (∀ e, (hardlinkBuild keeper temp w).1 = .error e →
        Untouched own w.fs (hardlinkBuild keeper temp w).2.fs) ∧
      ((hardlinkBuild keeper temp w).1 = .ok () → nk.nlink + 1 < 2 ^ 64 ∧ ∃ c,
        BuiltHas own temp w.fs (hardlinkBuild keeper temp w).2.fs k
          { nk with nlink := nk.nlink + 1, ctime := c } Nk) := by
  have hlink := hk.perform (.link keeper temp) (link w.now keeper temp)
  unfold hardlinkBuild World.hardLink
  generalize w.perform (.link keeper temp) (link w.now keeper temp) = step at hlink
  obtain ⟨result, w₁⟩ := step
  simp only at hlink
  rcases hlink with ⟨e, rfl, hu⟩ | ⟨a, fs₁, rfl, hu, hop⟩
  · exact ⟨fun _ _ => hu, nofun⟩
  · have hK₁ := hu k hkeep nk Nk hK
    obtain ⟨hfree, hroom, hlinked, hrest⟩ := link_has hop hK₁ hkeeper
    exact ⟨nofun, fun _ => ⟨hroom, _, hkeep, hlinked, hK₁.free hfree,
      Untouched.insert_trans hu (Untouched.of_ne hrest)⟩⟩

/-- A change of one inode through its descriptor. -/
theorem change_step (hk : Spares w.outside own) {c : InodeId} (hc : c ∈ own) {n : Node}
    {names : Set Path} (hhas : w.fs.Has c n names) (call : Syscall) (f : Node → Node) :
    Untouched (own \ {c}) w.fs (w.perform call (change c f)).2.fs ∧
      ((w.perform call (change c f)).1 = .ok () →
        (w.perform call (change c f)).2.fs.Has c (f n) names) := by
  rcases hk.perform call (change c f) with ⟨e, he, hu⟩ | ⟨a, fs₁, -, hu, hop⟩
  · rw [he]
    exact ⟨hu.mono Set.sdiff_subset, nofun⟩
  · obtain ⟨hchanged, hrest⟩ := change_has hop (hu c hc n names hhas)
    exact ⟨Untouched.insert_trans hu (Untouched.of_ne hrest), fun _ => hchanged⟩

/-- What the attributes of a clone leave alone. -/
structure Node.SameData (n n' : Node) : Prop where
  kind : n'.kind = n.kind
  content : n'.content = n.content
  nlink : n'.nlink = n.nlink

theorem Node.SameData.trans {a b c : Node} (h₁ : a.SameData b) (h₂ : b.SameData c) :
    a.SameData c :=
  ⟨h₂.kind.trans h₁.kind, h₂.content.trans h₁.content, h₂.nlink.trans h₁.nlink⟩

/-- A step on the clone `c`: the rest is untouched, and on success it keeps its data. -/
def OnClone (own : Set InodeId) (c : InodeId) (names : Set Path) (n : Node) (w : World)
    {ε : Type} (step : Except ε Unit × World) : Prop :=
  Ran w step.2 ∧ Untouched (own \ {c}) w.fs step.2.fs ∧
    (step.1 = .ok () → ∃ n', step.2.fs.Has c n' names ∧ n.SameData n')

theorem onClone_change (hk : Spares w.outside own) {c : InodeId} (hc : c ∈ own) {n : Node}
    {names : Set Path} (hhas : w.fs.Has c n names) (call : Syscall) {f : Node → Node}
    (hf : ∀ n : Node, n.SameData (f n)) : OnClone own c names n w (w.perform call (change c f)) := by
  obtain ⟨hu, hok⟩ := change_step hk hc hhas call f
  exact ⟨perform_ran _ _ w, hu, fun h => ⟨_, hok h, hf n⟩⟩

theorem applyXattrs_onClone {c : InodeId} (hc : c ∈ own) {names : Set Path} (path : Path)
    (xattrs : List (Bytes × Bytes)) : ∀ {w : World} {n : Node}, Spares w.outside own →
      w.fs.Has c n names → OnClone own c names n w (applyXattrs path c xattrs w) := by
  induction xattrs with
  | nil =>
    intro w n _ hhas
    exact ⟨Ran.refl w, Untouched.refl _ _, fun _ => ⟨n, hhas, rfl, rfl, rfl⟩⟩
  | cons xattr xattrs ih =>
    intro w n hk hhas
    obtain ⟨name, value⟩ := xattr
    have hset : OnClone own c names n w (w.setXattr c name value) :=
      onClone_change hk hc hhas _ fun n => by
        rw [Node.setXattr_eq]
        exact ⟨rfl, rfl, rfl⟩
    obtain ⟨hran, hu, hok⟩ := hset
    unfold applyXattrs
    generalize w.setXattr c name value = step at hran hu hok
    obtain ⟨result, w₁⟩ := step
    cases result with
    | error e => exact ⟨hran, hu, fun h => by cases h⟩
    | ok u =>
      obtain ⟨n₁, hhas₁, hsame⟩ := hok rfl
      obtain ⟨hran₂, hu₂, hok₂⟩ := ih (hran.keeps hk) hhas₁
      refine ⟨hran.trans hran₂, hu.trans hu₂, fun h => ?_⟩
      obtain ⟨n₂, hhas₂, hsame₂⟩ := hok₂ h
      exact ⟨n₂, hhas₂, hsame.trans hsame₂⟩

/-- `meta::apply` on a clone changes nothing of `own` but the clone, which ends with the carried
    modification time. -/
theorem metaApply_has (hk : Spares w.outside own) {c : InodeId} (hc : c ∈ own) {n : Node}
    {names : Set Path} (hhas : w.fs.Has c n names) {path : Path} (hpath : path ∈ names)
    (carried : FileMetadata) :
    Untouched (own \ {c}) w.fs (metaApply path carried w).2.fs ∧
      ((metaApply path carried w).1 = .ok () → ∃ n', (metaApply path carried w).2.fs.Has c n' names ∧
        n.SameData n' ∧ n'.mtime = carried.mtime) := by
  have hlooked := openFile_looked path w
  have hu₁ := hlooked.keeps _ hk
  have hopen := hk.perform (.openFile path) (Filesystem.openFile path)
  unfold metaApply
  unfold World.openFile at hlooked hu₁ ⊢
  generalize w.perform (.openFile path) (Filesystem.openFile path) = step at hlooked hu₁ hopen
  obtain ⟨result, w₁⟩ := step
  simp only at hlooked hu₁ hopen
  rcases hopen with ⟨e, rfl, -⟩ | ⟨⟨file, current⟩, fs₁, rfl, hu, hop⟩
  · exact ⟨hu₁.mono Set.sdiff_subset, nofun⟩
  have hhas₁ := hu₁ c hc n names hhas
  -- the path still names the clone, so the descriptor is the clone's
  obtain ⟨hfs, hfound⟩ := Filesystem.openFile_ok hop
  rw [← hfs, hhas₁.lookup hpath] at hfound
  cases hfound
  have hk₁ := hlooked.toTraced.keeps hk
  have hstart : Untouched (own \ {c}) w.fs w₁.fs := hu₁.mono Set.sdiff_subset
  simp only
  split
  · exact ⟨hstart, nofun⟩
  have howner : OnClone own c names n w₁ (applyOwner c n carried w₁) := by
    unfold applyOwner
    split
    · exact onClone_change hk₁ hc hhas₁ _ fun _ => ⟨rfl, rfl, rfl⟩
    · exact ⟨Ran.refl _, Untouched.refl _ _, fun _ => ⟨n, hhas₁, rfl, rfl, rfl⟩⟩
  obtain ⟨hran₂, hu₂, hok₂⟩ := howner
  generalize applyOwner c n carried w₁ = step at hran₂ hu₂ hok₂
  obtain ⟨result, w₂⟩ := step
  simp only at hran₂ hu₂ hok₂
  have hstart₂ := hstart.trans hu₂
  cases result with
  | error e => exact ⟨hstart₂, nofun⟩
  | ok u =>
  obtain ⟨n₂, hhas₂, hsame₂⟩ := hok₂ rfl
  have hk₂ := hran₂.keeps hk₁
  have hmode : OnClone own c names n₂ w₂ (w₂.chmod c (carried.mode % 4096)) :=
    onClone_change hk₂ hc hhas₂ _ fun _ => ⟨rfl, rfl, rfl⟩
  obtain ⟨hran₃, hu₃, hok₃⟩ := hmode
  simp only
  generalize w₂.chmod c (carried.mode % 4096) = step at hran₃ hu₃ hok₃
  obtain ⟨result, w₃⟩ := step
  simp only at hran₃ hu₃ hok₃
  have hstart₃ := hstart₂.trans hu₃
  cases result with
  | error e => exact ⟨hstart₃, nofun⟩
  | ok u =>
  obtain ⟨n₃, hhas₃, hsame₃⟩ := hok₃ rfl
  have hk₃ := hran₃.keeps hk₂
  obtain ⟨hran₄, hu₄, hok₄⟩ := applyXattrs_onClone hc path carried.xattrs hk₃ hhas₃
  simp only
  generalize applyXattrs path c carried.xattrs w₃ = step at hran₄ hu₄ hok₄
  obtain ⟨result, w₄⟩ := step
  simp only at hran₄ hu₄ hok₄
  have hstart₄ := hstart₃.trans hu₄
  cases result with
  | error e => exact ⟨hstart₄, nofun⟩
  | ok u =>
  obtain ⟨n₄, hhas₄, hsame₄⟩ := hok₄ rfl
  have hk₄ := hran₄.keeps hk₃
  have htimes : Untouched (own \ {c}) w₄.fs (w₄.utimens c carried.atime carried.mtime).2.fs ∧
      ((w₄.utimens c carried.atime carried.mtime).1 = .ok () →
        (w₄.utimens c carried.atime carried.mtime).2.fs.Has c
          { n₄ with atime := carried.atime, mtime := carried.mtime, ctime := w₄.now } names) :=
    change_step hk₄ hc hhas₄ _ _
  obtain ⟨hu₅, hok₅⟩ := htimes
  simp only
  generalize w₄.utimens c carried.atime carried.mtime = step at hu₅ hok₅
  obtain ⟨result, w₅⟩ := step
  simp only at hu₅ hok₅
  cases result with
  | error e => exact ⟨hstart₄.trans hu₅, nofun⟩
  | ok u =>
    refine ⟨hstart₄.trans hu₅, fun _ => ⟨_, hok₅ rfl, ?_, rfl⟩⟩
    have hsame := ((hsame₂.trans hsame₃).trans hsame₄)
    exact ⟨hsame.kind, hsame.content, hsame.nlink⟩

/-- A clone's replacement is a fresh inode with the keeper's content and the carried modification
    time; the keeper is only read. -/
theorem cloneBuild_has (hk : Spares w.outside own)
    (hclones : ∀ d n, (⟨d, w.outside.inode n⟩ : InodeId) ∈ own) {k : InodeId} (hkeep : k ∈ own)
    {nk : Node} {Nk : Set Path} (hK : w.fs.Has k nk Nk) {keeper : Path} (hkeeper : keeper ∈ Nk)
    (carried : FileMetadata) (temp : Path) :
    (∀ e, (cloneBuild keeper carried temp w).1 = .error e →
        Untouched own w.fs (cloneBuild keeper carried temp w).2.fs) ∧
      ((cloneBuild keeper carried temp w).1 = .ok () → ∃ c nc, w.fs.nodes c = none ∧
        c.device = k.device ∧ nc.kind = .regular ∧ nc.content = nk.content ∧ nc.nlink = 1 ∧
        nc.mtime = carried.mtime ∧
        BuiltHas own temp w.fs (cloneBuild keeper carried temp w).2.fs c nc ∅) := by
  have hran : Ran w (w.cloneFile keeper temp).2 := perform_ran _ _ w
  have hclone := hk.perform (.clone keeper temp)
    (clone w.now w.outside.creator (w.outside.inode w.tick) keeper temp)
  unfold cloneBuild
  unfold World.cloneFile at hran ⊢
  generalize w.perform (.clone keeper temp)
    (clone w.now w.outside.creator (w.outside.inode w.tick) keeper temp) = step at hran hclone
  obtain ⟨result, w₁⟩ := step
  simp only at hran hclone
  rcases hclone with ⟨e, rfl, hu⟩ | ⟨a, fs₁, rfl, hu, hop⟩
  · exact ⟨fun _ _ => hu, nofun⟩
  · have hK₁ := hu k hkeep nk Nk hK
    obtain ⟨hfresh, hfree, ⟨nc, hkind, hcontent, hnlink, hC⟩, hrest⟩ := clone_has hop hK₁ hkeeper
    have hc : (⟨k.device, w.outside.inode w.tick⟩ : InodeId) ∈ own := hclones _ _
    have hfresh₀ : w.fs.nodes ⟨k.device, w.outside.inode w.tick⟩ = none := by
      by_contra hne
      obtain ⟨n, hn⟩ := Option.ne_none_iff_exists'.1 hne
      have := hu _ hc n {p | w.fs.entries p = some _} ⟨hn, fun _ => Iff.rfl⟩
      rw [this.node] at hfresh; cases hfresh
    have hstart : Untouched own w.fs w₁.fs := hu.trans (hrest.mono (Set.subset_univ own))
    obtain ⟨hmeta, hok⟩ := metaApply_has (hran.keeps hk) hc hC (Set.mem_singleton temp) carried
    refine ⟨fun e _ => ?_, fun h => ?_⟩
    · -- a clone that failed half-way is no inode there was
      intro i hi n names hhas
      have hne : i ≠ ⟨k.device, w.outside.inode w.tick⟩ := fun he => by
        rw [he] at hhas
        rw [hhas.node] at hfresh₀; cases hfresh₀
      exact hmeta i ⟨hi, hne⟩ n names (hstart i hi n names hhas)
    · obtain ⟨n', hhas', hsame, hmtime⟩ := hok h
      refine ⟨_, n', hfresh₀, rfl, hsame.kind.trans hkind, hsame.content.trans hcontent,
        hsame.nlink.trans hnlink, hmtime, hc, ?_, Set.notMem_empty temp,
        (hstart.mono Set.sdiff_subset).trans hmeta⟩
      rw [insert_empty_eq]
      exact hhas'

/-! ## The two publications -/

/-- The temporary name of a replacement for `target` is none of `own`'s. -/
def StagingFree (own : Set InodeId) (target : Path) (w : World) : Prop :=
  ∀ parent, target.parent = some parent →
    w.fs.Clear own (w.stagingAt parent target.fileName)

theorem hardlink_has (hk : Spares w.outside own) (hunlinks : w.outside.Unlinks) {t k : InodeId}
    (ht : t ∈ own) (hkeep : k ∈ own) (htk : t ≠ k) {nt nk : Node} {Nt Nk : Set Path}
    (hT : w.fs.Has t nt Nt) (hK : w.fs.Has k nk Nk) {target keeper : Path} (htarget : target ∈ Nt)
    (hkeeper : keeper ∈ Nk) {own' : Set InodeId} (hsub : own' ⊆ own)
    (hfree : StagingFree own' target w) (mountpoint dir : Path) :
    ((∃ detail, (hardlink target keeper mountpoint dir w).1 = .notMoved detail) ∧
        Untouched own' w.fs (hardlink target keeper mountpoint dir w).2.fs) ∨
      nk.nlink + 1 < 2 ^ 64 ∧
        Untouched (own \ {t, k}) w.fs (hardlink target keeper mountpoint dir w).2.fs ∧
        ∃ c, Ends (hardlink target keeper mountpoint dir w).2.fs target t nt Nt k
          { nk with nlink := nk.nlink + 1, ctime := c } Nk
          (hardlink target keeper mountpoint dir w).1 := by
  unfold hardlink evacuateThenPublish stagingPath
  cases hparent : target.parent with
  | none => exact .inl ⟨⟨_, rfl⟩, Untouched.refl own' _⟩
  | some parent =>
    have hclear := hfree parent hparent
    simp only
    generalize w.stagingAt parent target.fileName = temp at hclear
    obtain ⟨hfailed, hbuilt⟩ := hardlinkBuild_has (w := { w with stagingSeq := w.stagingSeq + 1 })
      hk hkeep hK hkeeper temp
    have hran : Ran { w with stagingSeq := w.stagingSeq + 1 }
        (hardlinkBuild keeper temp { w with stagingSeq := w.stagingSeq + 1 }).2 :=
      (hardlinkBuild_builds keeper).ran temp _
    rcases publishAt_has (w := { w with stagingSeq := w.stagingSeq + 1 }) hk hunlinks ht hT htarget
      hsub hclear hran hfailed
      (fun hok => by
        obtain ⟨-, c, hb⟩ := hbuilt hok
        exact ⟨k, _, Nk, htk, hb⟩) mountpoint dir with h | ⟨hok, hends⟩
    · exact .inl h
    · obtain ⟨hroom, c, hb⟩ := hbuilt hok
      obtain ⟨hu, he⟩ := hends k _ Nk htk hb
      exact .inr ⟨hroom, hu, c, he⟩

/-- `meta::read` carries the modification time the target has. -/
theorem metaRead_mtime (hk : Spares w.outside own) {t : InodeId} (ht : t ∈ own) {nt : Node}
    {Nt : Set Path} (hT : w.fs.Has t nt Nt) {target : Path} (htarget : target ∈ Nt)
    {carried : FileMetadata} (h : (metaRead target w).1 = .ok carried) :
    carried.mtime = nt.mtime := by
  have hlstat := hk.perform (.lstat target) (Filesystem.lstat target)
  unfold metaRead at h
  unfold World.lstat at h
  generalize w.perform (.lstat target) (Filesystem.lstat target) = step at hlstat h
  obtain ⟨result, w₁⟩ := step
  simp only at hlstat h
  rcases hlstat with ⟨e, rfl, -⟩ | ⟨⟨i, n⟩, fs₁, rfl, hu, hop⟩
  · cases h
  · obtain ⟨-, hfound⟩ := Filesystem.lstat_ok hop
    rw [(hu t ht nt Nt hT).lookup htarget] at hfound
    cases hfound
    simp only at h
    split at h
    · cases h
    · cases h
      rfl

theorem reflink_has (hk : Spares w.outside own) (hunlinks : w.outside.Unlinks)
    (hclones : ∀ d n, (⟨d, w.outside.inode n⟩ : InodeId) ∈ own) {t k : InodeId}
    (ht : t ∈ own) (hkeep : k ∈ own) {nt nk : Node} {Nt Nk : Set Path}
    (hT : w.fs.Has t nt Nt) (hK : w.fs.Has k nk Nk) {target keeper : Path} (htarget : target ∈ Nt)
    (hkeeper : keeper ∈ Nk) {own' : Set InodeId} (hsub : own' ⊆ own)
    (hfree : ∀ carried, (metaRead target w).1 = .ok carried →
      StagingFree own' target (metaRead target w).2) (mountpoint dir : Path) :
    ((∃ detail, (reflink target keeper mountpoint dir w).1 = .notMoved detail) ∧
        Untouched own' w.fs (reflink target keeper mountpoint dir w).2.fs) ∨
      ∃ c nc, c ∈ own ∧ (∀ i ∈ own, ∀ n names, w.fs.Has i n names → i ≠ c) ∧
        c.device = k.device ∧ nc.kind = .regular ∧ nc.content = nk.content ∧ nc.nlink = 1 ∧
        nc.mtime = nt.mtime ∧
        Untouched (own \ {t, c}) w.fs (reflink target keeper mountpoint dir w).2.fs ∧
        Ends (reflink target keeper mountpoint dir w).2.fs target t nt Nt c nc ∅
          (reflink target keeper mountpoint dir w).1 := by
  have hlooked := metaRead_looked target w
  have hu₁ := hlooked.keeps _ hk
  have hmtime : ∀ carried, (metaRead target w).1 = .ok carried → carried.mtime = nt.mtime :=
    fun _ => metaRead_mtime hk ht hT htarget
  unfold reflink
  generalize metaRead target w = step at hlooked hu₁ hmtime hfree
  obtain ⟨result, w₁⟩ := step
  simp only at hlooked hu₁ hmtime hfree
  cases result with
  | error e => exact .inl ⟨⟨_, rfl⟩, hu₁.mono hsub⟩
  | ok carried =>
  have hfree := hfree carried rfl
  have hk₁ := hlooked.toTraced.keeps hk
  have hunlinks₁ : w₁.outside.Unlinks := by rw [hlooked.outside]; exact hunlinks
  have hclones₁ : ∀ d n, (⟨d, w₁.outside.inode n⟩ : InodeId) ∈ own := by
    rw [hlooked.outside]; exact hclones
  have hT₁ := hu₁ t ht nt Nt hT
  have hK₁ := hu₁ k hkeep nk Nk hK
  simp only
  unfold evacuateThenPublish stagingPath
  cases hparent : target.parent with
  | none => exact .inl ⟨⟨_, rfl⟩, hu₁.mono hsub⟩
  | some parent =>
    have hclear := hfree parent hparent
    simp only
    generalize w₁.stagingAt parent target.fileName = temp at hclear
    obtain ⟨hfailed, hbuilt⟩ := cloneBuild_has
      (w := { w₁ with stagingSeq := w₁.stagingSeq + 1 }) hk₁ hclones₁ hkeep hK₁ hkeeper carried temp
    have hran : Ran { w₁ with stagingSeq := w₁.stagingSeq + 1 }
        (cloneBuild keeper carried temp { w₁ with stagingSeq := w₁.stagingSeq + 1 }).2 :=
      (cloneBuild_builds keeper carried).ran temp _
    have hfresh : ∀ c, w₁.fs.nodes c = none → ∀ i ∈ own, ∀ n names, w.fs.Has i n names → i ≠ c := by
      rintro c hc i hi n names hhas rfl
      rw [(hu₁ i hi n names hhas).node] at hc
      cases hc
    rcases publishAt_has (w := { w₁ with stagingSeq := w₁.stagingSeq + 1 }) hk₁ hunlinks₁ ht hT₁
      htarget hsub hclear hran hfailed
      (fun hok => by
        obtain ⟨c, nc, hc, -, -, -, -, -, hb⟩ := hbuilt hok
        exact ⟨c, nc, ∅, hfresh c hc t ht nt Nt hT, hb⟩) mountpoint dir with
      ⟨hnot, hu₂⟩ | ⟨hok, hends⟩
    · exact .inl ⟨hnot, (hu₁.mono hsub).trans hu₂⟩
    · obtain ⟨c, nc, hc, hdevice, hkind, hcontent, hnlink, hmt, hb⟩ := hbuilt hok
      obtain ⟨hu₂, he⟩ := hends c nc ∅ (hfresh c hc t ht nt Nt hT) hb
      exact .inr ⟨c, nc, hb.mem, hfresh c hc, hdevice, hkind, hcontent, hnlink,
        hmt.trans (hmtime carried rfl), (hu₁.mono Set.sdiff_subset).trans hu₂, he⟩

end DedupCommando
