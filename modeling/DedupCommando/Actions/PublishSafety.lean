import DedupCommando.Actions.Publish
import DedupCommando.Model.PlanDisk

/-!
# Where the original is after a publication

Other processes may take any free name between two calls, with files of their own
(`Filesystem.Grows`); every call may fail.

* `PublicationHolds` — what a returned `Publication` says about the filesystem, and what the call
  left alone.
* `evacuateThenPublish_iff` — it holds exactly when the temporary name was free, or the file that
  stood there could not be unlinked: the cleanup of a failed build removes whatever has that name.
* `not_publicationHolds` — another file under the temporary name, gone after the call.
-/

set_option autoImplicit false

namespace DedupCommando

open World

/-! ## What other processes may do -/

/-- Every inode keeps its kind and content. -/
def Filesystem.SameFiles (fs fs' : Filesystem) : Prop :=
  ∀ i n, fs.nodes i = some n → ∃ n', fs'.nodes i = some n' ∧ n'.kind = n.kind ∧
    n'.content = n.content

/-- Names are only added, and a new name is the name of a new file. -/
structure Filesystem.Grows (fs fs' : Filesystem) : Prop where
  names : ∀ p i, fs.entries p = some i → fs'.entries p = some i
  files : fs.SameFiles fs'
  fresh : ∀ p i, fs'.entries p = some i → fs.entries p = some i ∨ fs.nodes i = none

/-- Other processes take free names and nothing else. -/
def Outside.OnlyAdds (o : Outside) : Prop := ∀ n fs, Filesystem.Grows fs (o.others n fs)

namespace Filesystem

theorem SameFiles.refl (fs : Filesystem) : fs.SameFiles fs := fun _ n h => ⟨n, h, rfl, rfl⟩

theorem SameFiles.trans {a b c : Filesystem} (h₁ : a.SameFiles b) (h₂ : b.SameFiles c) :
    a.SameFiles c := by
  intro i n hn
  obtain ⟨n₁, hn₁, hk₁, hc₁⟩ := h₁ i n hn
  obtain ⟨n₂, hn₂, hk₂, hc₂⟩ := h₂ i n₁ hn₁
  exact ⟨n₂, hn₂, hk₂.trans hk₁, hc₂.trans hc₁⟩

/-- Rewriting one inode with its kind and content kept. -/
theorem sameFiles_update {fs fs' : Filesystem} {i : InodeId} {n n' : Node}
    (hn : fs.nodes i = some n) (hnodes : fs'.nodes = Function.update fs.nodes i (some n'))
    (hkind : n'.kind = n.kind) (hcontent : n'.content = n.content) : fs.SameFiles fs' := by
  intro j m hm
  by_cases hij : j = i
  · subst hij
    rw [hn] at hm
    cases hm
    exact ⟨n', by rw [hnodes, Function.update_self], hkind, hcontent⟩
  · exact ⟨m, by rw [hnodes, Function.update_of_ne hij]; exact hm, rfl, rfl⟩

theorem SameFiles.isSome {fs fs' : Filesystem} (h : fs.SameFiles fs') {i : InodeId}
    (hi : (fs.nodes i).isSome = true) : (fs'.nodes i).isSome = true := by
  obtain ⟨n, hn⟩ := Option.isSome_iff_exists.1 hi
  obtain ⟨n', hn', -, -⟩ := h i n hn
  rw [hn']; rfl

theorem SameFiles.none {fs fs' : Filesystem} (h : fs.SameFiles fs') {i : InodeId}
    (hi : fs'.nodes i = none) : fs.nodes i = none := by
  by_contra hne
  have := h.isSome (Option.isSome_iff_ne_none.2 hne)
  rw [hi] at this; cases this

theorem Grows.refl (fs : Filesystem) : fs.Grows fs :=
  ⟨fun _ _ h => h, SameFiles.refl fs, fun _ _ h => .inl h⟩

theorem Grows.trans {a b c : Filesystem} (h₁ : a.Grows b) (h₂ : b.Grows c) : a.Grows c := by
  refine ⟨fun p i h => h₂.names p i (h₁.names p i h), h₁.files.trans h₂.files, fun p i h => ?_⟩
  rcases h₂.fresh p i h with h | h
  · exact h₁.fresh p i h
  · exact .inr (h₁.files.none h)

end Filesystem

open Filesystem

theorem Outside.OnlyAdds.keeps {o : Outside} (h : o.OnlyAdds) : Keeps o Grows :=
  ⟨Grows.refl, fun h₁ h₂ => h₁.trans h₂, h⟩

/-! ## The builds -/

/-- What a build does: it fails having added names at most, or the temporary name was free and now
    holds the replacement — the keeper's own inode or a fresh one. -/
structure Builds (keeper : Path) (build : Build) : Prop where
  ran : ∀ temp w, Ran w (build temp w).2
  failed : ∀ temp w e, w.outside.OnlyAdds → (build temp w).1 = .error e →
    w.fs.Grows (build temp w).2.fs
  built : ∀ temp w, w.outside.OnlyAdds → (build temp w).1 = .ok () →
    w.fs.entries temp = none ∧ ∃ r, (build temp w).2.fs.entries temp = some r ∧
      (w.fs.entries keeper = some r ∨ w.fs.nodes r = none) ∧
      (∀ p i, w.fs.entries p = some i → (build temp w).2.fs.entries p = some i) ∧
      w.fs.SameFiles (build temp w).2.fs

theorem hardlinkBuild_builds (keeper : Path) : Builds keeper (hardlinkBuild keeper) := by
  have hval : ∀ temp w, (hardlinkBuild keeper temp w).2 = (w.hardLink keeper temp).2 ∧
      ((hardlinkBuild keeper temp w).1 = .ok () → (w.hardLink keeper temp).1 = .ok ()) ∧
      ((w.hardLink keeper temp).1 = .ok () → (hardlinkBuild keeper temp w).1 = .ok ()) := by
    intro temp w
    unfold hardlinkBuild
    split
    · rename_i h; rw [h]; exact ⟨rfl, nofun, nofun⟩
    · rename_i h; rw [h]; exact ⟨rfl, fun _ => rfl, fun _ => rfl⟩
  refine ⟨fun temp w => ?_, fun temp w e ho herr => ?_, fun temp w ho hok => ?_⟩
  · rw [(hval temp w).1]; exact perform_ran _ _ w
  · rw [(hval temp w).1]
    rcases ho.keeps.perform (.link keeper temp) (link w.now keeper temp) with
      ⟨e', -, hR⟩ | ⟨a, fs₁, h, -⟩
    · exact hR
    · rw [(hval temp w).2.2 h] at herr; cases herr
  · rw [(hval temp w).1]
    have hlink := (hval temp w).2.1 hok
    rcases ho.keeps.perform (.link keeper temp) (link w.now keeper temp) with
      ⟨e', he, -⟩ | ⟨a, fs₁, -, hR, hop⟩
    · unfold World.hardLink at hlink; rw [he] at hlink; cases hlink
    · obtain ⟨i, n, hi, hn, hfree, -, hentries, hnodes⟩ := link_ok hop
      have htemp : w.fs.entries temp = none := by
        by_contra hne
        obtain ⟨j, hj⟩ := Option.ne_none_iff_exists'.1 hne
        rw [hR.names temp j hj] at hfree; cases hfree
      unfold World.hardLink
      refine ⟨htemp, i, ?_, hR.fresh keeper i hi, fun p j hp => ?_, ?_⟩
      · rw [hentries, Function.update_self]
      · have hne : p ≠ temp := fun h => by rw [h, htemp] at hp; cases hp
        rw [hentries, Function.update_of_ne hne]
        exact hR.names p j hp
      · exact hR.files.trans (sameFiles_update hn hnodes rfl rfl)

/-- A change of an open file's attributes adds no name and touches no content. -/
theorem change_grows {i : InodeId} {f : Node → Node} (hkind : ∀ n, (f n).kind = n.kind)
    (hcontent : ∀ n, (f n).content = n.content) {fs fs' : Filesystem}
    (h : change i f fs = .ok ((), fs')) : fs.Grows fs' := by
  obtain ⟨n, hn, hentries, hnodes⟩ := change_ok h
  refine ⟨fun p j hp => by rw [hentries]; exact hp,
    sameFiles_update hn hnodes (hkind n) (hcontent n), fun p j hp => .inl ?_⟩
  rw [hentries] at hp; exact hp

/-- A call that only adds leaves a world that only grew. -/
theorem perform_grows {w : World} (ho : w.outside.OnlyAdds) {α : Type} (c : Syscall)
    {op : Filesystem → Except IoError (α × Filesystem)}
    (hop : ∀ fs a fs', op fs = .ok (a, fs') → fs.Grows fs') : w.fs.Grows (w.perform c op).2.fs := by
  rcases ho.keeps.perform c op with ⟨e, -, hR⟩ | ⟨a, fs₁, -, hR, h⟩
  · exact hR
  · exact hR.trans (hop fs₁ a _ h)

theorem onlyAdds_of_ran {w w' : World} (h : Ran w w') (ho : w.outside.OnlyAdds) :
    w'.outside.OnlyAdds := by
  rw [h.outside]; exact ho

/-- The pieces of `meta::apply` only grow the world. -/
structure Carries (w w' : World) : Prop where
  ran : Ran w w'
  grows : w.outside.OnlyAdds → w.fs.Grows w'.fs

theorem Carries.refl (w : World) : Carries w w := ⟨Ran.refl w, fun _ => Grows.refl _⟩

theorem Carries.trans {w₁ w₂ w₃ : World} (h₁ : Carries w₁ w₂) (h₂ : Carries w₂ w₃) :
    Carries w₁ w₃ :=
  ⟨h₁.ran.trans h₂.ran, fun ho => (h₁.grows ho).trans (h₂.grows (onlyAdds_of_ran h₁.ran ho))⟩

theorem perform_carries (w : World) {α : Type} (c : Syscall)
    {op : Filesystem → Except IoError (α × Filesystem)}
    (hop : ∀ fs a fs', op fs = .ok (a, fs') → fs.Grows fs') : Carries w (w.perform c op).2 :=
  ⟨perform_ran c op w, fun ho => perform_grows ho c hop⟩

theorem change_carries (w : World) (c : Syscall) (i : InodeId) (f : Node → Node)
    (hkind : ∀ n, (f n).kind = n.kind) (hcontent : ∀ n, (f n).content = n.content) :
    Carries w (w.perform c (change i f)).2 :=
  perform_carries w c fun _ _ _ h => change_grows hkind hcontent h

theorem applyXattrs_carries (path : Path) (file : InodeId) :
    ∀ (xattrs : List (Bytes × Bytes)) (w : World),
      Carries w (applyXattrs path file xattrs w).2
  | [], w => Carries.refl w
  | (name, value) :: xattrs, w => by
    have hset : Carries w (w.setXattr file name value).2 :=
      change_carries w _ _ _ (fun n => by rw [Node.setXattr_eq])
        (fun n => by rw [Node.setXattr_eq])
    unfold applyXattrs
    split
    · rename_i h; rw [h] at hset; exact hset
    · rename_i h
      rw [h] at hset
      exact hset.trans (applyXattrs_carries path file xattrs _)

theorem metaApply_carries (path : Path) (carried : FileMetadata) (w : World) :
    Carries w (metaApply path carried w).2 := by
  have hopen : Carries w (w.openFile path).2 := by
    refine perform_carries w _ fun fs a fs' h => ?_
    rw [(openFile_ok h).1]; exact Grows.refl fs
  unfold metaApply
  split
  · rename_i h; rw [h] at hopen; exact hopen
  rename_i file current w₁ h
  rw [h] at hopen
  split
  · exact hopen
  have howner : Carries w₁ (applyOwner file current carried w₁).2 := by
    unfold applyOwner
    split
    · exact change_carries w₁ _ _ _ (fun _ => rfl) (fun _ => rfl)
    · exact Carries.refl w₁
  split
  · rename_i h₁; rw [h₁] at howner; exact hopen.trans howner
  rename_i w₂ h₁
  rw [h₁] at howner
  have hmode : Carries w₂ (w₂.chmod file (carried.mode % 4096)).2 :=
    change_carries w₂ _ _ _ (fun _ => rfl) (fun _ => rfl)
  split
  · rename_i h₂; rw [h₂] at hmode; exact (hopen.trans howner).trans hmode
  rename_i w₃ h₂
  rw [h₂] at hmode
  have hxattrs := applyXattrs_carries path file carried.xattrs w₃
  split
  · rename_i h₃; rw [h₃] at hxattrs; exact ((hopen.trans howner).trans hmode).trans hxattrs
  rename_i w₄ h₃
  rw [h₃] at hxattrs
  have htimes : Carries w₄ (w₄.utimens file carried.atime carried.mtime).2 :=
    change_carries w₄ _ _ _ (fun _ => rfl) (fun _ => rfl)
  have hall := ((hopen.trans howner).trans hmode).trans hxattrs
  split
  · rename_i h₄; rw [h₄] at htimes; exact hall.trans htimes
  · rename_i h₄; rw [h₄] at htimes; exact hall.trans htimes

theorem clone_grows {now : Timespec} {who : Creator} {inode : Nat} {src dest : Path}
    {fs fs' : Filesystem} (h : clone now who inode src dest fs = .ok ((), fs')) :
    fs.Grows fs' ∧ fs.entries dest = none ∧
      ∃ r, fs'.entries dest = some r ∧ fs.nodes r = none := by
  obtain ⟨i, n, c, -, -, hfree, hfresh, -, -, -, -, hentries, hnodes⟩ := clone_ok h
  refine ⟨⟨fun p j hp => ?_, fun j m hm => ?_, fun p j hp => ?_⟩, hfree, _, ?_, hfresh⟩
  · have hne : p ≠ dest := fun h => by rw [h, hfree] at hp; cases hp
    rw [hentries, Function.update_of_ne hne]; exact hp
  · have hne : j ≠ ⟨i.device, inode⟩ := fun h => by rw [h, hfresh] at hm; cases hm
    exact ⟨m, by rw [hnodes, Function.update_of_ne hne]; exact hm, rfl, rfl⟩
  · by_cases hpd : p = dest
    · subst hpd
      rw [hentries, Function.update_self] at hp
      cases hp
      exact .inr hfresh
    · rw [hentries, Function.update_of_ne hpd] at hp
      exact .inl hp
  · rw [hentries, Function.update_self]

theorem cloneBuild_builds (keeper : Path) (carried : FileMetadata) :
    Builds keeper (cloneBuild keeper carried) := by
  have hcarries : ∀ temp w, Carries w (cloneBuild keeper carried temp w).2 := by
    intro temp w
    have hclone : Carries w (w.cloneFile keeper temp).2 :=
      perform_carries w _ fun fs a fs' h => (clone_grows h).1
    unfold cloneBuild
    split
    · rename_i h; rw [h] at hclone; exact hclone
    · rename_i h; rw [h] at hclone; exact hclone.trans (metaApply_carries _ _ _)
  refine ⟨fun temp w => (hcarries temp w).ran, fun temp w _ ho _ => (hcarries temp w).grows ho,
    fun temp w ho hok => ?_⟩
  have hgrows := (hcarries temp w).grows ho
  unfold cloneBuild at hok hgrows ⊢
  split at hok
  · cases hok
  rename_i w₁ h
  have hran : Ran w (w.cloneFile keeper temp).2 := perform_ran _ _ w
  rcases ho.keeps.perform (.clone keeper temp)
    (clone w.now w.outside.creator (w.outside.inode w.tick) keeper temp) with
    ⟨e, he, -⟩ | ⟨a, fs₁, -, hR, hop⟩
  · unfold World.cloneFile at h; rw [h] at he; cases he
  obtain ⟨-, hfree, r, hr, hfresh⟩ := clone_grows hop
  have hw₁ : (w.perform (.clone keeper temp)
      (clone w.now w.outside.creator (w.outside.inode w.tick) keeper temp)).2 = w₁ := by
    unfold World.cloneFile at h; rw [h]
  rw [hw₁] at hr
  rw [h] at hran hgrows
  simp only at hgrows ⊢
  have happly := (metaApply_carries temp carried w₁).grows (onlyAdds_of_ran hran ho)
  refine ⟨?_, r, happly.names temp r hr, .inr (hR.files.none hfresh), hgrows.names, hgrows.files⟩
  by_contra hne
  obtain ⟨j, hj⟩ := Option.ne_none_iff_exists'.1 hne
  rw [hR.names temp j hj] at hfree; cases hfree

/-! ## What a publication says -/

/-- The inode built under the temporary name `temp`. -/
def builtAt (temp : Path) (build : Build) (w : World) : Option InodeId :=
  match build temp w with
  | (.error _, _) => none
  | (.ok (), w) => w.fs.entries temp

/-- The inode that is to take the target's place. -/
def replacementOf (target : Path) (build : Build) (w : World) : Option InodeId :=
  match target.parent with
  | none => none
  | some parent =>
    match stagingPath parent target.fileName w with
    | (temp, w) => builtAt temp build w

/-- The original is where the publication says, with its content; the target holds the replacement
    exactly when it was published; and every other name that existed is still there. -/
structure PublicationHolds (before after : Filesystem) (target : Path) (orig : InodeId)
    (replacement : Option InodeId) (p : Publication) : Prop where
  original : match p with
    | .published q => after.entries q = some orig ∧ after.entries target ≠ some orig
    | .stranded q _ => after.entries q = some orig ∧ after.entries target ≠ some orig
    | .notMoved _ => after.entries target = some orig
    | .rolledBack _ => after.entries target = some orig
  content : ∀ n, before.nodes orig = some n →
    ∃ n', after.nodes orig = some n' ∧ n'.kind = n.kind ∧ n'.content = n.content
  replaced : (∃ r, replacement = some r ∧ after.entries target = some r) ↔ p.isPublished = true
  others : ∀ q, q ≠ target → ∀ i, before.entries q = some i → after.entries q = some i

/-- No file stands at the temporary name when the call begins, or the cleanup of the failed build
    cannot unlink it. -/
def StagingSafe (target : Path) (build : Build) (w : World) : Prop :=
  ∀ parent, target.parent = some parent →
    let temp := w.stagingAt parent target.fileName
    let built := (build temp (stagingPath parent target.fileName w).2).2
    w.fs.entries temp = none ∨ built.outside.fault built.tick (.unlink temp) ≠ none

/-! ## Nothing moved -/

/-- Every name still names its inode, and every inode keeps its content. -/
structure Filesystem.Kept (before after : Filesystem) : Prop where
  names : ∀ p i, before.entries p = some i → after.entries p = some i
  files : before.SameFiles after

theorem Filesystem.Grows.kept {a b : Filesystem} (h : a.Grows b) : a.Kept b := ⟨h.names, h.files⟩

theorem Filesystem.Kept.grows {a b c : Filesystem} (h₁ : a.Kept b) (h₂ : b.Grows c) : a.Kept c :=
  ⟨fun p i h => h₂.names p i (h₁.names p i h), h₁.files.trans h₂.files⟩

theorem Filesystem.Kept.holds {before after : Filesystem} (h : before.Kept after) {target : Path}
    {orig : InodeId} (horig : before.entries target = some orig) {replacement : Option InodeId}
    (hne : ∀ r, replacement = some r → r ≠ orig) {p : Publication} (hp : p.isPublished = false)
    (hstranded : ∀ q d, p ≠ .stranded q d) :
    PublicationHolds before after target orig replacement p := by
  have htarget := h.names target orig horig
  refine ⟨?_, h.files orig, ⟨?_, fun ht => by rw [hp] at ht; cases ht⟩, fun q _ => h.names q⟩
  · cases p with
    | published q => cases hp
    | stranded q d => exact absurd rfl (hstranded q d)
    | notMoved d => exact htarget
    | rolledBack d => exact htarget
  · rintro ⟨r, hr, hat⟩
    rw [htarget] at hat
    exact absurd (Option.some.inj hat).symm (hne r hr)

/-- The cleanup of a temporary name that was free, or that cannot be unlinked, takes nothing that
    was there. -/
theorem removeFile_kept {before : Filesystem} {temp : Path} {w : World} (ho : w.outside.OnlyAdds)
    (hk : before.Kept w.fs)
    (hsafe : before.entries temp = none ∨ w.outside.fault w.tick (.unlink temp) ≠ none) :
    before.Kept (w.removeFile temp).2.fs := by
  unfold World.removeFile
  rcases w.perform_cases (.unlink temp) (unlink w.now temp) with
    ⟨e, h, -⟩ | ⟨a, fs, h, hfault, hop⟩
  · rw [h]
    exact hk.grows (ho.keeps.enter _)
  · rw [h]
    have hk' := hk.grows (ho.keeps.enter (.unlink temp))
    obtain ⟨i, n, -, hn, hentries, hnodes⟩ := unlink_ok hop
    have hfree : before.entries temp = none := by
      rcases hsafe with hfree | hfaults
      · exact hfree
      · exact absurd hfault hfaults
    refine ⟨fun p j hp => ?_, hk'.files.trans (sameFiles_update hn hnodes rfl rfl)⟩
    have hne : p ≠ temp := fun h => by rw [h, hfree] at hp; cases hp
    show fs.entries p = some j
    rw [hentries, Function.update_of_ne hne]
    exact hk'.names p j hp

/-! ## The original in quarantine -/

/-- Between the evacuation and the end: the original at `q`, and its slot free or taken by a file
    that is neither the original nor the replacement. -/
structure Evacuated (before : Filesystem) (target temp q : Path) (orig r : InodeId)
    (fs : Filesystem) : Prop where
  start : before.entries target = some orig
  tempFree : before.entries temp = none
  quarantineFree : before.entries q = none
  ne : r ≠ orig
  names : ∀ p i, p ≠ target → before.entries p = some i → fs.entries p = some i
  original : fs.entries q = some orig
  slot : fs.entries target ≠ some orig ∧ fs.entries target ≠ some r
  files : before.SameFiles fs
  replacement : (fs.nodes r).isSome = true

theorem Evacuated.grows {before : Filesystem} {target temp q : Path} {orig r : InodeId}
    {fs fs' : Filesystem} (h : Evacuated before target temp q orig r fs) (hg : fs.Grows fs') :
    Evacuated before target temp q orig r fs' := by
  have horig : (fs.nodes orig).isSome = true := fs.live q orig h.original
  refine ⟨h.start, h.tempFree, h.quarantineFree, h.ne,
    fun p i hp hb => hg.names p i (h.names p i hp hb), hg.names q orig h.original,
    ⟨fun ht => ?_, fun ht => ?_⟩, h.files.trans hg.files, hg.files.isSome h.replacement⟩
  · rcases hg.fresh target orig ht with ht | ht
    · exact h.slot.1 ht
    · rw [ht] at horig; cases horig
  · rcases hg.fresh target r ht with ht | ht
    · exact h.slot.2 ht
    · have := h.replacement
      rw [ht] at this; cases this

/-- Removing the temporary name keeps the original where it is. -/
theorem Evacuated.removeFile {before : Filesystem} {target temp q : Path} {orig r : InodeId}
    {w : World} (ho : w.outside.OnlyAdds) (h : Evacuated before target temp q orig r w.fs)
    (hq : w.fs.entries temp = some r) :
    Evacuated before target temp q orig r (w.removeFile temp).2.fs := by
  unfold World.removeFile
  rcases ho.keeps.perform (.unlink temp) (unlink w.now temp) with
    ⟨e, -, hR⟩ | ⟨a, fs₁, -, hR, hop⟩
  · exact h.grows hR
  · have h₁ := h.grows hR
    have hr := hR.names temp r hq
    obtain ⟨i, n, hi, hn, hentries, hnodes⟩ := unlink_ok hop
    have hsame := sameFiles_update hn hnodes rfl rfl
    have hqt : q ≠ temp := fun he => by
      have := h₁.original
      rw [he, hr] at this
      exact h.ne (Option.some.inj this)
    have htt : target ≠ temp := fun he => by
      have := h.start
      rw [he, h.tempFree] at this; cases this
    refine ⟨h₁.start, h₁.tempFree, h₁.quarantineFree, h₁.ne, fun p j hp hb => ?_, ?_, ?_,
      h₁.files.trans hsame, hsame.isSome h₁.replacement⟩
    · have hpt : p ≠ temp := fun he => by rw [he, h.tempFree] at hb; cases hb
      rw [hentries, Function.update_of_ne hpt]
      exact h₁.names p j hp hb
    · rw [hentries, Function.update_of_ne hqt]; exact h₁.original
    · rw [hentries, Function.update_of_ne htt]; exact h₁.slot

theorem removeReplacement_snd (temp : Path) (w : World) :
    (removeReplacement temp w).2 = (w.removeFile temp).2 := by
  unfold removeReplacement
  split
  · rename_i h; rw [h]
  · rename_i h; rw [h]; split <;> rfl

/-- **From the freed slot on**, every end says where the original is. -/
theorem publishEvacuated_holds {before : Filesystem} {target temp q : Path} {orig r : InodeId}
    {w : World} (ho : w.outside.OnlyAdds) (h : Evacuated before target temp q orig r w.fs)
    (htemp : w.fs.entries temp = some r) :
    PublicationHolds before (publishEvacuated temp target q w).2.fs target orig (some r)
      (publishEvacuated temp target q w).1 := by
  unfold publishEvacuated
  have hran : Ran w (w.renameNoreplace temp target).2 := perform_ran _ _ w
  have hpublish := ho.keeps.perform (.rename temp target) (rename w.now temp target)
  split
  · -- published
    rename_i w₁ hw₁
    unfold World.renameNoreplace at hw₁
    rw [hw₁] at hpublish
    rcases hpublish with ⟨e, he, -⟩ | ⟨a, fs₁, -, hR, hop⟩
    · cases he
    have h₁ := h.grows hR
    have hr := hR.names temp r htemp
    obtain ⟨i, n, hi, hn, hfree, hentries, hnodes⟩ := rename_ok hop
    rw [hr] at hi
    cases hi
    have hqt : q ≠ temp := fun he => by
      have := h₁.original
      rw [he, hr] at this
      exact h.ne (Option.some.inj this)
    have hqs : q ≠ target := fun he => by
      have := h₁.original
      rw [he, hfree] at this; cases this
    have htarget : w₁.fs.entries target = some r := by rw [hentries, Function.update_self]
    refine ⟨⟨?_, ?_⟩, (h₁.files.trans (sameFiles_update hn hnodes rfl rfl)) orig,
      ⟨fun _ => rfl, fun _ => ⟨r, rfl, htarget⟩⟩, fun p hp j hb => ?_⟩
    · show w₁.fs.entries q = some orig
      rw [hentries, Function.update_of_ne hqs, Function.update_of_ne hqt]
      exact h₁.original
    · show w₁.fs.entries target ≠ some orig
      rw [htarget]
      exact fun he => h.ne (Option.some.inj he)
    · have hpt : p ≠ temp := fun he => by rw [he, h.tempFree] at hb; cases hb
      show w₁.fs.entries p = some j
      rw [hentries, Function.update_of_ne hp, Function.update_of_ne hpt]
      exact h₁.names p j hp hb
  · rename_i publish w₁ hw₁
    rw [hw₁] at hran
    unfold World.renameNoreplace at hw₁
    rw [hw₁] at hpublish
    rcases hpublish with ⟨e, -, hR⟩ | ⟨a, fs₁, he, -⟩
    swap
    · cases he
    have ho₁ := onlyAdds_of_ran hran ho
    have h₂ := (h.grows hR).removeFile ho₁ (hR.names temp r htemp)
    rw [← removeReplacement_snd] at h₂
    have hran₂ : Ran w₁ (removeReplacement temp w₁).2 := by
      rw [removeReplacement_snd]; exact perform_ran _ _ w₁
    split
    rename_i leftover w₂ hw₂
    rw [hw₂] at h₂ hran₂
    have ho₂ := onlyAdds_of_ran hran₂ ho₁
    have hback := ho₂.keeps.perform (.rename q target) (rename w₂.now q target)
    split
    · -- the original is back
      rename_i w₃ hw₃
      unfold World.renameNoreplace at hw₃
      rw [hw₃] at hback
      rcases hback with ⟨e, he, -⟩ | ⟨a, fs₂, -, hR₂, hop⟩
      · cases he
      have h₃ := h₂.grows hR₂
      obtain ⟨i, n, hi, hn, hfree, hentries, hnodes⟩ := rename_ok hop
      rw [h₃.original] at hi
      cases hi
      have hkept : before.Kept w₃.fs := by
        refine ⟨fun p j hb => ?_, h₃.files.trans (sameFiles_update hn hnodes rfl rfl)⟩
        show w₃.fs.entries p = some j
        by_cases hp : p = target
        · subst hp
          rw [h.start] at hb
          cases hb
          rw [hentries, Function.update_self]
        · have hpq : p ≠ q := fun he => by rw [he, h.quarantineFree] at hb; cases hb
          rw [hentries, Function.update_of_ne hp, Function.update_of_ne hpq]
          exact h₃.names p j hp hb
      refine hkept.holds h.start (fun r' hr' => ?_) rfl (fun _ _ => nofun)
      cases hr'
      exact h.ne
    · -- the original stays in quarantine
      rename_i back w₃ hw₃
      unfold World.renameNoreplace at hw₃
      rw [hw₃] at hback
      rcases hback with ⟨e, -, hR₂⟩ | ⟨a, fs₁, he, -⟩
      swap
      · cases he
      have h₃ := h₂.grows hR₂
      refine ⟨⟨h₃.original, h₃.slot.1⟩, h₃.files orig, ⟨?_, nofun⟩,
        fun p hp j hb => h₃.names p j hp hb⟩
      rintro ⟨r', hr', hat⟩
      cases hr'
      exact absurd hat h₃.slot.2

/-- **Under a safe temporary name**, every end says where the original is. -/
theorem publishAt_holds {keeper : Path} {build : Build} (hb : Builds keeper build)
    {temp target mountpoint dir : Path} {w : World} (ho : w.outside.OnlyAdds) {orig : InodeId}
    (horig : w.fs.entries target = some orig) (hne : w.fs.entries keeper ≠ some orig)
    (hsafe : w.fs.entries temp = none ∨
      (build temp w).2.outside.fault (build temp w).2.tick (.unlink temp) ≠ none) :
    PublicationHolds w.fs (publishAt temp target build mountpoint dir w).2.fs target orig
      (builtAt temp build w) (publishAt temp target build mountpoint dir w).1 := by
  have hran := hb.ran temp w
  have hfailed := hb.failed temp w
  have hbuilt := hb.built temp w ho
  unfold publishAt builtAt
  generalize build temp w = step at hran hfailed hbuilt hsafe
  obtain ⟨result, w₁⟩ := step
  simp only at hran hfailed hbuilt hsafe
  have ho₁ := onlyAdds_of_ran hran ho
  cases result with
  | error e =>
    have hkept := removeFile_kept ho₁ (hfailed e ho rfl).kept hsafe
    exact hkept.holds horig (fun r hr => by cases hr) rfl (fun _ _ => nofun)
  | ok u =>
    obtain ⟨hfree, r, hr, hfrom, hnames, hfiles⟩ := hbuilt rfl
    have hlive : (w.fs.nodes orig).isSome = true := w.fs.live target orig horig
    have hro : r ≠ orig := by
      rintro rfl
      rcases hfrom with hkeeper | hnone
      · exact hne hkeeper
      · rw [hnone] at hlive; cases hlive
    have hkept₁ : w.fs.Kept w₁.fs := ⟨hnames, hfiles⟩
    simp only [hr]
    have hran₁ := deleteToQuarantine_ran target mountpoint dir w₁
    have hmove := deleteToQuarantine_spec target mountpoint dir ho₁.keeps
    generalize deleteToQuarantine target mountpoint dir w₁ = step at hran₁ hmove
    obtain ⟨result, w₂⟩ := step
    simp only at hran₁ hmove
    have ho₂ := onlyAdds_of_ran hran₁ ho₁
    rcases hmove with ⟨e, he, hR⟩ | ⟨q, fs₁, now, hq, hR, hop⟩
    · subst he
      have hkept := removeFile_kept ho₂ (hkept₁.grows hR) (.inl hfree)
      refine hkept.holds horig (fun r' hr' => ?_) rfl (fun _ _ => nofun)
      cases hr'
      exact hro
    · subst hq
      -- the original went to `q`, which was free even before the call
      have hkept₂ := hkept₁.grows hR
      obtain ⟨i, n, hi, hn, hqfree, hentries, hnodes⟩ := rename_ok hop
      rw [hkept₂.names target orig horig] at hi
      cases hi
      have hr₂ : fs₁.entries temp = some r := hR.names temp r hr
      have hqtarget : q ≠ target := fun he => by
        rw [he, hkept₂.names target orig horig] at hqfree; cases hqfree
      have hqtemp : q ≠ temp := fun he => by rw [he, hr₂] at hqfree; cases hqfree
      have httarget : temp ≠ target := fun he => by rw [he, horig] at hfree; cases hfree
      have hsame := sameFiles_update hn hnodes rfl rfl
      have hev : Evacuated w.fs target temp q orig r w₂.fs := by
        refine ⟨horig, hfree, ?_, hro, fun p j hp hb => ?_, ?_, ⟨?_, ?_⟩,
          hkept₂.files.trans hsame, hsame.isSome (fs₁.live temp r hr₂)⟩
        · by_contra hsome
          obtain ⟨j, hj⟩ := Option.ne_none_iff_exists'.1 hsome
          rw [hkept₂.names q j hj] at hqfree; cases hqfree
        · have hpq : p ≠ q := fun he => by
            rw [he] at hb
            rw [hkept₂.names q j hb] at hqfree; cases hqfree
          rw [hentries, Function.update_of_ne hpq, Function.update_of_ne hp]
          exact hkept₂.names p j hb
        · rw [hentries, Function.update_self]
        · rw [hentries, Function.update_of_ne hqtarget.symm, Function.update_self]; exact nofun
        · rw [hentries, Function.update_of_ne hqtarget.symm, Function.update_self]; exact nofun
      have htemp₂ : w₂.fs.entries temp = some r := by
        rw [hentries, Function.update_of_ne hqtemp.symm, Function.update_of_ne httarget]
        exact hr₂
      have hpause := ho₂.keeps.pause
      exact publishEvacuated_holds (w := w₂.pause) ho₂ (hev.grows hpause)
        (hpause.names temp r htemp₂)

/-- A file under the temporary name that the cleanup can unlink is gone after the call. -/
theorem publishAt_takes {keeper : Path} {build : Build} (hb : Builds keeper build) {temp : Path}
    (target mountpoint dir : Path) {w : World} (ho : w.outside.OnlyAdds) {i : InodeId}
    (htaken : w.fs.entries temp = some i)
    (hunlink : (build temp w).2.outside.fault (build temp w).2.tick (.unlink temp) = none) :
    (∃ detail, (publishAt temp target build mountpoint dir w).1 = .notMoved detail) ∧
      (publishAt temp target build mountpoint dir w).2.fs.entries temp = none := by
  have hran := hb.ran temp w
  have hfailed := hb.failed temp w
  have hbuilt := hb.built temp w ho
  unfold publishAt
  generalize build temp w = step at hran hfailed hbuilt hunlink
  obtain ⟨result, w₁⟩ := step
  simp only at hran hfailed hbuilt hunlink
  have ho₁ := onlyAdds_of_ran hran ho
  cases result with
  | ok u =>
    obtain ⟨hfree, -⟩ := hbuilt rfl
    rw [htaken] at hfree; cases hfree
  | error e =>
    refine ⟨⟨_, rfl⟩, ?_⟩
    have htemp : (w₁.enter (.unlink temp)).fs.entries temp = some i :=
      (ho₁.keeps.enter (.unlink temp)).names temp i ((hfailed e ho rfl).names temp i htaken)
    obtain ⟨n, hn⟩ := Option.isSome_iff_exists.1
      ((w₁.enter (.unlink temp)).fs.live temp i htemp)
    show (w₁.removeFile temp).2.fs.entries temp = none
    unfold World.removeFile
    rcases w₁.perform_cases (.unlink temp) (unlink w₁.now temp) with
      ⟨e', -, hfault | ⟨-, hop⟩⟩ | ⟨a, fs, h, -, hop⟩
    · rw [hunlink] at hfault; cases hfault
    · unfold unlink at hop
      rw [lookup_eq_some.2 ⟨htemp, hn⟩] at hop
      cases hop
    · rw [h]
      obtain ⟨j, m, -, -, hentries, -⟩ := unlink_ok hop
      show fs.entries temp = none
      rw [hentries, Function.update_self]

/-- **What a publication says about the original is true exactly when the temporary name is
    safe.** -/
theorem evacuateThenPublish_iff {keeper : Path} {build : Build} (hb : Builds keeper build)
    {target mountpoint dir : Path} {w : World} (ho : w.outside.OnlyAdds) {orig : InodeId}
    (horig : w.fs.entries target = some orig) (hne : w.fs.entries keeper ≠ some orig) :
    PublicationHolds w.fs (evacuateThenPublish target build mountpoint dir w).2.fs target orig
        (replacementOf target build w) (evacuateThenPublish target build mountpoint dir w).1 ↔
      StagingSafe target build w := by
  unfold evacuateThenPublish replacementOf StagingSafe stagingPath
  cases hparent : target.parent with
  | none =>
    refine ⟨fun _ => nofun, fun _ => ?_⟩
    exact (Grows.refl w.fs).kept.holds horig (fun _ h => by cases h) rfl (fun _ _ => nofun)
  | some parent =>
    simp only [Option.some.injEq, forall_eq']
    generalize hw₁ : ({ w with stagingSeq := w.stagingSeq + 1 } : World) = w₁
    have hfs : w₁.fs = w.fs := by rw [← hw₁]
    have ho₁ : w₁.outside.OnlyAdds := by rw [← hw₁]; exact ho
    rw [← hfs] at horig hne ⊢
    refine ⟨fun hholds => ?_, publishAt_holds hb ho₁ horig hne⟩
    -- taken and unlinked, the temporary name refutes `others`, or `original` when it is the target
    by_contra hunsafe
    obtain ⟨htaken, hunlink⟩ := not_or.1 hunsafe
    obtain ⟨i, hi⟩ := Option.ne_none_iff_exists'.1 htaken
    obtain ⟨⟨detail, hnot⟩, hgone⟩ := publishAt_takes hb target mountpoint dir ho₁ hi
      (not_not.1 hunlink)
    by_cases htt : w.stagingAt parent target.fileName = target
    · have horiginal := hholds.original
      rw [hnot] at horiginal
      simp only at horiginal
      rw [htt] at hgone horiginal
      rw [hgone] at horiginal; cases horiginal
    · have := hholds.others _ htt i hi
      rw [hgone] at this; cases this

/-! ## A file under the temporary name -/

/-- Nobody else is there, and no call fails but for the kernel's own reasons. -/
def quietOutside : Outside where
  others := fun _ fs => fs
  fault := fun _ _ => none
  now := fun n => ⟨n, 0⟩
  inode := fun n => 100 + n
  creator := ⟨0, 0, 420, []⟩
  directory := fun _ _ => true
  probe := fun _ _ _ => ⟨false, false, false, false, some 1⟩
  cancelled := fun _ => false
  snapshot := fun _ dataset _ => .ok dataset
  localTime := fun _ => stagingItem
  nanos := fun _ => 0
  pid := 1
  hash := id

def startIn (fs : Filesystem) : World :=
  ⟨quietOutside, fs, 0, [], .applying, 0, 0, 0, 0⟩

/-- A fresh run in which every file has the digest `aa`, and nobody else is there. -/
def quietRun (fs : Filesystem) : World :=
  { startIn fs with outside := { quietOutside with hash := fun _ => [170] } }

/-- `/a`, `/b` and a third file at `extra`. -/
def crowdedDisk (extra : Path) : Filesystem where
  entries p :=
    if p = rootFile 97 isName_a then some ⟨7, 1⟩
    else if p = rootFile 98 isName_b then some ⟨7, 9⟩
    else if p = extra then some ⟨7, 5⟩ else none
  nodes i := if i ∈ [⟨7, 1⟩, ⟨7, 9⟩, ⟨7, 5⟩] then some sampleNode else none
  live p i h := by
    split at h
    · cases h; rfl
    · split at h
      · cases h; rfl
      · split at h
        · cases h; rfl
        · cases h

/-- The temporary name of `/b` in a fresh run. -/
def firstStaging : Path :=
  [.rootDir, .normal (stagingName 1 0 0 (rootFile 98 isName_b).fileName)]

/-- A file that already has the temporary name is unlinked, and the call says that nothing moved. -/
theorem not_publicationHolds :
    let w := startIn (crowdedDisk firstStaging)
    let target := rootFile 98 isName_b
    let build := hardlinkBuild (rootFile 97 isName_a)
    let after := evacuateThenPublish target build [.rootDir] (quarantineDir [.rootDir] stagingItem) w
    w.fs.entries firstStaging = some ⟨7, 5⟩ ∧ after.2.fs.entries firstStaging = none ∧
      ¬ PublicationHolds w.fs after.2.fs target ⟨7, 9⟩ (replacementOf target build w) after.1 := by
  intro w target build after
  have hbefore : w.fs.entries firstStaging = some ⟨7, 5⟩ := by decide
  have hafter : after.2.fs.entries firstStaging = none := by decide
  refine ⟨hbefore, hafter, fun h => ?_⟩
  have := h.others firstStaging (by decide) ⟨7, 5⟩ hbefore
  rw [hafter] at this; cases this

/-- With nothing under the temporary name, read through the characterisation. -/
theorem evacuateThenPublish_iff_sampleDisk :
    let w := startIn sampleDisk
    let target := rootFile 98 isName_b
    let build := hardlinkBuild (rootFile 97 isName_a)
    let after := evacuateThenPublish target build [.rootDir] (quarantineDir [.rootDir] stagingItem) w
    PublicationHolds w.fs after.2.fs target ⟨7, 9⟩ (replacementOf target build w) after.1 ↔
      StagingSafe target build w :=
  evacuateThenPublish_iff (hardlinkBuild_builds _) (fun _ fs => Grows.refl fs) (by decide)
    (by decide)

end DedupCommando
