import DedupCommando.Actions.LedgerSafety
import DedupCommando.Actions.PublishInodes

/-!
# The ledger and the disk

* `SyncedEntry`, `SyncedBut` — a ledger whose entries describe the disk, but for some inodes a
  transition is still owed to.
* `Loose` — an inode that is as recorded but for its `ctime`: what the batch's own calls leave.
* `quarantined_sync`, `settled_sync`, `linked_sync`, `cloned_sync` — each transition succeeds on
  what its action left, and pays what is owed.
* `check_sync` — a ledger that describes the disk refuses nothing.
-/

set_option autoImplicit false

namespace DedupCommando

open World Filesystem

def LiveIdentity.id (l : LiveIdentity) : InodeId := ⟨l.device, l.inode⟩

/-- No reading of the ledger's fails by itself. -/
def Outside.Reads (o : Outside) : Prop := ∀ n p, o.fault n (.identity p) = none

/-- The inode of a record is as recorded, but for its `ctime`, and has the pathnames `paths`. -/
def Loose (fs : Filesystem) (recorded : LiveIdentity) (paths : List Path) : Prop :=
  ∃ n names, fs.Has recorded.id n names ∧ n.kind ≠ .symlink ∧
    n.identity recorded.id = recorded.withCtimeOf (n.identity recorded.id) ∧ ∀ p ∈ paths, p ∈ names

/-- The entry describes the disk. -/
def SyncedEntry (fs : Filesystem) (e : ObjectState) : Prop :=
  ∃ n names, fs.Has e.identity.id n names ∧ n.kind ≠ .symlink ∧
    n.identity e.identity.id = e.identity ∧ ∀ p ∈ e.paths, p ∈ names

/-- The inodes a ledger knows. -/
def RuntimeLedger.ids (ledger : RuntimeLedger) : Set InodeId :=
  {i | ∃ e ∈ ledger.objects, e.identity.id = i}

/-- Every entry is trusted, and describes the disk unless its inode is in `owed`. -/
structure SyncedBut (own owed : Set InodeId) (fs : Filesystem) (ledger : RuntimeLedger) : Prop where
  nodup : (ledger.objects.map fun e => e.identity.id).Nodup
  mem : ∀ e ∈ ledger.objects, e.identity.id ∈ own
  settled : ∀ e ∈ ledger.objects, e.settled = true
  paths : ∀ e ∈ ledger.objects, e.paths.Nodup
  synced : ∀ e ∈ ledger.objects, e.identity.id ∉ owed → SyncedEntry fs e

variable {own owed : Set InodeId} {w : World} {ledger : RuntimeLedger} {object : Nat}
  {entry : ObjectState}

theorem SyncedEntry.untouched {fs fs' : Filesystem} {e : ObjectState} (h : SyncedEntry fs e)
    (hu : Untouched own fs fs') (hmem : e.identity.id ∈ own) : SyncedEntry fs' e := by
  obtain ⟨n, names, hhas, hrest⟩ := h
  exact ⟨n, names, hu _ hmem n names hhas, hrest⟩

theorem Loose.untouched {fs fs' : Filesystem} {recorded : LiveIdentity} {paths : List Path}
    (h : Loose fs recorded paths) (hu : Untouched own fs fs') (hmem : recorded.id ∈ own) :
    Loose fs' recorded paths := by
  obtain ⟨n, names, hhas, hrest⟩ := h
  exact ⟨n, names, hu _ hmem n names hhas, hrest⟩

theorem SyncedEntry.loose {fs : Filesystem} {e : ObjectState} (h : SyncedEntry fs e) :
    Loose fs e.identity e.paths := by
  obtain ⟨n, names, hhas, hkind, hid, hpaths⟩ := h
  exact ⟨n, names, hhas, hkind, by rw [hid]; rfl, hpaths⟩

theorem SyncedBut.ids_subset {fs : Filesystem} (h : SyncedBut own owed fs ledger) :
    ledger.ids ⊆ own := by
  rintro i ⟨e, he, rfl⟩
  exact h.mem e he

/-- What happens to inodes the ledger does not know changes nothing. -/
theorem SyncedBut.untouched_ids {fs fs' : Filesystem} (h : SyncedBut own owed fs ledger)
    (hu : Untouched (ledger.ids \ owed) fs fs') : SyncedBut own owed fs' ledger :=
  ⟨h.nodup, h.mem, h.settled, h.paths, fun e he howed =>
    (h.synced e he howed).untouched hu ⟨⟨e, he, rfl⟩, howed⟩⟩

theorem SyncedBut.untouched {fs fs' : Filesystem} (h : SyncedBut own owed fs ledger)
    (hu : Untouched (own \ owed) fs fs') : SyncedBut own owed fs' ledger :=
  h.untouched_ids (hu.mono (Set.sdiff_subset_sdiff_left h.ids_subset))

theorem SyncedBut.mono {owed' : Set InodeId} {fs : Filesystem} (h : SyncedBut own owed fs ledger)
    (hsub : owed ⊆ owed') : SyncedBut own owed' fs ledger :=
  ⟨h.nodup, h.mem, h.settled, h.paths, fun e he howed => h.synced e he fun hm => howed (hsub hm)⟩

/-- Two entries of one inode are one entry. -/
theorem SyncedBut.index_eq {fs : Filesystem} (h : SyncedBut own owed fs ledger) {i j : Nat}
    {e e' : ObjectState} (hi : ledger.objects[i]? = some e) (hj : ledger.objects[j]? = some e')
    (hid : e.identity.id = e'.identity.id) : i = j := by
  obtain ⟨hlt, -⟩ := List.getElem?_eq_some_iff.1 hi
  refine (List.getElem?_inj (by simpa using hlt) h.nodup).1 ?_
  rw [List.getElem?_map, List.getElem?_map, hi, hj, Option.map_some, Option.map_some, hid]

/-- Adopting a record of the same inode that describes the disk pays what was owed to it. -/
theorem SyncedBut.adopt {fs : Filesystem} (h : SyncedBut own owed fs ledger)
    (hentry : ledger.objects[object]? = some entry) {entry' : ObjectState}
    (hid : entry'.identity.id = entry.identity.id) (hsettled : entry'.settled = true)
    (hnodup : entry'.paths.Nodup) (hsynced : SyncedEntry fs entry') :
    SyncedBut own (owed \ {entry.identity.id}) fs (ledger.adopt object entry') := by
  obtain ⟨hlt, hget⟩ := List.getElem?_eq_some_iff.1 hentry
  have hmem : entry ∈ ledger.objects := List.mem_of_getElem? hentry
  have hmap : (ledger.objects.set object entry').map (fun e => e.identity.id) =
      ledger.objects.map fun e => e.identity.id := by
    rw [List.map_set, hid, ← hget]
    exact List.ext_getElem (by simp) fun n h₁ h₂ => by
      rw [List.getElem_set]
      split
      · rename_i hn; subst hn; simp
      · rfl
  have hcases : ∀ e ∈ ledger.objects.set object entry', e = entry' ∨
      e ∈ ledger.objects ∧ e.identity.id ≠ entry.identity.id := by
    intro e he
    obtain ⟨j, hj, rfl⟩ := List.mem_iff_getElem.1 he
    rw [List.getElem_set]
    split
    · exact .inl rfl
    · rename_i hne
      rw [List.length_set] at hj
      refine .inr ⟨List.getElem_mem hj, fun heq => hne ?_⟩
      exact h.index_eq hentry (List.getElem?_eq_getElem hj) heq.symm
  refine ⟨by rw [RuntimeLedger.adopt, hmap]; exact h.nodup, fun e he => ?_, fun e he => ?_,
    fun e he => ?_, fun e he howed => ?_⟩
  · rcases hcases e he with rfl | ⟨he, -⟩
    · rw [hid]; exact h.mem entry hmem
    · exact h.mem e he
  · rcases hcases e he with rfl | ⟨he, -⟩
    · exact hsettled
    · exact h.settled e he
  · rcases hcases e he with rfl | ⟨he, -⟩
    · exact hnodup
    · exact h.paths e he
  · rcases hcases e he with rfl | ⟨he, hne⟩
    · exact hsynced
    · exact h.synced e he fun hm => howed ⟨hm, hne⟩

/-! ## Readings and transitions -/

theorem liveIdentity_reads (hk : Spares w.outside own) (hreads : w.outside.Reads) {i : InodeId}
    (hi : i ∈ own) {n : Node} {names : Set Path} (hhas : w.fs.Has i n names)
    (hkind : n.kind ≠ .symlink) {p : Path} (hp : p ∈ names) :
    (liveIdentity p w).1 = .ok (n.identity i) := by
  have hthere := hk.enter (.identity p) i hi n names hhas
  unfold liveIdentity World.stat
  rcases w.perform_cases (.identity p) (Filesystem.lstat p) with
    ⟨e, -, hfault | ⟨-, hop⟩⟩ | ⟨a, fs, h, -, hop⟩
  · rw [hreads] at hfault; cases hfault
  · unfold Filesystem.lstat at hop
    rw [hthere.lookup hp] at hop
    cases hop
  · obtain ⟨-, hfound⟩ := Filesystem.lstat_ok hop
    rw [hthere.lookup hp] at hfound
    cases hfound
    rw [h]
    simp only
    rw [if_neg hkind]

/-- A check of a ledger that describes the disk passes. -/
theorem check_sync (hk : Spares w.outside own) (hreads : w.outside.Reads)
    (h : SyncedBut own ∅ w.fs ledger) (hentry : ledger.objects[object]? = some entry) :
    (ledger.check object w).1 = .ok () := by
  have hmem := List.mem_of_getElem? hentry
  obtain ⟨n, names, hhas, hkind, hid, hpaths⟩ := h.synced entry hmem (Set.notMem_empty _)
  have hpass : ∀ (paths : List Path) (w : World), Spares w.outside own → w.outside.Reads →
      w.fs.Has entry.identity.id n names → (∀ p ∈ paths, p ∈ names) →
      (checkPaths entry.identity paths w).1 = .ok () := by
    intro paths
    induction paths with
    | nil => intro w _ _ _ _; rfl
    | cons p paths ih =>
      intro w hk hreads hhas hpaths
      have hlooked := liveIdentity_looked p w
      have hlive := liveIdentity_reads hk hreads (h.mem entry hmem) hhas hkind
        (hpaths p List.mem_cons_self)
      unfold checkPaths
      generalize liveIdentity p w = step at hlooked hlive
      obtain ⟨result, w₁⟩ := step
      simp only at hlooked hlive
      subst hlive
      simp only [hid, driftBetween_eq_none.2]
      exact ih w₁ (hlooked.toTraced.keeps hk) (by rw [hlooked.outside]; exact hreads)
        (hlooked.keeps _ hk _ (h.mem entry hmem) n names hhas)
        fun q hq => hpaths q (List.mem_cons_of_mem p hq)
  unfold RuntimeLedger.check
  rw [hentry]
  simp only
  rw [if_neg (by simp [h.settled entry hmem])]
  exact hpass entry.paths w hk hreads hhas hpaths

theorem mem_replacePath (paths : List Path) (source dest : Path) :
    dest ∈ replacePath paths source dest := by
  unfold replacePath
  split
  · rename_i h
    exact List.mem_set (List.idxOf_lt_length_of_mem h) dest
  · simp

theorem replacePath_nodup {paths : List Path} {source dest : Path} (h : paths.Nodup)
    (hdest : dest ∉ paths) : (replacePath paths source dest).Nodup := by
  unfold replacePath
  split
  · exact h.set hdest
  · exact List.Nodup.append h (List.nodup_singleton dest) (by simpa using hdest)

/-- With each pathname listed once, a replaced one is gone. -/
theorem mem_of_mem_replacePath {paths : List Path} {source dest p : Path} (h : paths.Nodup)
    (hp : p ∈ replacePath paths source dest) : p = dest ∨ p ∈ paths ∧ p ≠ source := by
  unfold replacePath at hp
  split at hp
  · rename_i hmem
    obtain ⟨j, hj, hget⟩ := List.mem_iff_getElem.1 hp
    rw [List.getElem_set] at hget
    split at hget
    · exact .inl hget.symm
    · rename_i hne
      rw [List.length_set] at hj
      refine .inr ⟨hget ▸ List.getElem_mem hj, fun hps => hne ?_⟩
      rw [← hget] at hps
      rw [← hps, h.idxOf_getElem]
  · rename_i hmem
    rcases List.mem_append.1 hp with hp | hp
    · exact .inr ⟨hp, fun hps => hmem (hps ▸ hp)⟩
    · exact .inl (List.mem_singleton.1 hp)

/-- A move into quarantine is booked. -/
theorem quarantined_sync (hk : Spares w.outside own) (hreads : w.outside.Reads)
    (h : SyncedBut own owed w.fs ledger) (hentry : ledger.objects[object]? = some entry)
    {source dest : Path} (hfresh : dest ∉ entry.paths)
    (hloose : Loose w.fs entry.identity (replacePath entry.paths source dest)) :
    ∃ entry', (ledger.quarantined object source dest w).1 = .ok (ledger.adopt object entry') ∧
      entry'.identity = entry.identity.withCtimeOf entry'.identity ∧
      SyncedBut own (owed \ {entry.identity.id}) (ledger.quarantined object source dest w).2.fs
        (ledger.adopt object entry') := by
  have hmem := List.mem_of_getElem? hentry
  obtain ⟨n, names, hhas, hkind, hid, hpaths⟩ := hloose
  have hlooked := liveIdentity_looked dest w
  have hlive := liveIdentity_reads hk hreads (h.mem entry hmem) hhas hkind
    (hpaths dest (mem_replacePath _ _ _))
  have hu := hlooked.keeps _ hk
  unfold RuntimeLedger.quarantined
  rw [hentry]
  simp only
  generalize liveIdentity dest w = step at hlive hu
  obtain ⟨result, w₁⟩ := step
  simp only at hlive hu
  subst hlive
  simp only [driftBetween_eq_none.2 hid.symm]
  refine ⟨_, rfl, hid, (h.untouched (hu.mono Set.sdiff_subset)).adopt hentry (by rw [hid]; rfl)
    (h.settled entry hmem) (replacePath_nodup (h.paths entry hmem) hfresh)
    ⟨n, names, ?_, hkind, ?_, hpaths⟩⟩
  · exact hu _ (h.mem entry hmem) n names hhas
  · rfl

/-- An allocation that was touched and left as it was is booked. -/
theorem settled_sync (hk : Spares w.outside own) (hreads : w.outside.Reads)
    (h : SyncedBut own owed w.fs ledger) (hentry : ledger.objects[object]? = some entry)
    (hloose : Loose w.fs entry.identity entry.paths) {path : Path} (hpath : path ∈ entry.paths) :
    ∃ entry', (ledger.settled object path w).1 = .ok (ledger.adopt object entry') ∧
      SyncedBut own (owed \ {entry.identity.id}) (ledger.settled object path w).2.fs
        (ledger.adopt object entry') := by
  have hmem := List.mem_of_getElem? hentry
  obtain ⟨n, names, hhas, hkind, hid, hpaths⟩ := hloose
  have hlooked := liveIdentity_looked path w
  have hlive := liveIdentity_reads hk hreads (h.mem entry hmem) hhas hkind (hpaths path hpath)
  have hu := hlooked.keeps _ hk
  unfold RuntimeLedger.settled
  rw [hentry]
  simp only
  generalize liveIdentity path w = step at hlive hu
  obtain ⟨result, w₁⟩ := step
  simp only at hlive hu
  subst hlive
  simp only [driftBetween_eq_none.2 hid.symm]
  exact ⟨_, rfl, (h.untouched (hu.mono Set.sdiff_subset)).adopt hentry (by rw [hid]; rfl)
    (h.settled entry hmem) (h.paths entry hmem)
    ⟨n, names, hu _ (h.mem entry hmem) n names hhas, hkind, rfl, hpaths⟩⟩

/-- A published link is booked. -/
theorem linked_sync (hk : Spares w.outside own) (hreads : w.outside.Reads)
    (h : SyncedBut own owed w.fs ledger) (hentry : ledger.objects[object]? = some entry)
    {n : Node} {names : Set Path} (hhas : w.fs.Has entry.identity.id n names)
    (hkind : n.kind ≠ .symlink)
    (hid : n.identity entry.identity.id =
      { entry.identity.withCtimeOf (n.identity entry.identity.id) with
        nlink := saturatingSucc entry.identity.nlink })
    {keeper published : Path} (hkeeper : keeper ∈ entry.paths) (hfresh : published ∉ entry.paths)
    (hpaths : ∀ p ∈ entry.paths ++ [published], p ∈ names) :
    ∃ entry', (ledger.linked object keeper published w).1 = .ok (ledger.adopt object entry') ∧
      SyncedBut own (owed \ {entry.identity.id}) (ledger.linked object keeper published w).2.fs
        (ledger.adopt object entry') := by
  have hmem := List.mem_of_getElem? hentry
  have hlooked := liveIdentity_looked keeper w
  have hlive := liveIdentity_reads hk hreads (h.mem entry hmem) hhas hkind
    (hpaths keeper (List.mem_append_left _ hkeeper))
  have hu := hlooked.keeps _ hk
  unfold RuntimeLedger.linked
  rw [hentry]
  simp only
  generalize liveIdentity keeper w = step at hlooked hlive hu
  obtain ⟨result, w₁⟩ := step
  simp only at hlooked hlive hu
  subst hlive
  simp only [driftBetween_eq_none.2 hid.symm]
  have hk₁ := hlooked.toTraced.keeps hk
  have hreads₁ : w₁.outside.Reads := by rw [hlooked.outside]; exact hreads
  have hhas₁ := hu _ (h.mem entry hmem) n names hhas
  have hlanded := liveIdentity_reads hk₁ hreads₁ (h.mem entry hmem) hhas₁ hkind
    (hpaths published (by simp))
  have hu₁ := (liveIdentity_looked published w₁).keeps _ hk₁
  generalize liveIdentity published w₁ = step at hlanded hu₁
  obtain ⟨result, w₂⟩ := step
  simp only at hlanded hu₁
  subst hlanded
  simp only [driftBetween_eq_none.2]
  exact ⟨_, rfl, (h.untouched ((hu.trans hu₁).mono Set.sdiff_subset)).adopt hentry
    (by rw [hid]; rfl) (h.settled entry hmem)
    (List.Nodup.append (h.paths entry hmem) (List.nodup_singleton published) (by simpa using hfresh))
    ⟨n, names, hu₁ _ (h.mem entry hmem) n names hhas₁, hkind, rfl, hpaths⟩⟩

/-- A published clone is booked: a new entry beside those of the keeper and of the original. -/
theorem cloned_sync (hk : Spares w.outside own) (hreads : w.outside.Reads)
    (h : SyncedBut own ∅ w.fs ledger) {target : Nat} {original : ObjectState}
    (hentry : ledger.objects[object]? = some entry)
    (horiginal : ledger.objects[target]? = some original) {c : InodeId} (hc : c ∈ own)
    (hfresh : ∀ e ∈ ledger.objects, e.identity.id ≠ c) {n : Node} {names : Set Path}
    (hhas : w.fs.Has c n names) (hkind : n.kind ≠ .symlink) (hdevice : c.device = original.identity.device)
    (hsize : n.size = original.identity.size) (hmtime : n.mtime.sec = original.identity.mtime ∧
      n.mtime.nsec = original.identity.mtimeNsec) (hnlink : n.nlink = 1)
    {keeper published : Path} (hkeeper : keeper ∈ entry.paths) (hpublished : published ∈ names) :
    ∃ ledger', (ledger.cloned object target keeper published w).1 = .ok ledger' ∧
      SyncedBut own ∅ (ledger.cloned object target keeper published w).2.fs ledger' := by
  have hmem := List.mem_of_getElem? hentry
  obtain ⟨nk, Nk, hK, hkindK, hidK, hpathsK⟩ := h.synced entry hmem (Set.notMem_empty _)
  have hlooked := liveIdentity_looked keeper w
  have hlive := liveIdentity_reads hk hreads (h.mem entry hmem) hK hkindK (hpathsK keeper hkeeper)
  have hu := hlooked.keeps _ hk
  unfold RuntimeLedger.cloned
  rw [hentry, horiginal]
  simp only
  generalize liveIdentity keeper w = step at hlooked hlive hu
  obtain ⟨result, w₁⟩ := step
  simp only at hlooked hlive hu
  subst hlive
  simp only [driftBetween_eq_none.2 hidK.symm]
  have hk₁ := hlooked.toTraced.keeps hk
  have hreads₁ : w₁.outside.Reads := by rw [hlooked.outside]; exact hreads
  have hhas₁ := hu _ hc n names hhas
  have hlanded := liveIdentity_reads hk₁ hreads₁ hc hhas₁ hkind hpublished
  have hu₁ := (liveIdentity_looked published w₁).keeps _ hk₁
  generalize liveIdentity published w₁ = step at hlanded hu₁
  obtain ⟨result, w₂⟩ := step
  simp only at hlanded hu₁
  subst hlanded
  have hne₁ : (c.device, c.inode) ≠ (entry.identity.device, entry.identity.inode) := fun heq => by
    simp only [Prod.mk.injEq] at heq
    exact hfresh entry hmem (by unfold LiveIdentity.id; rw [← heq.1, ← heq.2])
  have hne₂ : (c.device, c.inode) ≠ (original.identity.device, original.identity.inode) :=
    fun heq => by
      simp only [Prod.mk.injEq] at heq
      exact hfresh original (List.mem_of_getElem? horiginal)
        (by unfold LiveIdentity.id; rw [← heq.1, ← heq.2])
  have hfault : RuntimeLedger.cloneFault entry.identity original.identity (n.identity c) = none := by
    unfold RuntimeLedger.cloneFault
    rw [firstDisagreement_eq_none]
    intro f hf
    simp only [List.mem_cons, List.not_mem_nil, or_false] at hf
    rcases hf with rfl | rfl | rfl | rfl | rfl | rfl
    · exact decide_eq_true (not_or.2 ⟨hne₁, hne₂⟩)
    · exact decide_eq_true hdevice
    · exact decide_eq_true hsize
    · exact decide_eq_true hmtime.1
    · exact decide_eq_true hmtime.2
    · exact decide_eq_true hnlink
  simp only [hfault]
  have hsynced := h.untouched ((hu.trans hu₁).mono Set.sdiff_subset)
  have hcases : ∀ e ∈ ledger.objects ++ [⟨n.identity c, [published], true⟩],
      e ∈ ledger.objects ∨ e = ⟨n.identity c, [published], true⟩ := by
    intro e he
    simpa using he
  refine ⟨_, rfl, ?_, fun e he => ?_, fun e he => ?_, fun e he => ?_, fun e he howed => ?_⟩
  · rw [List.map_append]
    refine List.Nodup.append hsynced.nodup (by simp) fun i hi hc' => ?_
    obtain ⟨e, he, rfl⟩ := List.mem_map.1 hi
    simp only [List.map_cons, List.map_nil, List.mem_singleton] at hc'
    exact hfresh e he hc'
  · rcases hcases e he with he | rfl
    · exact hsynced.mem e he
    · exact hc
  · rcases hcases e he with he | rfl
    · exact hsynced.settled e he
    · rfl
  · rcases hcases e he with he | rfl
    · exact hsynced.paths e he
    · exact List.nodup_singleton published
  · rcases hcases e he with he | rfl
    · exact hsynced.synced e he howed
    · exact ⟨n, names, hu₁ _ hc n names hhas₁, hkind, rfl, by simpa using hpublished⟩

end DedupCommando
