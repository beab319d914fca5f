import DedupCommando.Kernel.World

/-!
# One inode at a time

* `Filesystem.Has` — an inode's node and the set of its pathnames.
* `Untouched` — the inodes of a set keep both.
* `rename_has`, `link_has`, `unlink_has`, `clone_new`, `change_has` — what each operation does to
  the inode it is about; every other inode is untouched.
-/

set_option autoImplicit false

namespace DedupCommando

namespace Filesystem

/-- Inode `i` holds `n` and has exactly the pathnames `names`. -/
structure Has (fs : Filesystem) (i : InodeId) (n : Node) (names : Set Path) : Prop where
  node : fs.nodes i = some n
  names : ∀ p, fs.entries p = some i ↔ p ∈ names

/-- The inodes of `own` keep their nodes and their pathnames. -/
def Untouched (own : Set InodeId) (fs fs' : Filesystem) : Prop :=
  ∀ i ∈ own, ∀ n names, fs.Has i n names → fs'.Has i n names

theorem Untouched.refl (own : Set InodeId) (fs : Filesystem) : Untouched own fs fs :=
  fun _ _ _ _ h => h

theorem Untouched.trans {own : Set InodeId} {a b c : Filesystem} (h₁ : Untouched own a b)
    (h₂ : Untouched own b c) : Untouched own a c :=
  fun i hi n names h => h₂ i hi n names (h₁ i hi n names h)

theorem Untouched.mono {own own' : Set InodeId} {a b : Filesystem} (h : Untouched own a b)
    (hsub : own' ⊆ own) : Untouched own' a b := fun i hi => h i (hsub hi)

theorem Has.lookup {fs : Filesystem} {i : InodeId} {n : Node} {names : Set Path}
    (h : fs.Has i n names) {p : Path} (hp : p ∈ names) : fs.lookup p = some (i, n) :=
  lookup_eq_some.2 ⟨(h.names p).2 hp, h.node⟩

/-- A pathname of another inode is none of this one's. -/
theorem Has.ne {fs : Filesystem} {i j : InodeId} {n : Node} {names : Set Path}
    (h : fs.Has i n names) {p : Path} (hp : fs.entries p = some j) (hij : i ≠ j) : p ∉ names := by
  intro hmem
  rw [(h.names p).2 hmem] at hp
  exact hij (Option.some.inj hp)

theorem Has.free {fs : Filesystem} {i : InodeId} {n : Node} {names : Set Path}
    (h : fs.Has i n names) {p : Path} (hp : fs.entries p = none) : p ∉ names := by
  intro hmem
  rw [(h.names p).2 hmem] at hp; cases hp

/-- A node and names of two inodes that did not change. -/
theorem Has.of_eq {fs fs' : Filesystem} {i : InodeId} {n : Node} {names : Set Path}
    (h : fs.Has i n names) (hnode : fs'.nodes i = fs.nodes i)
    (hnames : ∀ p, fs'.entries p = some i ↔ fs.entries p = some i) : fs'.Has i n names :=
  ⟨hnode.trans h.node, fun p => (hnames p).trans (h.names p)⟩

/-! ## The operations -/

theorem rename_has {now : Timespec} {src dest : Path} {fs fs' : Filesystem} {i : InodeId}
    {n : Node} {names : Set Path} (h : rename now src dest fs = .ok ((), fs'))
    (hhas : fs.Has i n names) (hsrc : src ∈ names) :
    dest ∉ names ∧ fs'.Has i { n with ctime := now } (insert dest (names \ {src})) ∧
      Untouched {j | j ≠ i} fs fs' := by
  obtain ⟨i', n', hi, hn, hfree, hentries, hnodes⟩ := rename_ok h
  rw [(hhas.names src).2 hsrc] at hi
  cases hi
  rw [hhas.node] at hn
  cases hn
  have hne : dest ≠ src := fun he => by rw [he, (hhas.names src).2 hsrc] at hfree; cases hfree
  refine ⟨hhas.free hfree, ⟨by rw [hnodes, Function.update_self], fun p => ?_⟩, ?_⟩
  · rw [hentries]
    by_cases hd : p = dest
    · subst hd; simp
    · rw [Function.update_of_ne hd]
      by_cases hs : p = src
      · subst hs; simp [hne.symm]
      · rw [Function.update_of_ne hs, hhas.names p]
        simp [hd, hs]
  · intro j hj m M hm
    refine hm.of_eq (by rw [hnodes, Function.update_of_ne hj]) fun p => ?_
    rw [hentries]
    by_cases hd : p = dest
    · subst hd
      rw [Function.update_self, hfree]
      simp [Ne.symm hj]
    · rw [Function.update_of_ne hd]
      by_cases hs : p = src
      · subst hs
        rw [Function.update_self, (hhas.names p).2 hsrc]
        simp [Ne.symm hj]
      · rw [Function.update_of_ne hs]

theorem link_has {now : Timespec} {src dest : Path} {fs fs' : Filesystem} {i : InodeId}
    {n : Node} {names : Set Path} (h : link now src dest fs = .ok ((), fs'))
    (hhas : fs.Has i n names) (hsrc : src ∈ names) :
    fs.entries dest = none ∧ n.nlink + 1 < 2 ^ 64 ∧
      fs'.Has i { n with nlink := n.nlink + 1, ctime := now } (insert dest names) ∧
      Untouched {j | j ≠ i} fs fs' := by
  obtain ⟨i', n', hi, hn, hfree, hroom, hentries, hnodes⟩ := link_ok h
  rw [(hhas.names src).2 hsrc] at hi
  cases hi
  rw [hhas.node] at hn
  cases hn
  refine ⟨hfree, hroom, ⟨by rw [hnodes, Function.update_self], fun p => ?_⟩, ?_⟩
  · rw [hentries]
    by_cases hd : p = dest
    · subst hd; simp
    · rw [Function.update_of_ne hd, hhas.names p]
      simp [hd]
  · intro j hj m M hm
    refine hm.of_eq (by rw [hnodes, Function.update_of_ne hj]) fun p => ?_
    rw [hentries]
    by_cases hd : p = dest
    · subst hd
      rw [Function.update_self, hfree]
      simp [Ne.symm hj]
    · rw [Function.update_of_ne hd]

theorem unlink_has {now : Timespec} {src : Path} {fs fs' : Filesystem} {i : InodeId}
    (h : unlink now src fs = .ok ((), fs')) (hi : fs.entries src = some i) :
    (∀ n names, fs.Has i n names →
      fs'.Has i { n with nlink := n.nlink - 1, ctime := now } (names \ {src})) ∧
      Untouched {j | j ≠ i} fs fs' := by
  obtain ⟨i', n', hi', hn, hentries, hnodes⟩ := unlink_ok h
  rw [hi] at hi'
  cases hi'
  refine ⟨fun n names hhas => ⟨?_, fun p => ?_⟩, ?_⟩
  · rw [hhas.node] at hn
    cases hn
    rw [hnodes, Function.update_self]
  · rw [hentries]
    by_cases hs : p = src
    · subst hs; simp
    · rw [Function.update_of_ne hs, hhas.names p]
      simp [hs]
  · intro j hj m M hm
    refine hm.of_eq (by rw [hnodes, Function.update_of_ne hj]) fun p => ?_
    rw [hentries]
    by_cases hs : p = src
    · subst hs
      rw [Function.update_self, hi]
      simp [Ne.symm hj]
    · rw [Function.update_of_ne hs]

/-- A clone is a fresh inode with one pathname, and no inode there was is touched. -/
theorem clone_new {now : Timespec} {who : Creator} {inode : Nat} {src dest : Path}
    {fs fs' : Filesystem} (h : clone now who inode src dest fs = .ok ((), fs')) :
    ∃ i n c, fs.entries src = some i ∧ fs.nodes i = some n ∧ fs.nodes ⟨i.device, inode⟩ = none ∧
      fs.entries dest = none ∧ c.kind = .regular ∧ c.content = n.content ∧ c.nlink = 1 ∧
      c.xattrs = who.xattrs ∧ fs'.Has ⟨i.device, inode⟩ c {dest} ∧ Untouched Set.univ fs fs' := by
  obtain ⟨i, n, c, hi, hn, hfree, hfresh, hkind, hcontent, hnlink, hxattrs, hentries, hnodes⟩ :=
    clone_ok h
  have hnew : ∀ p, fs.entries p ≠ some ⟨i.device, inode⟩ := fun p hp => by
    have := fs.live p _ hp
    rw [hfresh] at this; cases this
  refine ⟨i, n, c, hi, hn, hfresh, hfree, hkind, hcontent, hnlink, hxattrs, ⟨?_, fun p => ?_⟩, ?_⟩
  · rw [hnodes, Function.update_self]
  · rw [hentries]
    by_cases hd : p = dest
    · subst hd; simp
    · rw [Function.update_of_ne hd]
      simp [hd, hnew p]
  · intro j _ m M hm
    have hj : j ≠ ⟨i.device, inode⟩ := fun he => by
      rw [he] at hm
      rw [hm.node] at hfresh; cases hfresh
    refine hm.of_eq (by rw [hnodes, Function.update_of_ne hj]) fun p => ?_
    rw [hentries]
    by_cases hd : p = dest
    · subst hd
      rw [Function.update_self, hfree]
      simp [Ne.symm hj]
    · rw [Function.update_of_ne hd]

theorem clone_has {now : Timespec} {who : Creator} {inode : Nat} {src dest : Path}
    {fs fs' : Filesystem} {i : InodeId} {n : Node} {names : Set Path}
    (h : clone now who inode src dest fs = .ok ((), fs')) (hhas : fs.Has i n names)
    (hsrc : src ∈ names) :
    fs.nodes ⟨i.device, inode⟩ = none ∧ fs.entries dest = none ∧
      (∃ c, c.kind = .regular ∧ c.content = n.content ∧ c.nlink = 1 ∧
        fs'.Has ⟨i.device, inode⟩ c {dest}) ∧ Untouched Set.univ fs fs' := by
  obtain ⟨i', n', c, hi, hn, hfresh, hfree, hkind, hcontent, hnlink, -, hC, hrest⟩ := clone_new h
  rw [(hhas.names src).2 hsrc] at hi
  cases hi
  rw [hhas.node] at hn
  cases hn
  exact ⟨hfresh, hfree, ⟨c, hkind, hcontent, hnlink, hC⟩, hrest⟩

theorem change_has {i : InodeId} {f : Node → Node} {fs fs' : Filesystem}
    (h : change i f fs = .ok ((), fs')) {n : Node} {names : Set Path} (hhas : fs.Has i n names) :
    fs'.Has i (f n) names ∧ Untouched {j | j ≠ i} fs fs' := by
  obtain ⟨n', hn, hentries, hnodes⟩ := change_ok h
  rw [hhas.node] at hn
  cases hn
  refine ⟨⟨by rw [hnodes, Function.update_self], fun p => by rw [hentries]; exact hhas.names p⟩, ?_⟩
  intro j hj m M hm
  exact hm.of_eq (by rw [hnodes, Function.update_of_ne hj]) fun p => by rw [hentries]

end Filesystem

end DedupCommando
