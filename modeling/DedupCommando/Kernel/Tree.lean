import Mathlib
import DedupCommando.Kernel.Filesystem
import DedupCommando.Lib.OrdMap

/-!
# Directories, links and the way a pathname takes

The tree of names over the inodes, for the parts of the program that depend on where a directory
lies and on what a symbolic link leads to.

* `Object`, `Tree` — an inode's object; a directory knows its names and the directory above it.
* `walk` — the kernel's walk over the components of a pathname: `..` goes up, a symbolic link on
  the way is followed, forty of them at most.
* `lstat`, `statDot`, `openCreate`, `renameat2` — the calls by pathname.
* `descend` — the walk that meets no link; `walk_descend` says the two agree.
* `entry_move`, `isDirectory_move` — what one rename changes.
-/

set_option autoImplicit false

namespace DedupCommando

/-- Inodes in the order of device and number. -/
def InodeId.key (i : InodeId) : ℕ ×ₗ ℕ := toLex (i.device, i.inode)

theorem InodeId.key_injective : Function.Injective InodeId.key := by
  intro a b h
  have h' := toLex.injective h
  cases a
  cases b
  simpa using h'

instance : LinearOrder InodeId := LinearOrder.lift' InodeId.key InodeId.key_injective

abbrev Errno := Nat

namespace Errno

abbrev ENOENT : Errno := 2
abbrev EWOULDBLOCK : Errno := 11
abbrev EBUSY : Errno := 16
abbrev EEXIST : Errno := 17
abbrev EXDEV : Errno := 18
abbrev ENOTDIR : Errno := 20
abbrev EISDIR : Errno := 21
abbrev EINVAL : Errno := 22
abbrev ELOOP : Errno := 40

end Errno

open Errno

/-- What an inode is. -/
inductive Object where
  | regular (content : Bytes)
  | directory (up : InodeId) (entries : OrdMap Name InodeId)
  | symlink (target : Path)
  | special

structure Tree where
  root : InodeId
  objects : OrdMap InodeId Object

namespace Tree

def object (t : Tree) (i : InodeId) : Option Object := t.objects.get? i

def entry (t : Tree) (d : InodeId) (n : Name) : Option InodeId :=
  match t.object d with
  | some (.directory _ entries) => entries.get? n
  | _ => none

def isDirectory (t : Tree) (i : InodeId) : Bool :=
  match t.object i with
  | some (.directory _ _) => true
  | _ => false

def isRegular (t : Tree) (i : InodeId) : Bool :=
  match t.object i with
  | some (.regular _) => true
  | _ => false

/-! ## Walking -/

/-- What one component leads to from the directory `d`. -/
inductive Found where
  | directory (i : InodeId)
  | symlink (target : Path)
  | failed (errno : Errno)

def look (t : Tree) (d : InodeId) : Component → Found
  | .rootDir => .directory t.root
  | .curDir => .directory d
  | .parentDir =>
    match t.object d with
    | some (.directory up _) => .directory up
    | _ => .failed ENOTDIR
  | .normal n =>
    match t.entry d n with
    | none => .failed ENOENT
    | some i =>
      match t.object i with
      | some (.directory _ _) => .directory i
      | some (.symlink target) => .symlink target
      | _ => .failed ENOTDIR

/-- The walk to a directory; `follow` goes on where a link leads. -/
def walkWith (t : Tree) (follow : InodeId → Path → Except Errno InodeId) :
    InodeId → Path → Except Errno InodeId
  | d, [] => .ok d
  | d, c :: rest =>
    match t.look d c with
    | .directory i => walkWith t follow i rest
    | .symlink target => follow d (target ++ rest)
    | .failed e => .error e

/-- The walk with `links` symbolic links left to follow. -/
def walk (t : Tree) : Nat → InodeId → Path → Except Errno InodeId
  | 0 => t.walkWith fun _ _ => .error ELOOP
  | links + 1 => t.walkWith (t.walk links)

def maxSymlinks : Nat := 40

/-- The directory the last name of `p` is looked up in. -/
def wayTo (t : Tree) (cwd : InodeId) (p : Path) : Except Errno InodeId :=
  t.walk maxSymlinks cwd p.dropLast

/-! ## Calls by pathname -/

/-- `lstat`: what `p` names, without following a link it names itself. -/
def lstat (t : Tree) (cwd : InodeId) (p : Path) : Except Errno InodeId :=
  match p.fileName with
  | some n =>
    match t.wayTo cwd p with
    | .error e => .error e
    | .ok d =>
      match t.entry d n with
      | none => .error ENOENT
      | some i => .ok i
  | none => if p = [] then .error ENOENT else t.walk maxSymlinks cwd p

/-- `lstat` of `p/.`: the directory `p` leads to. -/
def statDot (t : Tree) (cwd : InodeId) (p : Path) : Except Errno InodeId :=
  t.walk maxSymlinks cwd p

/-- The entries of a directory, replaced. -/
def setEntries (t : Tree) (d : InodeId) (f : OrdMap Name InodeId → OrdMap Name InodeId) : Tree :=
  match t.object d with
  | some (.directory up entries) => { t with objects := t.objects.insert d (.directory up (f entries)) }
  | _ => t

/-- The directory above `i`, when `i` is one. -/
def setUp (t : Tree) (i up : InodeId) : Tree :=
  match t.object i with
  | some (.directory _ entries) => { t with objects := t.objects.insert i (.directory up entries) }
  | _ => t

/-- A fresh regular file, before it has a name. -/
def withFile (t : Tree) (fresh : InodeId) : Tree :=
  { t with objects := t.objects.insert fresh (.regular []) }

/-- `open` with `O_CREAT | O_NOFOLLOW`: what the name holds, or a new regular file `fresh`. -/
def openCreate (t : Tree) (cwd : InodeId) (p : Path) (fresh : InodeId) :
    Except Errno (InodeId × Tree) :=
  match p.fileName with
  | none => .error EISDIR
  | some n =>
    match t.wayTo cwd p with
    | .error e => .error e
    | .ok d =>
      match t.entry d n with
      | some i =>
        match t.object i with
        | some (.directory _ _) => .error EISDIR
        | some (.symlink _) => .error ELOOP
        | _ => .ok (i, t)
      | none =>
        if !t.isDirectory d then .error ENOENT
        else .ok (fresh, (t.withFile fresh).setEntries d fun entries => entries.insert n fresh)

/-- Whether `i` is `d` or lies above it, `fuel` steps up at most. -/
def isAbove (t : Tree) (i : InodeId) : Nat → InodeId → Bool
  | 0, d => decide (d = i)
  | fuel + 1, d =>
    decide (d = i) ||
      match t.object d with
      | some (.directory up _) => t.isAbove i fuel up
      | _ => false

/-- The name `n` of `d` becomes the name `n'` of `d'`. -/
def move (t : Tree) (d : InodeId) (n : Name) (d' : InodeId) (n' : Name) (i : InodeId) : Tree :=
  ((t.setEntries d fun entries => entries.erase n).setEntries d'
    fun entries => entries.insert n' i).setUp i d'

/-- `renameat2` with `RENAME_NOREPLACE`. -/
def renameat2 (t : Tree) (cwd : InodeId) (src dest : Path) : Except Errno Tree :=
  match src.fileName, dest.fileName with
  | some n, some n' =>
    match t.wayTo cwd src with
    | .error e => .error e
    | .ok d =>
      match t.wayTo cwd dest with
      | .error e => .error e
      | .ok d' =>
        if d.device ≠ d'.device then .error EXDEV
        else if !t.isDirectory d' then .error ENOENT
        else match t.entry d n with
          | none => .error ENOENT
          | some i =>
            if (t.entry d' n').isSome then .error EEXIST
            else if t.isDirectory i && t.isAbove i t.objects.entries.length d' then .error EINVAL
            else .ok (t.move d n d' n' i)
  | _, _ => .error EBUSY

/-! ## The walk that meets no link -/

def descend (t : Tree) : InodeId → List Name → Option InodeId
  | d, [] => some d
  | d, n :: names =>
    match t.entry d n with
    | some i => if t.isDirectory i then t.descend i names else none
    | none => none

/-- An absolute pathname of names only. -/
def absolute (names : List Name) : Path := .rootDir :: names.map .normal

theorem look_of_directory {t : Tree} {d i : InodeId} {n : Name} (h : t.entry d n = some i)
    (hi : t.isDirectory i = true) : t.look d (.normal n) = .directory i := by
  unfold isDirectory at hi
  simp only [look, h]
  split at hi
  · rename_i heq
    rw [heq]
  · cases hi

theorem walkWith_descend {t : Tree} {follow : InodeId → Path → Except Errno InodeId} {i : InodeId} :
    ∀ {names : List Name} {d : InodeId}, t.descend d names = some i →
      t.walkWith follow d (names.map .normal) = .ok i
  | [], d, h => by
    simp only [descend, Option.some.injEq] at h
    simp [walkWith, h]
  | n :: names, d, h => by
    simp only [descend] at h
    split at h
    · rename_i j hj
      split at h
      · rename_i hdir
        simp only [List.map_cons, walkWith, look_of_directory hj hdir]
        exact walkWith_descend h
      · cases h
    · cases h

/-- **A way without links is walked by its names.** -/
theorem walk_descend {t : Tree} {links : Nat} {cwd i : InodeId} {names : List Name}
    (h : t.descend t.root names = some i) : t.walk links cwd (absolute names) = .ok i := by
  cases links with
  | zero => exact walkWith_descend h
  | succ links => exact walkWith_descend h

theorem descend_append {t : Tree} :
    ∀ {front back : List Name} {d : InodeId}, t.descend d (front ++ back) =
      (t.descend d front).bind fun i => t.descend i back
  | [], back, d => rfl
  | n :: front, back, d => by
    simp only [List.cons_append, descend]
    split
    · split
      · exact descend_append
      · rfl
    · rfl

/-- A walk whose own steps stay is the same walk. -/
theorem descend_kept {t t' : Tree} :
    ∀ {names : List Name} {d i : InodeId},
      (∀ front n back x j, names = front ++ n :: back → t.descend d front = some x →
        t.entry x n = some j → t.isDirectory j = true →
          t'.entry x n = some j ∧ t'.isDirectory j = true) →
      t.descend d names = some i → t'.descend d names = some i
  | [], _, _, _, h => h
  | n :: names, d, i, hkept, h => by
    simp only [descend] at h ⊢
    split at h
    · rename_i j hj
      split at h
      · rename_i hdir
        obtain ⟨hj', hdir'⟩ := hkept [] n names d j rfl rfl hj hdir
        rw [hj']
        simp only [hdir', if_true]
        refine descend_kept ?_ h
        intro front m back x k hnames hx
        refine hkept (n :: front) m back x k (by rw [hnames, List.cons_append]) ?_
        simp only [descend, hj, hdir, if_true]
        exact hx
      · cases h
    · cases h

theorem descend_snoc {t : Tree} {d i : InodeId} {front : List Name} {n : Name} :
    t.descend d (front ++ [n]) = some i ↔
      ∃ x, t.descend d front = some x ∧ t.entry x n = some i ∧ t.isDirectory i = true := by
  rw [descend_append, Option.bind_eq_some_iff]
  refine exists_congr fun x => and_congr_right fun _ => ?_
  simp only [descend]
  split
  · rename_i j hj
    by_cases hdir : t.isDirectory j = true
    · simp only [hdir, if_true, Option.some.injEq, hj]
      exact ⟨fun h => h ▸ ⟨rfl, hdir⟩, And.left⟩
    · simp only [hdir, hj, Option.some.injEq]
      exact ⟨fun h => (by cases h), fun h => absurd (h.1 ▸ h.2) hdir⟩
  · rename_i hnone
    simp [hnone]

theorem fileName_absolute_snoc {front : List Name} {n : Name} :
    Path.fileName (absolute (front ++ [n])) = some n := by
  have hlast : (absolute (front ++ [n])).getLast? = some (.normal n) := by
    rw [absolute, List.map_append, ← List.cons_append]
    exact List.getLast?_concat
  rw [Path.fileName, hlast]

theorem dropLast_absolute_snoc {front : List Name} {n : Name} :
    List.dropLast (absolute (front ++ [n])) = absolute front := by
  rw [absolute, List.map_append, ← List.cons_append]
  exact List.dropLast_concat

/-- A directory on a way without links is seen under its own name. -/
theorem lstat_absolute {t : Tree} {cwd i : InodeId} {front : List Name} {n : Name}
    (h : t.descend t.root (front ++ [n]) = some i) :
    t.lstat cwd (absolute (front ++ [n])) = .ok i := by
  obtain ⟨x, hx, hn, -⟩ := descend_snoc.1 h
  simp only [lstat, fileName_absolute_snoc, wayTo, dropLast_absolute_snoc, walk_descend hx, hn]

/-! ## What a rename changes -/

theorem object_insert (t : Tree) (i x : InodeId) (o : Object) :
    ({ t with objects := t.objects.insert i o } : Tree).object x =
      if x = i then some o else t.object x := by
  show (t.objects.insert i o).get? x = _
  rw [OrdMap.get?_insert]
  by_cases hx : x = i
  · simp [hx]
  · simp [hx, object]

section Change

variable {t : Tree} {d i x : InodeId} {n m : Name}

theorem isDirectory_iff :
    t.isDirectory i = true ↔ ∃ up entries, t.object i = some (.directory up entries) := by
  unfold isDirectory
  split
  · rename_i heq
    simp [heq]
  · rename_i hne
    simpa using hne

theorem isDirectory_of_entry (h : t.entry d n = some i) : t.isDirectory d = true := by
  unfold entry at h
  split at h
  · rename_i heq
    exact isDirectory_iff.2 ⟨_, _, heq⟩
  · cases h

@[simp] theorem root_setEntries (f : OrdMap Name InodeId → OrdMap Name InodeId) :
    (t.setEntries d f).root = t.root := by
  unfold setEntries
  split <;> rfl

@[simp] theorem root_setUp : (t.setUp i d).root = t.root := by
  unfold setUp
  split <;> rfl

/-- Replacing entries changes no inode's kind. -/
@[simp] theorem isDirectory_setEntries (f : OrdMap Name InodeId → OrdMap Name InodeId) :
    (t.setEntries d f).isDirectory x = t.isDirectory x := by
  unfold setEntries
  split
  · rename_i heq
    unfold isDirectory
    rw [object_insert]
    by_cases hx : x = d
    · simp [hx, heq]
    · simp [hx]
  · rfl

@[simp] theorem isRegular_setEntries (f : OrdMap Name InodeId → OrdMap Name InodeId) :
    (t.setEntries d f).isRegular x = t.isRegular x := by
  unfold setEntries
  split
  · rename_i heq
    unfold isRegular
    rw [object_insert]
    by_cases hx : x = d
    · simp [hx, heq]
    · simp [hx]
  · rfl

@[simp] theorem isDirectory_setUp : (t.setUp i d).isDirectory x = t.isDirectory x := by
  unfold setUp
  split
  · rename_i heq
    unfold isDirectory
    rw [object_insert]
    by_cases hx : x = i
    · simp [hx, heq]
    · simp [hx]
  · rfl

@[simp] theorem isRegular_setUp : (t.setUp i d).isRegular x = t.isRegular x := by
  unfold setUp
  split
  · rename_i heq
    unfold isRegular
    rw [object_insert]
    by_cases hx : x = i
    · simp [hx, heq]
    · simp [hx]
  · rfl

@[simp] theorem entry_setUp : (t.setUp i d).entry x m = t.entry x m := by
  unfold setUp
  split
  · rename_i heq
    unfold entry
    rw [object_insert]
    by_cases hx : x = i
    · simp [hx, heq]
    · simp [hx]
  · rfl

theorem entry_setEntries (f : OrdMap Name InodeId → OrdMap Name InodeId) (hx : x ≠ d) :
    (t.setEntries d f).entry x m = t.entry x m := by
  unfold setEntries
  split
  · unfold entry
    rw [object_insert, if_neg hx]
  · rfl

theorem entry_setEntries_self (up : InodeId) (entries : OrdMap Name InodeId)
    (h : t.object d = some (.directory up entries))
    (f : OrdMap Name InodeId → OrdMap Name InodeId) :
    (t.setEntries d f).entry d m = (f entries).get? m := by
  unfold setEntries
  rw [h]
  simp only [entry, object_insert, if_true]

theorem entry_erase :
    (t.setEntries d fun entries => entries.erase n).entry x m =
      if x = d ∧ m = n then none else t.entry x m := by
  by_cases hx : x = d
  · subst hx
    cases hd : t.isDirectory x with
    | true =>
      obtain ⟨up, entries, ho⟩ := isDirectory_iff.1 hd
      rw [entry_setEntries_self up entries ho, OrdMap.get?_erase]
      simp only [true_and, entry, ho]
    | false =>
      have hnone : ∀ t' : Tree, t'.isDirectory x = false → t'.entry x m = none := by
        intro t' ht'
        cases he : t'.entry x m with
        | none => rfl
        | some j => exact absurd (isDirectory_of_entry he) (by simp [ht'])
      rw [hnone _ (by simpa using hd), hnone t hd, ite_self]
  · rw [entry_setEntries _ hx, if_neg fun h => hx h.1]

theorem entry_insert (hd : t.isDirectory d = true) :
    (t.setEntries d fun entries => entries.insert n i).entry x m =
      if x = d ∧ m = n then some i else t.entry x m := by
  by_cases hx : x = d
  · subst hx
    obtain ⟨up, entries, ho⟩ := isDirectory_iff.1 hd
    rw [entry_setEntries_self up entries ho, OrdMap.get?_insert]
    simp only [true_and, entry, ho]
  · rw [entry_setEntries _ hx, if_neg fun h => hx h.1]

end Change

section Move

variable {t : Tree} {d d' i x : InodeId} {n n' m : Name}

@[simp] theorem root_move : (t.move d n d' n' i).root = t.root := by simp [move]

@[simp] theorem isDirectory_move : (t.move d n d' n' i).isDirectory x = t.isDirectory x := by
  simp [move]

@[simp] theorem isRegular_move : (t.move d n d' n' i).isRegular x = t.isRegular x := by
  simp [move]

/-- **One name goes and one comes.** -/
theorem entry_move (hd' : t.isDirectory d' = true) :
    (t.move d n d' n' i).entry x m =
      if x = d' ∧ m = n' then some i else if x = d ∧ m = n then none else t.entry x m := by
  rw [move, entry_setUp, entry_insert (by simpa using hd'), entry_erase]

/-- What a rename that succeeds has found. -/
theorem renameat2_ok {cwd : InodeId} {src dest : Path} {t' : Tree}
    (h : t.renameat2 cwd src dest = .ok t') :
    ∃ n n' d d' i, src.fileName = some n ∧ dest.fileName = some n' ∧
      t.wayTo cwd src = .ok d ∧ t.wayTo cwd dest = .ok d' ∧ t.isDirectory d' = true ∧
      t.entry d n = some i ∧ t.entry d' n' = none ∧ t' = t.move d n d' n' i := by
  unfold renameat2 at h
  split at h
  · rename_i n n' hn hn'
    split at h
    · cases h
    · rename_i d hd
      split at h
      · cases h
      · rename_i d' hd'
        split at h
        · cases h
        · split at h
          · cases h
          · rename_i hdir
            split at h
            · cases h
            · rename_i i hi
              split at h
              · cases h
              · rename_i hfree
                split at h
                · cases h
                · cases h
                  exact ⟨n, n', d, d', i, hn, hn', hd, hd', by simpa using hdir, hi,
                    by simpa using hfree, rfl⟩
  · cases h

end Move

/-! ## What an open creates -/

section Create

variable {t t' : Tree} {d x file fresh : InodeId} {n m : Name} {cwd : InodeId} {p : Path}

/-- An open finds what the name holds, or makes a regular file there. -/
theorem openCreate_ok (h : t.openCreate cwd p fresh = .ok (file, t')) :
    ∃ n d, p.fileName = some n ∧ t.wayTo cwd p = .ok d ∧
      ((t.entry d n = some file ∧ t' = t) ∨
        (t.entry d n = none ∧ file = fresh ∧ t.isDirectory d = true ∧
          t' = (t.withFile fresh).setEntries d fun entries => entries.insert n fresh)) := by
  unfold openCreate at h
  split at h
  · cases h
  · rename_i n hn
    split at h
    · cases h
    · rename_i d hd
      refine ⟨n, d, hn, hd, ?_⟩
      split at h
      · rename_i i hi
        split at h
        all_goals cases h
        exact .inl ⟨hi, rfl⟩
      · rename_i hnone
        split at h
        · cases h
        · rename_i hdir
          cases h
          exact .inr ⟨hnone, rfl, by simpa using hdir, rfl⟩

theorem object_withFile :
    (t.withFile fresh).object x = if x = fresh then some (.regular []) else t.object x :=
  object_insert t fresh x (.regular [])

theorem isRegular_withFile :
    (t.withFile fresh).isRegular x = (decide (x = fresh) || t.isRegular x) := by
  unfold isRegular
  rw [object_withFile]
  by_cases hx : x = fresh
  · simp [hx]
  · simp [hx]

variable (hfresh : t.object fresh = none)

include hfresh

theorem entry_withFile : (t.withFile fresh).entry x m = t.entry x m := by
  unfold entry
  rw [object_withFile]
  by_cases hx : x = fresh
  · simp [hx, hfresh]
  · simp [hx]

theorem isDirectory_withFile : (t.withFile fresh).isDirectory x = t.isDirectory x := by
  unfold isDirectory
  rw [object_withFile]
  by_cases hx : x = fresh
  · simp [hx, hfresh]
  · simp [hx]

end Create

end Tree

end DedupCommando
