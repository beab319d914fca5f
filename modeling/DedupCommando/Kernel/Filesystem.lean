import Mathlib
import DedupCommando.Kernel.Acl

/-!
# Pathnames, inodes and what the kernel does to them

The part of a POSIX filesystem the program relies on.  A pathname names an inode, an inode has a
node, and every operation is the kernel's own single step:

* `rename` refuses a taken destination and moves one name, changing nothing of the inode but its
  `ctime`; `link` adds one name and one link; `unlink` takes one of each away.
* `clone` makes a fresh inode with the source's content and one link, owned by its creator and with
  what it inherits.
* `listXattrs`, `getXattr` — the names and the values of a file's attributes, into a buffer.
* `chown`, `chmod`, `setXattr`, `utimens` — what is written onto a clone through its descriptor:
  `chown` clears the set-id bits, `chmod` rewrites the access control list's entries and the list
  rewrites the permission bits.

Directories hold no entry here: making one, or finding one missing, is an outcome of the call and
not a change of a file.
-/

set_option autoImplicit false

namespace DedupCommando

/-- `st_dev` and `st_ino`. -/
structure InodeId where
  device : Nat
  inode : Nat
  deriving DecidableEq, Repr

structure Timespec where
  sec : Int
  nsec : Int
  deriving DecidableEq, Repr

inductive FileKind where
  | regular
  | symlink
  | other
  deriving DecidableEq, Repr

/-- An inode's content and attributes.  `mode` holds the permission bits. -/
structure Node where
  kind : FileKind
  content : Bytes
  uid : Nat
  gid : Nat
  mode : Nat
  atime : Timespec
  mtime : Timespec
  ctime : Timespec
  xattrs : List (Bytes × Bytes)
  nlink : Nat
  deriving DecidableEq

def Node.size (n : Node) : Nat := n.content.length

/-- What `chown` leaves of a mode: no set-user-ID bit, and no set-group-ID bit on what a group may
    execute. -/
def clearSetId (mode : Nat) : Nat :=
  if mode / 8 % 2 = 1 then mode % 1024 else mode % 1024 + mode / 1024 % 2 * 1024

namespace Node

def chown (uid gid : Nat) (n : Node) : Node :=
  { n with uid := uid, gid := gid, mode := clearSetId n.mode }

/-- `chmod`: an access control list follows the bits. -/
def chmod (mode : Nat) (n : Node) : Node :=
  { n with
    mode := mode
    xattrs := n.xattrs.map fun x =>
      if x.1 = Acl.access then (x.1, Acl.remasked mode x.2) else x }

/-- `setxattr`: an access control list takes the bits along, and one that says no more than they do
    is not kept.  A list the kernel cannot read is refused before it gets here. -/
def setXattr (name value : Bytes) (n : Node) : Node :=
  let rest := n.xattrs.filter fun x => decide (x.1 ≠ name)
  match (if name = Acl.access then Acl.decode value else none) with
  | none => { n with xattrs := rest ++ [(name, value)] }
  | some es =>
    { n with
      xattrs := if Acl.extended es then rest ++ [(name, value)] else rest
      mode := Acl.into es n.mode }

/-- Nothing but the attributes and the mode. -/
theorem setXattr_eq (name value : Bytes) (n : Node) :
    n.setXattr name value =
      { n with
        mode := (n.setXattr name value).mode
        xattrs := (n.setXattr name value).xattrs } := by
  unfold setXattr
  simp only
  split <;> rfl

/-- The names of a file's attributes as the kernel writes them, each with a NUL behind it. -/
def xattrNames (n : Node) : Bytes := n.xattrs.flatMap fun x => x.1 ++ [0]

end Node

/-- `std::io::Error`: the OS's number, when it has one, and the text. -/
structure IoError where
  errno : Option Nat
  text : String
  deriving DecidableEq, Repr

namespace IoError

def notFound : IoError := ⟨some 2, "No such file or directory (os error 2)"⟩

def alreadyExists : IoError := ⟨some 17, "File exists (os error 17)"⟩

def range : IoError := ⟨some 34, "Numerical result out of range (os error 34)"⟩

def noData : IoError := ⟨some 61, "No data available (os error 61)"⟩

def noSpace : IoError := ⟨some 28, "No space left on device (os error 28)"⟩

def tooManyLinks : IoError := ⟨some 31, "Too many links (os error 31)"⟩

def loop : IoError := ⟨some 40, "Too many levels of symbolic links (os error 40)"⟩

end IoError

/-- What every pathname names and what every inode holds; a name never dangles. -/
structure Filesystem where
  entries : Path → Option InodeId
  nodes : InodeId → Option Node
  live : ∀ p i, entries p = some i → (nodes i).isSome = true

namespace Filesystem

/-- The inode a pathname names, with its node. -/
def lookup (fs : Filesystem) (p : Path) : Option (InodeId × Node) :=
  match h : fs.entries p with
  | none => none
  | some i => some (i, (fs.nodes i).get (fs.live p i h))

theorem lookup_eq_none {fs : Filesystem} {p : Path} : fs.lookup p = none ↔ fs.entries p = none := by
  unfold lookup
  split
  · rename_i h; simp [h]
  · rename_i h; simp [h]

theorem lookup_eq_some {fs : Filesystem} {p : Path} {i : InodeId} {n : Node} :
    fs.lookup p = some (i, n) ↔ fs.entries p = some i ∧ fs.nodes i = some n := by
  unfold lookup
  split
  · rename_i h; simp [h]
  · rename_i j h
    simp only [Option.some.injEq, Prod.mk.injEq, h]
    constructor
    · rintro ⟨rfl, rfl⟩
      exact ⟨rfl, (Option.some_get _).symm⟩
    · rintro ⟨rfl, hn⟩
      refine ⟨rfl, ?_⟩
      simp [hn]

/-! ## Elementary updates -/

def setNode (fs : Filesystem) (i : InodeId) (n : Node) : Filesystem where
  entries := fs.entries
  nodes := Function.update fs.nodes i (some n)
  live p j h := by
    by_cases hij : j = i
    · subst hij; simp
    · simpa [hij] using fs.live p j h

def setEntry (fs : Filesystem) (p : Path) (i : InodeId) (hi : (fs.nodes i).isSome = true) :
    Filesystem where
  entries := Function.update fs.entries p (some i)
  nodes := fs.nodes
  live q j h := by
    by_cases hpq : q = p
    · subst hpq
      simp only [Function.update_self, Option.some.injEq] at h
      subst h; exact hi
    · simp only [Function.update_of_ne hpq] at h
      exact fs.live q j h

def clearEntry (fs : Filesystem) (p : Path) : Filesystem where
  entries := Function.update fs.entries p none
  nodes := fs.nodes
  live q j h := by
    by_cases hpq : q = p
    · subst hpq; simp at h
    · simp only [Function.update_of_ne hpq] at h
      exact fs.live q j h

@[simp]
theorem setNode_entries (fs : Filesystem) (i : InodeId) (n : Node) :
    (fs.setNode i n).entries = fs.entries := rfl

@[simp]
theorem setNode_nodes (fs : Filesystem) (i : InodeId) (n : Node) :
    (fs.setNode i n).nodes = Function.update fs.nodes i (some n) := rfl

@[simp]
theorem setEntry_entries (fs : Filesystem) (p : Path) (i : InodeId)
    (hi : (fs.nodes i).isSome = true) :
    (fs.setEntry p i hi).entries = Function.update fs.entries p (some i) := rfl

@[simp]
theorem setEntry_nodes (fs : Filesystem) (p : Path) (i : InodeId)
    (hi : (fs.nodes i).isSome = true) : (fs.setEntry p i hi).nodes = fs.nodes := rfl

@[simp]
theorem clearEntry_entries (fs : Filesystem) (p : Path) :
    (fs.clearEntry p).entries = Function.update fs.entries p none := rfl

@[simp]
theorem clearEntry_nodes (fs : Filesystem) (p : Path) : (fs.clearEntry p).nodes = fs.nodes := rfl

/-! ## The kernel's operations -/

/-- `lstat`. -/
def lstat (p : Path) (fs : Filesystem) : Except IoError ((InodeId × Node) × Filesystem) :=
  match fs.lookup p with
  | none => .error .notFound
  | some found => .ok (found, fs)

/-- `open(O_NOFOLLOW)` down to the inode, with what `fstat` says of it. -/
def openFile (p : Path) (fs : Filesystem) : Except IoError ((InodeId × Node) × Filesystem) :=
  match fs.lookup p with
  | none => .error .notFound
  | some (i, n) => if n.kind = .symlink then .error .loop else .ok ((i, n), fs)

/-- `unlink`. -/
def unlink (now : Timespec) (p : Path) (fs : Filesystem) : Except IoError (Unit × Filesystem) :=
  match fs.lookup p with
  | none => .error .notFound
  | some (i, n) =>
    .ok ((), (fs.setNode i { n with nlink := n.nlink - 1, ctime := now }).clearEntry p)

/-- `renameat2(RENAME_NOREPLACE)`. -/
def rename (now : Timespec) (src dest : Path) (fs : Filesystem) :
    Except IoError (Unit × Filesystem) :=
  match fs.lookup src with
  | none => .error .notFound
  | some (i, n) =>
    if (fs.entries dest).isSome then .error .alreadyExists
    else
      .ok ((), ((fs.setNode i { n with ctime := now }).clearEntry src).setEntry dest i (by simp))

/-- `link`.  `st_nlink` has 64 bits. -/
def link (now : Timespec) (src dest : Path) (fs : Filesystem) :
    Except IoError (Unit × Filesystem) :=
  match fs.lookup src with
  | none => .error .notFound
  | some (i, n) =>
    if (fs.entries dest).isSome then .error .alreadyExists
    else if 2 ^ 64 ≤ n.nlink + 1 then .error .tooManyLinks
    else
      .ok ((), (fs.setNode i { n with nlink := n.nlink + 1, ctime := now }).setEntry dest i
        (by simp))

/-- Who creates a file and where: what a new inode is owned by, may do and inherits. -/
structure Creator where
  uid : Nat
  gid : Nat
  mode : Nat
  xattrs : List (Bytes × Bytes)
  deriving DecidableEq

/-- A reflink: a new file at `dest` sharing the blocks of `src`, in the source's filesystem, under
    the unused inode number `inode`. -/
def clone (now : Timespec) (who : Creator) (inode : Nat) (src dest : Path) (fs : Filesystem) :
    Except IoError (Unit × Filesystem) :=
  match fs.lookup src with
  | none => .error .notFound
  | some (i, n) =>
    if (fs.entries dest).isSome then .error .alreadyExists
    else if (fs.nodes ⟨i.device, inode⟩).isSome then .error .noSpace
    else
      .ok ((), (fs.setNode ⟨i.device, inode⟩
        { kind := .regular, content := n.content, uid := who.uid, gid := who.gid, mode := who.mode,
          atime := now, mtime := now, ctime := now, xattrs := who.xattrs, nlink := 1 }).setEntry dest
        ⟨i.device, inode⟩ (by simp))

/-- A change of an open file's attributes. -/
def change (i : InodeId) (f : Node → Node) (fs : Filesystem) :
    Except IoError (Unit × Filesystem) :=
  match fs.nodes i with
  | none => .error .notFound
  | some n => .ok ((), fs.setNode i (f n))

def chown (now : Timespec) (i : InodeId) (uid gid : Nat) : Filesystem →
    Except IoError (Unit × Filesystem) :=
  change i fun n => { n.chown uid gid with ctime := now }

def chmod (now : Timespec) (i : InodeId) (mode : Nat) : Filesystem →
    Except IoError (Unit × Filesystem) :=
  change i fun n => { n.chmod mode with ctime := now }

def setXattr (now : Timespec) (i : InodeId) (name value : Bytes) : Filesystem →
    Except IoError (Unit × Filesystem) :=
  change i fun n => { n.setXattr name value with ctime := now }

def utimens (now : Timespec) (i : InodeId) (atime mtime : Timespec) : Filesystem →
    Except IoError (Unit × Filesystem) :=
  change i fun n => { n with atime := atime, mtime := mtime, ctime := now }

/-- `llistxattr` into `room` bytes; no room asks for the length. -/
def listXattrs (p : Path) (room : Nat) (fs : Filesystem) : Except IoError (Bytes × Filesystem) :=
  match fs.lookup p with
  | none => .error .notFound
  | some (_, n) =>
    if 0 < room ∧ room < n.xattrNames.length then .error .range else .ok (n.xattrNames, fs)

/-- `lgetxattr` into `room` bytes; no room asks for the length. -/
def getXattr (p : Path) (name : Bytes) (room : Nat) (fs : Filesystem) :
    Except IoError (Bytes × Filesystem) :=
  match fs.lookup p with
  | none => .error .notFound
  | some (_, n) =>
    match n.xattrs.lookup name with
    | none => .error .noData
    | some value => if 0 < room ∧ room < value.length then .error .range else .ok (value, fs)

/-! ## What each operation does when it succeeds -/

theorem lstat_ok {p : Path} {fs fs' : Filesystem} {found : InodeId × Node}
    (h : lstat p fs = .ok (found, fs')) : fs' = fs ∧ fs.lookup p = some found := by
  unfold lstat at h
  split at h
  · cases h
  · rename_i found' hfound
    cases h
    exact ⟨rfl, hfound⟩

theorem openFile_ok {p : Path} {fs fs' : Filesystem} {found : InodeId × Node}
    (h : openFile p fs = .ok (found, fs')) : fs' = fs ∧ fs.lookup p = some found := by
  unfold openFile at h
  split at h
  · cases h
  · rename_i i n hfound
    split at h
    · cases h
    · cases h
      exact ⟨rfl, hfound⟩

theorem listXattrs_ok {p : Path} {room : Nat} {fs fs' : Filesystem} {names : Bytes}
    (h : listXattrs p room fs = .ok (names, fs')) : fs' = fs ∧ ∃ i n, fs.lookup p = some (i, n) ∧
      names = n.xattrNames ∧ (0 < room → n.xattrNames.length ≤ room) := by
  unfold listXattrs at h
  split at h
  · cases h
  · rename_i i n hfound
    split at h
    · cases h
    · rename_i hroom
      cases h
      exact ⟨rfl, i, n, hfound, rfl, fun hpos => by omega⟩

theorem getXattr_ok {p : Path} {name : Bytes} {room : Nat} {fs fs' : Filesystem} {value : Bytes}
    (h : getXattr p name room fs = .ok (value, fs')) : fs' = fs ∧ ∃ i n, fs.lookup p = some (i, n) ∧
      n.xattrs.lookup name = some value := by
  unfold getXattr at h
  split at h
  · cases h
  · rename_i i n hfound
    split at h
    · cases h
    · rename_i value hvalue
      split at h
      · cases h
      · cases h
        exact ⟨rfl, i, n, hfound, hvalue⟩

/-- `unlink` takes one name and one link of one inode. -/
theorem unlink_ok {now : Timespec} {p : Path} {fs fs' : Filesystem}
    (h : unlink now p fs = .ok ((), fs')) :
    ∃ i n, fs.entries p = some i ∧ fs.nodes i = some n ∧
      fs'.entries = Function.update fs.entries p none ∧
      fs'.nodes = Function.update fs.nodes i (some { n with nlink := n.nlink - 1, ctime := now }) := by
  unfold unlink at h
  split at h
  · cases h
  · rename_i i n hfound
    cases h
    obtain ⟨hi, hn⟩ := lookup_eq_some.1 hfound
    exact ⟨i, n, hi, hn, rfl, rfl⟩

/-- `rename` moves one name to a free one and touches nothing of the inode but its `ctime`. -/
theorem rename_ok {now : Timespec} {src dest : Path} {fs fs' : Filesystem}
    (h : rename now src dest fs = .ok ((), fs')) :
    ∃ i n, fs.entries src = some i ∧ fs.nodes i = some n ∧ fs.entries dest = none ∧
      fs'.entries = Function.update (Function.update fs.entries src none) dest (some i) ∧
      fs'.nodes = Function.update fs.nodes i (some { n with ctime := now }) := by
  unfold rename at h
  split at h
  · cases h
  · rename_i i n hfound
    obtain ⟨hi, hn⟩ := lookup_eq_some.1 hfound
    split at h
    · cases h
    · rename_i hfree
      cases h
      exact ⟨i, n, hi, hn, by simpa using hfree, rfl, rfl⟩

theorem link_ok {now : Timespec} {src dest : Path} {fs fs' : Filesystem}
    (h : link now src dest fs = .ok ((), fs')) :
    ∃ i n, fs.entries src = some i ∧ fs.nodes i = some n ∧ fs.entries dest = none ∧
      n.nlink + 1 < 2 ^ 64 ∧ fs'.entries = Function.update fs.entries dest (some i) ∧
      fs'.nodes = Function.update fs.nodes i (some { n with nlink := n.nlink + 1, ctime := now }) := by
  unfold link at h
  split at h
  · cases h
  · rename_i i n hfound
    obtain ⟨hi, hn⟩ := lookup_eq_some.1 hfound
    split at h
    · cases h
    · rename_i hfree
      split at h
      · cases h
      · rename_i hroom
        cases h
        exact ⟨i, n, hi, hn, by simpa using hfree, Nat.lt_of_not_le hroom, rfl, rfl⟩

/-- `clone` makes a fresh inode on the source's device, with its content, one link and what its
    creator hands on. -/
theorem clone_ok {now : Timespec} {who : Creator} {inode : Nat} {src dest : Path}
    {fs fs' : Filesystem} (h : clone now who inode src dest fs = .ok ((), fs')) :
    ∃ i n c, fs.entries src = some i ∧ fs.nodes i = some n ∧ fs.entries dest = none ∧
      fs.nodes ⟨i.device, inode⟩ = none ∧ c.kind = .regular ∧ c.content = n.content ∧
      c.nlink = 1 ∧ c.xattrs = who.xattrs ∧
      fs'.entries = Function.update fs.entries dest (some ⟨i.device, inode⟩) ∧
      fs'.nodes = Function.update fs.nodes ⟨i.device, inode⟩ (some c) := by
  unfold clone at h
  split at h
  · cases h
  · rename_i i n hfound
    obtain ⟨hi, hn⟩ := lookup_eq_some.1 hfound
    split at h
    · cases h
    · rename_i hfree
      split at h
      · cases h
      · rename_i hfresh
        cases h
        exact ⟨i, n,
          { kind := .regular, content := n.content, uid := who.uid, gid := who.gid, mode := who.mode,
            atime := now, mtime := now, ctime := now, xattrs := who.xattrs, nlink := 1 },
          hi, hn, by simpa using hfree, by simpa using hfresh, rfl, rfl, rfl, rfl, rfl, rfl⟩

theorem change_ok {i : InodeId} {f : Node → Node} {fs fs' : Filesystem}
    (h : change i f fs = .ok ((), fs')) :
    ∃ n, fs.nodes i = some n ∧ fs'.entries = fs.entries ∧
      fs'.nodes = Function.update fs.nodes i (some (f n)) := by
  unfold change at h
  split at h
  · cases h
  · rename_i n hn
    cases h
    exact ⟨n, hn, rfl, rfl⟩

end Filesystem

end DedupCommando
