import DedupCommando.Kernel.Tree
import DedupCommando.Lib.Program

/-!
# The operator lock

The lock of a state directory is a `flock` on an open file; the next process looks for that file
by its name.  Each function is a program of kernel calls and of steps on the process's own list.

* `Shared`, `exec` — the tree, the open file descriptions and every process's list, and what one
  call does to them.
* `try_acquire`, `InstanceLock.drop`, `LockName.in_dir`, `LockName.drop` — taking and letting go.
* `part_listed`, `unless_part_of_lock`, `rename_noreplace` — the question asked before a rename.
-/

set_option autoImplicit false

namespace DedupCommando.Lock

abbrev Pid := Nat
abbrev Fd := Nat

/-- `lock::LockPart`. -/
inductive LockPart where
  | file
  | directory
  deriving DecidableEq, Repr

/-- `lock::InstanceLock`: the descriptor and the number of the entry. -/
structure InstanceLock where
  file : Fd
  entry : Nat
  deriving DecidableEq, Repr

/-- One lock file of `LOCK_FILES`. -/
structure Listed where
  entry : Nat
  name : Path
  file : Option InodeId
  deriving DecidableEq

/-- What a process is asked to do, one thread each.  `way` names the directory in which the
    source of a rename lies. -/
inductive Op where
  | acquire
  | release (lock : InstanceLock)
  | name
  | unname (entry : Nat)
  | rename (src dest : Path) (way : Option InodeId)
  deriving DecidableEq

structure Task where
  pid : Pid
  op : Op
  serial : Nat
  deriving DecidableEq

/-- Whose a descriptor or an entry is: ghost state, read by no call. -/
inductive Owner where
  | nobody
  | task (t : Task)
  | lock (entry : Nat) (p : Pid)
  | lockName (p : Pid)
  deriving DecidableEq

/-- What belongs to the process `p`. -/
def Owner.isOf (p : Pid) : Owner → Bool
  | .nobody => false
  | .task t => decide (t.pid = p)
  | .lock _ q => decide (q = p)
  | .lockName q => decide (q = p)

/-- An open file description. -/
structure Description where
  file : InodeId
  regular : Bool
  deriving DecidableEq

/-- A process: its working directory, its `LOCK_FILES` with the holds on it, `NEXT_ENTRY`, and
    the values alive. -/
structure Process where
  cwd : InodeId
  working : Path
  listed : List Listed
  nextEntry : Nat
  readers : List Task
  writer : Option Task
  locks : List InstanceLock
  names : List Nat

structure Shared where
  tree : Tree
  descriptions : Fd → Option Description
  nextFd : Fd
  flocks : InodeId → Option Fd
  processes : Pid → Process
  fdOwner : Fd → Owner
  entryOwner : Pid → Nat → Owner

/-! ## Calls -/

structure Looked where
  thing : InodeId
  isDir : Bool
  deriving DecidableEq

structure FileStat where
  identity : InodeId
  regular : Bool
  nlink : Nat
  deriving DecidableEq

inductive Call where
  | look (path : Path)
  | identityAt (path : Path)
  | statDot (dir : Path)
  | openCreate (path : Path)
  | fstat (fd : Fd)
  | flock (fd : Fd)
  | unflock (fd : Fd)
  | close (fd : Fd)
  | renameat2 (src dest : Path)
  | askDatabases (src : Path)
  | read
  | endRead
  | write
  | endWrite
  | enter (name : Path) (file : Option InodeId)
  | retain (entry : Nat)

@[reducible] def Reply : Call → Type
  | .look _ => Except Errno Looked
  | .identityAt _ => Except Errno InodeId
  | .statDot _ => Except Errno InodeId
  | .openCreate _ => Except Errno Fd
  | .fstat _ => Except Errno FileStat
  | .flock _ => Except Errno Unit
  | .renameat2 _ _ => Except Errno Unit
  | .askDatabases _ => Except Errno Bool
  | .read => List Listed
  | .enter _ _ => Nat
  | _ => Unit

/-- What the source does not decide: a call that fails, the inode of a new file, a file's link
    count, the answer about open databases. -/
inductive Luck where
  | plain
  | fault (errno : Errno)
  | fresh (i : InodeId)
  | links (n : Nat)
  | refused
  deriving DecidableEq

namespace Shared

def setProcess (s : Shared) (p : Pid) (f : Process → Process) : Shared :=
  { s with processes := Function.update s.processes p (f (s.processes p)) }

/-- `std::path::absolute`. -/
def absolutePath (s : Shared) (p : Pid) (name : Path) : Path :=
  if name.isAbsolute then name else (s.processes p).working.join name

/-- A new description, the caller's. -/
def opened (s : Shared) (t : Task) (tree : Tree) (file : InodeId) : Shared :=
  { s with
    tree
    descriptions :=
      Function.update s.descriptions s.nextFd (some ⟨file, tree.isRegular file⟩)
    nextFd := s.nextFd + 1
    fdOwner := Function.update s.fdOwner s.nextFd (.task t) }

/-- The entry `e` of the process `p` passes to `o`. -/
def giveEntry (s : Shared) (p : Pid) (e : Nat) (o : Owner) : Shared :=
  { s with entryOwner := fun q e' => if q = p ∧ e' = e then o else s.entryOwner q e' }

/-- `enter`: one more entry, under the next number. -/
def entered (s : Shared) (t : Task) (name : Path) (file : Option InodeId) : Shared :=
  (s.setProcess t.pid fun q =>
    { q with
      listed := q.listed ++ [⟨q.nextEntry, s.absolutePath t.pid name, file⟩]
      nextEntry := q.nextEntry + 1 }).giveEntry t.pid (s.processes t.pid).nextEntry (.task t)

/-- Whatever lock the description `fd` holds is let go. -/
def unlocked (s : Shared) (fd : Fd) : Shared :=
  { s with flocks := fun i => if s.flocks i = some fd then none else s.flocks i }

end Shared

/-- One call of the task `t`; `none` is a call that waits, or an answer it cannot get. -/
def exec (t : Task) : (c : Call) → Luck → Shared → Option (Reply c × Shared)
  | .look path, luck, s =>
    match luck with
    | .fault e => some (.error e, s)
    | .plain =>
      match s.tree.lstat (s.processes t.pid).cwd path with
      | .error e => some (.error e, s)
      | .ok i => some (.ok ⟨i, s.tree.isDirectory i⟩, s)
    | _ => none
  | .identityAt path, luck, s =>
    match luck with
    | .fault e => some (.error e, s)
    | .plain => some (s.tree.lstat (s.processes t.pid).cwd path, s)
    | _ => none
  | .statDot dir, luck, s =>
    match luck with
    | .fault e => some (.error e, s)
    | .plain => some (s.tree.statDot (s.processes t.pid).cwd dir, s)
    | _ => none
  | .openCreate path, luck, s =>
    match luck with
    | .fault e => some (.error e, s)
    | .fresh i =>
      if (s.tree.object i).isSome then none
      else match s.tree.openCreate (s.processes t.pid).cwd path i with
        | .error e => some (.error e, s)
        | .ok (file, tree) => some (.ok s.nextFd, s.opened t tree file)
    | _ => none
  | .fstat fd, luck, s =>
    match luck, s.descriptions fd with
    | .fault e, _ => some (.error e, s)
    | .links n, some d => some (.ok ⟨d.file, d.regular, n⟩, s)
    | _, _ => none
  | .flock fd, luck, s =>
    match luck, s.descriptions fd with
    | .fault e, _ => some (.error e, s)
    | .plain, some d =>
      if s.flocks d.file = none ∨ s.flocks d.file = some fd then
        some (.ok (), { s with flocks := Function.update s.flocks d.file (some fd) })
      else some (.error Errno.EWOULDBLOCK, s)
    | _, _ => none
  | .unflock fd, .plain, s => some ((), s.unlocked fd)
  | .close fd, .plain, s =>
    some ((), { s.unlocked fd with
      descriptions := Function.update s.descriptions fd none })
  | .renameat2 src dest, luck, s =>
    match luck with
    | .fault e => some (.error e, s)
    | .plain =>
      match s.tree.renameat2 (s.processes t.pid).cwd src dest with
      | .error e => some (.error e, s)
      | .ok tree => some (.ok (), { s with tree })
    | _ => none
  | .askDatabases _, luck, s =>
    match luck with
    | .fault e => some (.error e, s)
    | .refused => some (.ok true, s)
    | .plain => some (.ok false, s)
    | _ => none
  | .read, .plain, s =>
    if (s.processes t.pid).writer = none then
      some ((s.processes t.pid).listed,
        s.setProcess t.pid fun q => { q with readers := t :: q.readers })
    else none
  | .endRead, .plain, s =>
    some ((), s.setProcess t.pid fun q => { q with readers := q.readers.erase t })
  | .write, .plain, s =>
    if (s.processes t.pid).writer = none ∧ (s.processes t.pid).readers = [] then
      some ((), s.setProcess t.pid fun q => { q with writer := some t })
    else none
  | .endWrite, .plain, s =>
    some ((), s.setProcess t.pid fun q => { q with writer := none })
  | .enter name file, .plain, s =>
    some ((s.processes t.pid).nextEntry, s.entered t name file)
  | .retain entry, .plain, s =>
    some ((), s.setProcess t.pid fun q =>
      { q with listed := q.listed.filter fun kept => decide (kept.entry ≠ entry) })
  | _, _, _ => none

abbrev Prog : Type → Type := Program Call Reply

/-- One call. -/
def perform (c : Call) : Prog (Reply c) := Program.perform c

/-! ## Taking the lock and letting it go -/

/-- `std::io::Error`: the OS's number, or `InvalidInput` with words of its own. -/
inductive LockError where
  | os (errno : Errno)
  | invalidInput (words : String)
  deriving DecidableEq

def LOCK_FILE : Name :=
  ⟨[100, 101, 100, 99, 111, 109, 46, 108, 111, 99, 107], by decide⟩

def lock_path (state_dir : Path) : Path := state_dir.join [.normal LOCK_FILE]

def not_our_lock_file (path : Path) (what : String) : LockError :=
  .invalidInput ("the lock file " ++ terminal path.display ++ " " ++ what)

/-- `is_not_our_lock_file`. -/
def LockError.is_not_our_lock_file : LockError → Bool
  | .invalidInput _ => true
  | .os _ => false

/-- `lock::Acquire`; what `read_holder` finds in the file is left out. -/
inductive Acquire where
  | operator (lock : InstanceLock)
  | busy
  deriving DecidableEq

def openFault (path : Path) (errno : Errno) : LockError :=
  if errno = Errno.ELOOP then not_our_lock_file path "is a symbolic link"
  else if errno = Errno.EISDIR then not_our_lock_file path "is a directory"
  else .os errno

/-- `require_plain_lock_file`, on the answer of `fstat`. -/
def require_plain_lock_file (path : Path) : Except Errno FileStat → Except LockError InodeId
  | .error e => .error (.os e)
  | .ok st =>
    if !st.regular then .error (not_our_lock_file path "is not a regular file")
    else if st.nlink ≠ 1 then
      .error (not_our_lock_file path ("has " ++ toString st.nlink ++ " names, not one"))
    else .ok st.identity

/-- `try_acquire`: the list is held to write from before the file is opened until its entry
    stands.  On the way out of a failure the file is closed before the list is let go, but for
    a lock that was not granted. -/
def try_acquire (state_dir : Path) : Prog (Except LockError Acquire) := do
  let path := lock_path state_dir
  perform .write
  match ← perform (.openCreate path) with
  | .error e =>
    perform .endWrite
    return .error (openFault path e)
  | .ok fd =>
    match require_plain_lock_file path (← perform (.fstat fd)) with
    | .error e =>
      perform (.close fd)
      perform .endWrite
      return .error e
    | .ok identity =>
      match ← perform (.flock fd) with
      | .ok () =>
        let entry ← perform (.enter path (some identity))
        perform .endWrite
        return .ok (.operator ⟨fd, entry⟩)
      | .error e =>
        perform .endWrite
        perform (.close fd)
        return if e = Errno.EWOULDBLOCK then .ok .busy else .error (.os e)

/-- `Drop for InstanceLock`; the descriptor itself is closed last. -/
def InstanceLock.drop (lock : InstanceLock) : Prog Unit := do
  perform .write
  perform (.retain lock.entry)
  perform (.unflock lock.file)
  perform .endWrite
  perform (.close lock.file)

/-- `LockName::in_dir`. -/
def LockName.in_dir (state_dir : Path) : Prog Nat := do
  perform .write
  let entry ← perform (.enter (lock_path state_dir) none)
  perform .endWrite
  return entry

/-- `Drop for LockName`. -/
def LockName.drop (entry : Nat) : Prog Unit := do
  perform .write
  perform (.retain entry)
  perform .endWrite

/-! ## The question before a rename -/

def holds (listed : List Listed) (file : InodeId) : Bool :=
  listed.any fun kept => decide (kept.file = some file)

/-- A directory is looked at through its `.`. -/
def directory (dir : Path) : Prog (Option InodeId) := do
  return (← perform (.statDot dir)).toOption

/-- `get_or_insert_with`: what was found before, or a look now. -/
def remembered (dir : Path) : Option (Option InodeId) → Prog (Option InodeId)
  | some found => return found
  | none => directory dir

/-- The loop of `names`; `ours` is looked up once, when the first name is the same. -/
def namesFrom (name : Name) (dir : Path) :
    Option (Option InodeId) → List Listed → Prog Bool
  | _, [] => return false
  | ours, kept :: rest => do
    if kept.name.fileName = some name then
      match kept.name.parent with
      | none => namesFrom name dir ours rest
      | some theirDir =>
        match ← remembered dir ours with
        | none => namesFrom name dir (some none) rest
        | some i =>
          if (← directory theirDir) = some i then return true
          else namesFrom name dir (some (some i)) rest
    else namesFrom name dir ours rest

def names (listed : List Listed) (path : Path) : Prog Bool :=
  match path.fileName, path.parent with
  | some name, some dir => namesFrom name dir none listed
  | _, _ => return false

/-- Whether the name `above` holds the directory `dir`. -/
def isAt (dir : InodeId) (above : Path) : Prog Bool := do
  match ← perform (.identityAt above) with
  | .ok theirs => return decide (theirs = dir)
  | .error _ => return false

def lies_above (listed : List Listed) (dir : InodeId) : Prog Bool :=
  listed.anyM fun kept => kept.name.parents.anyM (isAt dir)

def part_listed (listed : List Listed) (path : Path) :
    Prog (Except Errno (Option LockPart)) := do
  match ← perform (.look path) with
  | .error e => return .error e
  | .ok looked =>
    if looked.isDir then
      return .ok (if ← lies_above listed looked.thing then some .directory else none)
    else if holds listed looked.thing then return .ok (some .file)
    else return .ok (if ← names listed path then some .file else none)

/-- `unless_part_of_lock`: the part that stopped the act, or what the act returned. -/
def unless_part_of_lock {α : Type} (path : Path) (act : Prog α) :
    Prog (Except Errno (Except LockPart α)) := do
  let listed ← perform .read
  match ← part_listed listed path with
  | .error e =>
    perform .endRead
    return .error e
  | .ok (some part) =>
    perform .endRead
    return .ok (.error part)
  | .ok none =>
    let outcome ← act
    perform .endRead
    return .ok (.ok outcome)

def LOCK_FILE_MOVE_REFUSAL : String :=
  "dedcom's own lock file, or a hard link to it — it is not moved"

def LOCK_FOLDER_MOVE_REFUSAL : String :=
  "a folder that holds dedcom's own lock file — it is not moved"

def lock_move_refusal : LockPart → LockError
  | .file => .invalidInput LOCK_FILE_MOVE_REFUSAL
  | .directory => .invalidInput LOCK_FOLDER_MOVE_REFUSAL

/-- What a rename comes to; a refusal over an open database keeps its words to itself. -/
inductive Renamed where
  | done
  | failed (e : LockError)
  | databaseRefused
  deriving DecidableEq

/-- `rename_noreplace`, the list of open databases being asked and held outside. -/
def rename_noreplace (src dest : Path) : Prog Renamed := do
  match ← perform (.askDatabases src) with
  | .error e => return .failed (.os e)
  | .ok true => return .databaseRefused
  | .ok false =>
    match ← unless_part_of_lock src (perform (.renameat2 src dest)) with
    | .error e => return .failed (.os e)
    | .ok (.error part) => return .failed (lock_move_refusal part)
    | .ok (.ok (.error e)) => return .failed (.os e)
    | .ok (.ok (.ok ())) => return .done

end DedupCommando.Lock
