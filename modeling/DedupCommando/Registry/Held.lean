import DedupCommando.Kernel.Tree
import DedupCommando.Lib.Program

/-!
# The files of open databases

The close of any descriptor of a file drops the locks SQLite holds on it in this process.  So
the process keeps a list of the files of its open databases and asks it before it opens a file to
read it, and once more before it closes one.

* `HeldFiles`, `Shared`, `exec` — the list, the descriptors and SQLite's connections, and what one
  call does to them.
* `OpenDatabase.at`, `note_files`, `closing`, `OpenDatabase.drop`, `HeldConnection.open`,
  `HeldConnection.drop` — what a connection tells the list.
* `is_open_database_file`, `unless_open_database_file`, `open_database_files` — the questions.
* `open_regular_nofollow`, `ReadFile.drop` — a read, from its look to its close.
-/

set_option autoImplicit false

namespace DedupCommando.OpenDb

abbrev Fd := Nat

/-- What `lstat` says a thing is. -/
inductive Kind where
  | regular
  | symlink
  | other
  deriving DecidableEq

/-- The names of the file systems, as `lstat` answers for them. -/
structure Disk where
  lstat : Path → Option InodeId
  kind : InodeId → Kind

/-- `HeldFiles`: each of the three names with the file noted from it. -/
structure HeldFiles where
  connection : Nat
  files : List (Path × Option InodeId)

/-- `ReadFile`: the descriptor and what it is of. -/
structure ReadFile where
  file : Fd
  identity : InodeId
  deriving DecidableEq

inductive Op where
  | open (db : Path)
  | statement (connection : Nat)
  | drop (connection : Nat)
  | read (path : Path)
  | done (file : ReadFile)
  | probe (file : InodeId)
  | refuse (path : Path)
  | walk
  deriving DecidableEq

/-- One thread for each thing to do. -/
structure Task where
  op : Op
  serial : Nat
  deriving DecidableEq

/-- Whose a descriptor or a connection is: ghost state, read by no call. -/
inductive Owner where
  | nobody
  | task (t : Task)
  | value
  deriving DecidableEq

structure Description where
  file : InodeId
  regular : Bool
  deriving DecidableEq

/-- The process.  `conns` is what SQLite has open for each connection, and `live` the names of a
    connection from its number to the removal of its entry. -/
structure Shared where
  disk : Disk
  listed : List HeldFiles
  next : Nat
  readers : List Task
  writer : Option Task
  fds : Fd → Option Description
  nextFd : Fd
  conns : Nat → Option (List (Path × Option InodeId))
  live : Nat → Option (List Path)
  connOwner : Nat → Owner
  fdOwner : Fd → Owner
  stores : List Nat
  reads : List ReadFile

/-! ## Calls -/

inductive Call where
  | number (names : List Path)
  | identityAt (name : Path)
  | stat (path : Path)
  | write
  | push (held : HeldFiles)
  | update (connection : Nat) (files : List (Path × Option InodeId))
  | retain (connection : Nat)
  | endWrite
  | read
  | endRead
  | sqliteOpen (connection : Nat) (names : List Path)
  | sqliteTouch (connection : Nat) (sidecar : Nat)
  | sqliteRun (connection : Nat)
  | sqliteClose (connection : Nat)
  | open (path : Path)
  | fstat (fd : Fd)
  | close (fd : Fd)

@[reducible] def Reply : Call → Type
  | .number _ => Nat
  | .identityAt _ => Option InodeId
  | .stat _ => Option InodeId
  | .write => List HeldFiles
  | .read => List HeldFiles
  | .sqliteOpen _ _ => Except Errno Unit
  | .sqliteRun _ => Except Errno Unit
  | .open _ => Except Errno Fd
  | .fstat _ => Except Errno Description
  | _ => Unit

/-- What the source does not decide: a call that fails, what a link leads to, whether SQLite opens
    a journal now. -/
inductive Luck where
  | plain
  | fault (errno : Errno)
  | leadsTo (file : Option InodeId)
  | takes
  deriving DecidableEq

/-- SQLite opens the database; the journal and its index come with the first read. -/
def heldAtOpen (file : InodeId) : List Path → List (Path × Option InodeId)
  | [] => []
  | name :: rest => (name, some file) :: rest.map fun n => (n, none)

/-- One call of the task `t`; `none` is a call that waits, or an answer it cannot get. -/
def exec (t : Task) : (c : Call) → Luck → Shared → Option (Reply c × Shared)
  | .number names, .plain, s =>
    some (s.next, { s with
      next := s.next + 1
      live := Function.update s.live s.next (some names)
      connOwner := Function.update s.connOwner s.next (.task t) })
  | .identityAt _, .fault _, s => some (none, s)
  | .identityAt name, .plain, s => some (s.disk.lstat name, s)
  | .stat _, .leadsTo file, s => some (file, s)
  | .write, .plain, s =>
    if s.writer = none ∧ s.readers = [] then some (s.listed, { s with writer := some t }) else none
  | .push held, .plain, s => some ((), { s with listed := s.listed ++ [held] })
  | .update connection files, .plain, s =>
    some ((), { s with
      listed := s.listed.map fun held =>
        if held.connection = connection then { held with files } else held })
  | .retain connection, .plain, s =>
    some ((), { s with
      listed := s.listed.filter fun held => decide (held.connection ≠ connection)
      live := Function.update s.live connection none })
  | .endWrite, .plain, s => some ((), { s with writer := none })
  | .read, .plain, s =>
    if s.writer = none then some (s.listed, { s with readers := t :: s.readers }) else none
  | .endRead, .plain, s => some ((), { s with readers := s.readers.erase t })
  | .sqliteOpen _ _, .fault e, s => some (.error e, s)
  | .sqliteOpen connection names, .plain, s =>
    match names.head?.bind s.disk.lstat with
    | some file =>
      if s.disk.kind file = .regular then
        some (.ok (), { s with
          conns := Function.update s.conns connection (some (heldAtOpen file names)) })
      else some (.error Errno.EINVAL, s)
    | none => some (.error Errno.ENOENT, s)
  | .sqliteTouch _ _, .plain, s => some ((), s)
  | .sqliteTouch connection i, .takes, s =>
    match s.conns connection with
    | some held =>
      match held[i]? with
      | some (name, none) =>
        some ((), { s with
          conns := Function.update s.conns connection
            (some (held.set i (name, s.disk.lstat name))) })
      | _ => some ((), s)
    | none => some ((), s)
  | .sqliteRun _, .fault e, s => some (.error e, s)
  | .sqliteRun _, .plain, s => some (.ok (), s)
  | .sqliteClose connection, .plain, s =>
    some ((), { s with conns := Function.update s.conns connection none })
  | .open _, .fault e, s => some (.error e, s)
  | .open path, .plain, s =>
    match s.disk.lstat path with
    | none => some (.error Errno.ENOENT, s)
    | some file =>
      if s.disk.kind file = .symlink then some (.error Errno.ELOOP, s)
      else some (.ok s.nextFd, { s with
        fds := Function.update s.fds s.nextFd
          (some ⟨file, decide (s.disk.kind file = .regular)⟩)
        nextFd := s.nextFd + 1
        fdOwner := Function.update s.fdOwner s.nextFd (.task t) })
  | .fstat _, .fault e, s => some (.error e, s)
  | .fstat fd, .plain, s => (s.fds fd).map fun d => (.ok d, s)
  | .close fd, .plain, s => some ((), { s with fds := Function.update s.fds fd none })
  | _, _, _ => none

abbrev Prog : Type → Type := Program Call Reply

/-- One call. -/
def perform (c : Call) : Prog (Reply c) := Program.perform c

/-! ## What a connection tells the list -/

/-- `DATABASE_FILE_SUFFIXES`: nothing, `-wal`, `-shm`. -/
def DATABASE_FILE_SUFFIXES : List Bytes := [[], [45, 119, 97, 108], [45, 115, 104, 109]]

/-- `std::path::absolute`. -/
def absolute (working path : Path) : Path :=
  if path.isAbsolute then path else working.join path

/-- `HeldFiles::names`. -/
def databaseNames (working db : Path) : List Path :=
  DATABASE_FILE_SUFFIXES.map fun suffix =>
    (Path.ofText ((absolute working db).bytes ++ suffix)).getD (absolute working db)

/-- What was noted, and for the rest what the name holds. -/
def noted_or_there : Path × Option InodeId → Prog (Option InodeId)
  | (_, some file) => return some file
  | (name, none) => perform (.identityAt name)

/-- `HeldFiles::note`: of the first `count` names, those that are not noted yet. -/
def note : Nat → List (Path × Option InodeId) → Prog (List (Path × Option InodeId))
  | 0, files => return files
  | _, [] => return []
  | count + 1, (name, noted) :: rest => do
    let noted ← noted_or_there (name, noted)
    return (name, noted) :: (← note count rest)

/-- `OpenDatabase::at`: the database is noted before the list is taken. -/
def OpenDatabase.at (working db : Path) : Prog Nat := do
  let names := databaseNames working db
  let connection ← perform (.number names)
  let files ← note 1 (names.map fun name => (name, none))
  let _ ← perform .write
  perform (.push ⟨connection, files⟩)
  perform .endWrite
  return connection

/-- `OpenDatabase::with`. -/
def OpenDatabase.with (connection : Nat)
    (change : List (Path × Option InodeId) → Prog (List (Path × Option InodeId))) :
    Prog Unit := do
  let listed ← perform .write
  match listed.find? fun held => decide (held.connection = connection) with
  | some held =>
    let files ← change held.files
    perform (.update connection files)
    perform .endWrite
  | none => perform .endWrite

def note_files (connection : Nat) : Prog Unit := OpenDatabase.with connection (note 3)

def closing (connection : Nat) : Prog Unit :=
  OpenDatabase.with connection fun files => return files.map fun file => (file.1, none)

/-- `Drop for OpenDatabase`. -/
def OpenDatabase.drop (connection : Nat) : Prog Unit := do
  let _ ← perform .write
  perform (.retain connection)
  perform .endWrite

/-- `Drop for HeldConnection`: forgets, closes, and only then lets go. -/
def HeldConnection.drop (connection : Nat) : Prog Unit := do
  closing connection
  perform (.sqliteClose connection)
  OpenDatabase.drop connection

/-- `HeldConnection::open`: the connection, or the number of one that came to nothing. -/
def HeldConnection.open (working db : Path) : Prog (Except Nat Nat) := do
  let connection ← OpenDatabase.at working db
  match ← perform (.sqliteOpen connection (databaseNames working db)) with
  | .ok () => return .ok connection
  | .error _ =>
    closing connection
    OpenDatabase.drop connection
    return .error connection

/-- Statements on a connection: SQLite opens the journal and its index when it first reads. -/
def statement (connection : Nat) : Prog (Except Errno Unit) := do
  perform (.sqliteTouch connection 1)
  perform (.sqliteTouch connection 2)
  perform (.sqliteRun connection)

/-- `open_writable`, `open_read_only`, `open_for_apply_lease`: an opener that fails drops what it
    opened; the files are noted as its last step. -/
def openStore (working db : Path) : Prog (Except Nat Nat) := do
  match ← HeldConnection.open working db with
  | .error connection => return .error connection
  | .ok connection =>
    match ← statement connection with
    | .error _ =>
      HeldConnection.drop connection
      return .error connection
    | .ok () =>
      note_files connection
      return .ok connection

/-! ## The questions -/

/-- `HeldFiles::files` holds the file. -/
def HeldFiles.has (held : HeldFiles) (file : InodeId) : Prog Bool :=
  held.files.anyM fun known => do return decide ((← noted_or_there known) = some file)

def holds (listed : List HeldFiles) (file : InodeId) : Prog Bool :=
  listed.anyM fun held => held.has file

def is_open_database_file (file : InodeId) : Prog Bool := do
  let listed ← perform .read
  let answer ← holds listed file
  perform .endRead
  return answer

def unless_open_database_file (file : InodeId) (act : Prog Unit) : Prog Bool := do
  let listed ← perform .read
  if ← holds listed file then
    perform .endRead
    return false
  else
    act
    perform .endRead
    return true

/-- The files of one entry that are there. -/
def filesOf : List (Path × Option InodeId) → Prog (List InodeId)
  | [] => return []
  | known :: rest => do
    let file ← noted_or_there known
    return file.toList ++ (← filesOf rest)

def filesOfAll : List HeldFiles → Prog (List InodeId)
  | [] => return []
  | held :: rest => do
    let files ← filesOf held.files
    return files ++ (← filesOfAll rest)

/-- `open_database_files`: what the walk leaves out. -/
def open_database_files : Prog (List InodeId) := do
  let listed ← perform .read
  let files ← filesOfAll listed
  perform .endRead
  return files

/-! ## A read -/

inductive ReadError where
  | openDatabase
  | notRegular
  | os (errno : Errno)
  deriving DecidableEq

/-- `Drop for ReadFile`: whether the descriptor was closed. -/
def ReadFile.drop (file : ReadFile) : Prog Bool :=
  unless_open_database_file file.identity (perform (.close file.file))

/-- The look before the open; a name that cannot be looked at is left for the open. -/
def refusedAtLook : Option InodeId → Prog Bool
  | some looked => is_open_database_file looked
  | none => return false

def open_regular_nofollow (path : Path) : Prog (Except ReadError ReadFile) := do
  let looked ← perform (.identityAt path)
  if ← refusedAtLook looked then return .error .openDatabase
  else
    match ← perform (.open path) with
    | .error e => return .error (.os e)
    | .ok fd =>
      match ← perform (.fstat fd) with
      | .error e =>
        -- not a `ReadFile` yet: the descriptor is closed without a question
        perform (.close fd)
        return .error (.os e)
      | .ok opened =>
        let file : ReadFile := ⟨fd, opened.file⟩
        if ← is_open_database_file file.identity then
          let _ ← file.drop
          return .error .openDatabase
        else if !opened.regular then
          let _ ← file.drop
          return .error .notRegular
        else return .ok file

/-- `refuse_open_database`: the look for a caller that has a library open the name. -/
def refuse_open_database (path : Path) : Prog Bool := do
  let there ← perform (.stat path)
  refusedAtLook there

end DedupCommando.OpenDb
