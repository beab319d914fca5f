import DedupCommando.Registry.Held

/-!
# Connections and reads of one process

* `World`, `Event`, `World.step` — any number of threads that open, use and drop connections, read
  files and ask; one step is one call of one thread, a thread that begins or ends, somebody else's
  change of the names, or SQLite letting a journal go.
* `Held`, `Fresh`, `Undisturbed` — the files SQLite has open, a number no descriptor holds, and a
  change that leaves the names of a listed database to SQLite.
* `Conditions`, `Reaches`, `follow` — what a run keeps to, runs, and their execution.
-/

set_option autoImplicit false

namespace DedupCommando.OpenDb

/-- What a thread returns. -/
inductive Outcome where
  | opened (connection : Nat)
  | failed (connection : Nat)
  | used (connection : Nat)
  | dropped (connection : Nat)
  | reading (r : Except ReadError ReadFile)
  | closed (done : Bool)
  | answered (yes : Bool)
  | listed (files : List InodeId)

/-- What a thread runs. -/
def program (working : Path) : Op → Prog Outcome
  | .open db => do
    match ← openStore working db with
    | .ok connection => return .opened connection
    | .error connection => return .failed connection
  | .statement connection => do
    let _ ← statement connection
    return .used connection
  | .drop connection => do
    HeldConnection.drop connection
    return .dropped connection
  | .read path => do return .reading (← open_regular_nofollow path)
  | .done file => do return .closed (← file.drop)
  | .probe file => do return .answered (← is_open_database_file file)
  | .refuse path => do return .answered (← refuse_open_database path)
  | .walk => do return .listed (← open_database_files)

abbrev World := Pool Task Call Reply Outcome Shared

inductive Event where
  | begin (t : Task)
  | call (t : Task) (luck : Luck)
  | finish (t : Task)
  | other (disk : Disk)
  | lets (connection : Nat) (sidecar : Nat)

namespace Shared

/-- A connection is used by one thread at a time, and a value is dropped once. -/
def mayBegin (s : Shared) : Op → Bool
  | .statement connection => decide (connection ∈ s.stores)
  | .drop connection => decide (connection ∈ s.stores)
  | .done file => decide (file ∈ s.reads)
  | _ => true

def takeStore (s : Shared) (t : Task) (connection : Nat) : Shared :=
  { s with
    stores := s.stores.filter fun c => decide (c ≠ connection)
    connOwner := Function.update s.connOwner connection (.task t) }

/-- A task takes what it uses with it. -/
def begun (s : Shared) (t : Task) : Shared :=
  match t.op with
  | .statement connection => s.takeStore t connection
  | .drop connection => s.takeStore t connection
  | .done file =>
    { s with
      reads := s.reads.filter fun r => decide (r ≠ file)
      fdOwner := Function.update s.fdOwner file.file (.task t) }
  | _ => s

def keepStore (s : Shared) (connection : Nat) : Shared :=
  { s with
    stores := connection :: s.stores
    connOwner := Function.update s.connOwner connection .value }

/-- What a task has made is the process's. -/
def ended (s : Shared) : Outcome → Shared
  | .opened connection => s.keepStore connection
  | .used connection => s.keepStore connection
  | .reading (.ok file) =>
    { s with
      reads := file :: s.reads
      fdOwner := Function.update s.fdOwner file.file .value }
  | _ => s

/-- SQLite needs a journal, or its index, no more. -/
def lets (s : Shared) (connection sidecar : Nat) : Shared :=
  match s.conns connection with
  | some held =>
    { s with
      conns := Function.update s.conns connection
        (some (held.modify sidecar fun file => (file.1, none))) }
  | none => s

end Shared

def World.step (working : Path) (w : World) : Event → Option World
  | .begin t =>
    match w.threads t with
    | some _ => none
    | none =>
      if w.shared.mayBegin t.op then
        some (w.set t (some (program working t.op)) (w.shared.begun t))
      else none
  | .call t luck =>
    match w.threads t with
    | some (.call c next) =>
      match exec t c luck w.shared with
      | some (r, s) => some (w.set t (some (next r)) s)
      | none => none
    | _ => none
  | .finish t =>
    match w.threads t with
    | some (.done out) => some (w.set t none (w.shared.ended out))
    | _ => none
  | .other disk => some { w with shared := { w.shared with disk } }
  | .lets connection sidecar =>
    some { w with shared := w.shared.lets connection sidecar }

/-! ## What a run keeps to -/

/-- SQLite has the file open for a connection. -/
def Held (s : Shared) (file : InodeId) : Prop :=
  ∃ connection held, s.conns connection = some held ∧ ∃ name, (name, some file) ∈ held

/-- No descriptor of the process holds the number, so that a new file may get it. -/
def Fresh (s : Shared) (file : InodeId) : Prop :=
  ¬Held s file ∧ ∀ fd d, s.fds fd = some d → d.file ≠ file

/-- The names of a database that is being opened, open or being closed are SQLite's: the database
    stays at its name, a journal and its index are removed only when no connection has them
    open, and what comes to a name is a new file. -/
structure Undisturbed (s : Shared) (disk : Disk) : Prop where
  database : ∀ connection name rest file, s.live connection = some (name :: rest) →
    s.disk.lstat name = some file → disk.lstat name = some file
  names : ∀ connection names, s.live connection = some names → ∀ name ∈ names,
    disk.lstat name = s.disk.lstat name ∨
      (∀ file, s.disk.lstat name = some file → ¬Held s file) ∧
        ∀ file, disk.lstat name = some file → Fresh s file

/-- A journal that was noted is the one SQLite opens. -/
def Fitting (s : Shared) (connection sidecar : Nat) : Prop :=
  ∀ held ∈ s.listed, held.connection = connection → ∀ name file,
    held.files[sidecar]? = some (name, some file) → s.disk.lstat name = some file

/-- What the surroundings promise of one call: a look at a name that is there finds it, a
    descriptor that is open can be looked at. -/
def Fits (c : Call) (luck : Luck) (s : Shared) : Prop :=
  match c with
  | .identityAt _ => luck = .plain
  | .fstat _ => luck = .plain
  | .sqliteTouch connection sidecar => luck = .takes → Fitting s connection sidecar
  | _ => True

/-- What the surroundings promise. -/
def Conditions (w : World) : Event → Prop
  | .call t luck =>
    match w.threads t with
    | some (.call c _) => Fits c luck w.shared
    | _ => True
  | .other disk => Undisturbed w.shared disk
  | _ => True

/-- The runs whose every event meets the conditions and whose every state satisfies `P`. -/
def Reaches (working : Path) (P : Shared → Prop) : World → World → Prop :=
  Relation.ReflTransGen fun w w' =>
    ∃ e, Conditions w e ∧ w.step working e = some w' ∧ P w.shared ∧ P w'.shared

/-- A process that has done nothing yet. -/
def World.start (disk : Disk) : World :=
  ⟨{  disk
      listed := []
      next := 0
      readers := []
      writer := none
      fds := fun _ => none
      nextFd := 0
      conns := fun _ => none
      live := fun _ => none
      connOwner := fun _ => .nobody
      fdOwner := fun _ => .nobody
      stores := []
      reads := [] }, fun _ => none⟩

end DedupCommando.OpenDb
