import DedupCommando.Lock.Instance

/-!
# Processes over one state directory

* `World`, `Event`, `World.step` — any number of processes, each with any number of threads; one
  step is one call of one thread, a thread that begins or ends, somebody else's change of the
  tree, or the end of a process.
* `Undisturbed` — a change of the tree that renames and removes neither the lock file nor a
  directory above it; `Undertaken` — what the system's surroundings promise.
* `SameWay`, `NoDirectoryThere`, `Seen` — what else a run may keep to while it renames.
* `Reaches`, `follow` — runs whose every event satisfies a condition, and their execution.
-/

set_option autoImplicit false

namespace DedupCommando.Lock

/-- What a thread returns. -/
inductive Outcome where
  | acquired (r : Except LockError Acquire)
  | released
  | named (entry : Nat)
  | unnamed
  | renamed (r : Renamed)

/-- What a thread runs. -/
def program (state_dir : Path) : Op → Prog Outcome
  | .acquire => do return .acquired (← try_acquire state_dir)
  | .release lock => do
    lock.drop
    return .released
  | .name => do return .named (← LockName.in_dir state_dir)
  | .unname entry => do
    LockName.drop entry
    return .unnamed
  | .rename src dest _ => do return .renamed (← rename_noreplace src dest)

abbrev World := Pool Task Call Reply Outcome Shared

inductive Event where
  | begin (t : Task)
  | call (t : Task) (luck : Luck)
  | finish (t : Task)
  | other (tree : Tree)
  | exit (p : Pid)

namespace Shared

/-- A value is dropped once, by who holds it. -/
def mayBegin (s : Shared) (t : Task) : Bool :=
  match t.op with
  | .release lock => decide (lock ∈ (s.processes t.pid).locks)
  | .unname entry => decide (entry ∈ (s.processes t.pid).names)
  | _ => true

def giveFd (s : Shared) (fd : Fd) (o : Owner) : Shared :=
  { s with fdOwner := Function.update s.fdOwner fd o }

/-- A task takes what it drops with it. -/
def begun (s : Shared) (t : Task) : Shared :=
  match t.op with
  | .release lock =>
    ((s.setProcess t.pid fun q => { q with locks := q.locks.filter fun l => decide (l ≠ lock) }).giveFd
      lock.file (.task t)).giveEntry t.pid lock.entry (.task t)
  | .unname entry =>
    (s.setProcess t.pid fun q =>
      { q with names := q.names.filter fun e => decide (e ≠ entry) }).giveEntry
        t.pid entry (.task t)
  | _ => s

/-- What a task has made is its process's. -/
def ended (s : Shared) (t : Task) : Outcome → Shared
  | .acquired (.ok (.operator lock)) =>
    ((s.setProcess t.pid fun q => { q with locks := lock :: q.locks }).giveFd
      lock.file (.lock lock.entry t.pid)).giveEntry t.pid lock.entry (.lock lock.entry t.pid)
  | .named entry =>
    (s.setProcess t.pid fun q => { q with names := entry :: q.names }).giveEntry
      t.pid entry (.lockName t.pid)
  | _ => s

end Shared

/-- The end of a process: its descriptors are closed, its list is gone. -/
def Shared.exited (s : Shared) (p : Pid) : Shared :=
  { s with
    descriptions := fun fd => if (s.fdOwner fd).isOf p then none else s.descriptions fd
    flocks := fun i =>
      match s.flocks i with
      | some fd => if (s.fdOwner fd).isOf p then none else some fd
      | none => none
    processes := Function.update s.processes p
      { s.processes p with
        listed := [], nextEntry := 0, readers := [], writer := none, locks := [], names := [] }
    fdOwner := fun fd => if (s.fdOwner fd).isOf p then .nobody else s.fdOwner fd
    entryOwner := fun q e => if q = p then .nobody else s.entryOwner q e }

def World.step (state_dir : Path) (w : World) : Event → Option World
  | .begin t =>
    match w.threads t with
    | some _ => none
    | none =>
      if w.shared.mayBegin t then some (w.set t (some (program state_dir t.op)) (w.shared.begun t))
      else none
  | .call t luck =>
    match w.threads t with
    | some (.call c next) =>
      match exec t c luck w.shared with
      | some (r, s) => some (w.set t (some (next r)) s)
      | none => none
    | _ => none
  | .finish t =>
    match w.threads t with
    | some (.done out) => some (w.set t none (w.shared.ended t out))
    | _ => none
  | .other tree => some { w with shared := { w.shared with tree } }
  | .exit p =>
    some ⟨w.shared.exited p, fun t => if t.pid = p then none else w.threads t⟩

/-! ## What a run keeps to -/

/-- The regular file at the lock name of the state directory. -/
def lockFile (names : List Name) (tree : Tree) : Option InodeId :=
  match tree.descend tree.root names with
  | none => none
  | some d =>
    match tree.entry d LOCK_FILE with
    | none => none
    | some i => if tree.isRegular i then some i else none

/-- Neither the lock file nor a directory above it is renamed or removed. -/
def Undisturbed (names : List Name) (tree tree' : Tree) : Prop :=
  tree'.root = tree.root ∧
  (∀ front ∈ names.inits, (tree.descend tree.root front).isSome →
    tree'.descend tree'.root front = tree.descend tree.root front) ∧
  ((lockFile names tree).isSome → lockFile names tree' = lockFile names tree)

instance (names : List Name) (tree tree' : Tree) : Decidable (Undisturbed names tree tree') :=
  inferInstanceAs (Decidable (_ ∧ _ ∧ _))

/-- The call a task is about to make. -/
def World.nextCall (w : World) (t : Task) : Option Call :=
  match w.threads t with
  | some (.call c _) => some c
  | _ => none

/-- Others leave the lock file and the directories above it alone, and a process keeps a
    `LockName` while it renames. -/
def Undertaken (names : List Name) (w : World) : Event → Bool
  | .other tree => decide (Undisturbed names w.shared.tree tree)
  | .call t _ =>
    match t.op with
    | .rename _ _ _ => !(w.shared.processes t.pid).names.isEmpty
    | _ => true
  | _ => true

/-- The source of a rename lies in one directory throughout the call. -/
def SameWay (w : World) : Event → Bool
  | .call t _ =>
    match t.op with
    | .rename src _ way =>
      decide ((w.shared.tree.wayTo (w.shared.processes t.pid).cwd src).toOption = way)
    | _ => true
  | _ => true

/-- No rename is asked for of a directory that lies at the lock name. -/
def NoDirectoryThere (names : List Name) (w : World) : Event → Bool
  | .call t _ =>
    match w.nextCall t with
    | some (.look path) =>
      match w.shared.tree.lstat (w.shared.processes t.pid).cwd path,
          w.shared.tree.descend w.shared.tree.root names with
      | .ok i, some d =>
        !(w.shared.tree.isDirectory i && decide (w.shared.tree.entry d LOCK_FILE = some i))
      | _, _ => true
    | _ => true
  | _ => true

/-- A directory asked about by the question is found when it is there. -/
def Seen (w : World) : Event → Bool
  | .call t luck =>
    match w.nextCall t with
    | some (.identityAt _) => decide (luck = .plain)
    | some (.statDot _) => decide (luck = .plain)
    | _ => true
  | _ => true

/-- The runs whose every event satisfies `P`. -/
def Reaches (state_dir : Path) (P : World → Event → Bool) : World → World → Prop :=
  Relation.ReflTransGen fun w w' => ∃ e, P w e = true ∧ w.step state_dir e = some w'

/-- One run, executed. -/
def follow (state_dir : Path) (P : World → Event → Bool) : List Event → World → Option World
  | [], w => some w
  | e :: es, w =>
    if P w e then
      match w.step state_dir e with
      | some w' => follow state_dir P es w'
      | none => none
    else none

theorem reaches_of_follow {state_dir : Path} {P : World → Event → Bool} {w' : World} :
    ∀ {es : List Event} {w : World}, follow state_dir P es w = some w' →
      Reaches state_dir P w w'
  | [], w, h => by
    cases h
    exact .refl
  | e :: es, w, h => by
    simp only [follow] at h
    split at h
    · rename_i hP
      split at h
      · rename_i w₁ hstep
        exact .head ⟨e, hP, hstep⟩ (reaches_of_follow h)
      · cases h
    · cases h

/-- A process that has done nothing yet. -/
def freshProcess (cwd : InodeId) (working : Path) : Process :=
  ⟨cwd, working, [], 0, [], none, [], []⟩

/-- No process has done anything yet. -/
def World.start (tree : Tree) (cwds : Pid → InodeId × Path) : World :=
  ⟨{  tree
      descriptions := fun _ => none
      nextFd := 0
      flocks := fun _ => none
      processes := fun p => freshProcess (cwds p).1 (cwds p).2
      fdOwner := fun _ => .nobody
      entryOwner := fun _ _ => .nobody }, fun _ => none⟩

end DedupCommando.Lock
