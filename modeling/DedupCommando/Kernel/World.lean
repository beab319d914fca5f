import DedupCommando.Kernel.Filesystem
import DedupCommando.Model.Reclaim

/-!
# The world a batch runs in

A run is one process among others.  `Outside` fixes everything that is not this program's choice:
what other processes do before each of its calls, which calls fail and how, the clock, the numbers
of new inodes, the answers of the pool.  `World` is the state a run threads: the files, the calls
made so far (`log`) and the progress counters shared with the interface.

* `World.perform` — one system call: the others move first, the call is logged, and then it fails
  or does what the kernel does.
* `Keeps` — a relation between filesystems that the other processes stay within.
* `Ran` — what every piece of the program may do to the world: calls of its own action appended to
  the log and nothing else; `Looked` when none of them changes a file.
-/

set_option autoImplicit false

namespace DedupCommando

/-! ## Calls -/

inductive Syscall where
  | lstat (path : Path)
  | identity (path : Path)
  | directory (path : Path)
  | openFile (path : Path)
  | listXattrs (path : Path)
  | getXattr (path : Path) (name : Bytes)
  | createDirAll (path : Path)
  | rename (src dest : Path)
  | link (src dest : Path)
  | clone (src dest : Path)
  | unlink (path : Path)
  | chown (file : InodeId)
  | chmod (file : InodeId)
  | setXattr (file : InodeId) (name : Bytes)
  | utimens (file : InodeId)
  deriving DecidableEq

/-- The call can change a file or a directory. -/
def Syscall.mutates : Syscall → Bool
  | .lstat _ => false
  | .identity _ => false
  | .directory _ => false
  | .openFile _ => false
  | .listXattrs _ => false
  | .getXattr _ _ => false
  | _ => true

/-- `actions::ApplyPhase`. -/
inductive ApplyPhase where
  | snapshots
  | applying
  | done
  deriving DecidableEq, Repr

/-- `preflight::Role`. -/
inductive Role where
  | file
  | directory
  deriving DecidableEq, Repr

/-- `preflight::Probe`: a pathname's standing, read without opening or changing anything. -/
structure Probe where
  readOnly : Bool
  full : Bool
  immutable : Bool
  appendOnly : Bool
  mount : Option Nat
  deriving DecidableEq, Repr

/-- What a run leaves in its log: its calls, with the progress counters they were made under, its
    snapshots and its whole-plan preflights. -/
inductive Event where
  | call (phase : ApplyPhase) (index : Nat) (made : Syscall)
  | snapshot (dataset : String) (made : Bool)
  | preflight (passed : Bool)
  deriving DecidableEq

/-- Everything about a run that is not this program's choice.  `others n` is what other processes
    do before the program's `n`-th call, `fault n` whether that call fails.  A rename's faults
    include the refusals of `rename_noreplace` to move the open database or the lock file. -/
structure Outside where
  others : Nat → Filesystem → Filesystem
  fault : Nat → Syscall → Option IoError
  now : Nat → Timespec
  inode : Nat → Nat
  creator : Filesystem.Creator
  directory : Nat → Path → Bool
  probe : Nat → Path → Role → Probe
  cancelled : Nat → Bool
  snapshot : Nat → String → Name → Except AppError String
  localTime : Nat → Name
  nanos : Nat → Nat
  pid : Nat
  hash : Bytes → Bytes

structure World where
  outside : Outside
  fs : Filesystem
  tick : Nat
  log : List Event
  phase : ApplyPhase
  index : Nat
  bytesDone : Nat
  snapshotSeq : Nat
  stagingSeq : Nat

namespace World

/-- The moment a call is made: the other processes have moved, and the call is in the log. -/
def enter (w : World) (c : Syscall) : World :=
  { w with
    fs := w.outside.others w.tick w.fs
    tick := w.tick + 1
    log := w.log ++ [.call w.phase w.index c] }

/-- One system call. -/
def perform {α : Type} (c : Syscall) (op : Filesystem → Except IoError (α × Filesystem))
    (w : World) : Except IoError α × World :=
  match w.outside.fault w.tick c with
  | some e => (.error e, w.enter c)
  | none =>
    match op (w.enter c).fs with
    | .error e => (.error e, w.enter c)
    | .ok (a, fs) => (.ok a, { w.enter c with fs := fs })

def now (w : World) : Timespec := w.outside.now w.tick

/-- `symlink_metadata`. -/
def lstat (p : Path) (w : World) : Except IoError (InodeId × Node) × World :=
  w.perform (.lstat p) (Filesystem.lstat p)

/-- `symlink_metadata` for a file's identity alone. -/
def stat (p : Path) (w : World) : Except IoError (InodeId × Node) × World :=
  w.perform (.identity p) (Filesystem.lstat p)

/-- `symlink_metadata(p).is_ok_and(|meta| meta.is_dir())`. -/
def isDir (p : Path) (w : World) : Bool × World :=
  (w.outside.directory w.tick p, w.enter (.directory p))

def openFile (p : Path) (w : World) : Except IoError (InodeId × Node) × World :=
  w.perform (.openFile p) (Filesystem.openFile p)

def listXattrs (p : Path) (room : Nat) (w : World) : Except IoError Bytes × World :=
  w.perform (.listXattrs p) (Filesystem.listXattrs p room)

def getXattr (p : Path) (name : Bytes) (room : Nat) (w : World) : Except IoError Bytes × World :=
  w.perform (.getXattr p name) (Filesystem.getXattr p name room)

def createDirAll (p : Path) (w : World) : Except IoError Unit × World :=
  w.perform (.createDirAll p) fun fs => .ok ((), fs)

/-- `move_file::rename_noreplace`. -/
def renameNoreplace (src dest : Path) (w : World) : Except IoError Unit × World :=
  w.perform (.rename src dest) (Filesystem.rename w.now src dest)

def hardLink (src dest : Path) (w : World) : Except IoError Unit × World :=
  w.perform (.link src dest) (Filesystem.link w.now src dest)

def cloneFile (src dest : Path) (w : World) : Except IoError Unit × World :=
  w.perform (.clone src dest)
    (Filesystem.clone w.now w.outside.creator (w.outside.inode w.tick) src dest)

def removeFile (p : Path) (w : World) : Except IoError Unit × World :=
  w.perform (.unlink p) (Filesystem.unlink w.now p)

def chown (i : InodeId) (uid gid : Nat) (w : World) : Except IoError Unit × World :=
  w.perform (.chown i) (Filesystem.chown w.now i uid gid)

def chmod (i : InodeId) (mode : Nat) (w : World) : Except IoError Unit × World :=
  w.perform (.chmod i) (Filesystem.chmod w.now i mode)

def setXattr (i : InodeId) (name value : Bytes) (w : World) : Except IoError Unit × World :=
  w.perform (.setXattr i name) (Filesystem.setXattr w.now i name value)

def utimens (i : InodeId) (atime mtime : Timespec) (w : World) : Except IoError Unit × World :=
  w.perform (.utimens i) (Filesystem.utimens w.now i atime mtime)

/-- A moment between two calls in which other processes may move. -/
def pause (w : World) : World :=
  { w with fs := w.outside.others w.tick w.fs, tick := w.tick + 1 }

/-- `ApplyOps::probe`. -/
def probe (p : Path) (role : Role) (w : World) : Probe × World :=
  (w.outside.probe w.tick p role, w.pause)

/-! ## What a call does -/

/-- A call either fails, changing nothing, or does what the kernel does. -/
theorem perform_cases {α : Type} (c : Syscall)
    (op : Filesystem → Except IoError (α × Filesystem)) (w : World) :
    (∃ e, w.perform c op = (.error e, w.enter c) ∧
        (w.outside.fault w.tick c = some e ∨
          w.outside.fault w.tick c = none ∧ op (w.enter c).fs = .error e)) ∨
      ∃ a fs, w.perform c op = (.ok a, { w.enter c with fs := fs }) ∧
        w.outside.fault w.tick c = none ∧ op (w.enter c).fs = .ok (a, fs) := by
  unfold perform
  cases hf : w.outside.fault w.tick c with
  | some e => exact .inl ⟨e, rfl, .inl rfl⟩
  | none =>
    cases hop : op (w.enter c).fs with
    | error e => exact .inl ⟨e, rfl, .inr ⟨rfl, rfl⟩⟩
    | ok r => exact .inr ⟨r.1, r.2, rfl, rfl, rfl⟩

/-! ## What other processes leave alone -/

/-- A relation between filesystems that composes and that other processes stay within. -/
structure Keeps (o : Outside) (R : Filesystem → Filesystem → Prop) : Prop where
  refl : ∀ fs, R fs fs
  trans : ∀ {a b c}, R a b → R b c → R a c
  others : ∀ n fs, R fs (o.others n fs)

theorem Keeps.enter {w : World} {R : Filesystem → Filesystem → Prop} (h : Keeps w.outside R)
    (c : Syscall) : R w.fs (w.enter c).fs := h.others w.tick w.fs

theorem Keeps.pause {w : World} {R : Filesystem → Filesystem → Prop} (h : Keeps w.outside R) :
    R w.fs w.pause.fs := h.others w.tick w.fs

/-- A call under such a relation: failing, it stays within it; succeeding, it is the kernel's
    operation on a filesystem within it. -/
theorem Keeps.perform {w : World} {R : Filesystem → Filesystem → Prop} (h : Keeps w.outside R)
    {α : Type} (c : Syscall) (op : Filesystem → Except IoError (α × Filesystem)) :
    (∃ e, (w.perform c op).1 = .error e ∧ R w.fs (w.perform c op).2.fs) ∨
      ∃ a fs₁, (w.perform c op).1 = .ok a ∧ R w.fs fs₁ ∧
        op fs₁ = .ok (a, (w.perform c op).2.fs) := by
  rcases w.perform_cases c op with ⟨e, hp, -⟩ | ⟨a, fs, hp, -, hop⟩
  · rw [hp]; exact .inl ⟨e, rfl, h.enter c⟩
  · rw [hp]; exact .inr ⟨a, (w.enter c).fs, rfl, h.enter c, hop⟩

/-! ## What a piece of the program leaves alone -/

/-- The world after some of the program's own calls: the log grew by them, under the counters they
    were made with, and nothing that is not theirs moved but for the bytes hashed. -/
structure Traced (w w' : World) : Prop where
  outside : w'.outside = w.outside
  phase : w'.phase = w.phase
  index : w'.index = w.index
  log : ∃ calls : List Syscall, w'.log = w.log ++ calls.map (.call w.phase w.index)

/-- The same, with no call that can change a file: other processes are all that moved. -/
structure Read (w w' : World) : Prop extends Traced w w' where
  quiet : ∃ calls : List Syscall, (∀ c ∈ calls, c.mutates = false) ∧
    w'.log = w.log ++ calls.map (.call w.phase w.index)
  keeps : ∀ R, Keeps w.outside R → R w.fs w'.fs

/-- No content is hashed. -/
structure Ran (w w' : World) : Prop extends Traced w w' where
  bytes : w'.bytesDone = w.bytesDone

structure Looked (w w' : World) : Prop extends Read w w', Ran w w'

theorem Traced.refl (w : World) : Traced w w := ⟨rfl, rfl, rfl, [], by simp⟩

theorem Traced.trans {w₁ w₂ w₃ : World} (h₁ : Traced w₁ w₂) (h₂ : Traced w₂ w₃) :
    Traced w₁ w₃ := by
  obtain ⟨calls₁, hlog₁⟩ := h₁.log
  obtain ⟨calls₂, hlog₂⟩ := h₂.log
  refine ⟨h₂.outside.trans h₁.outside, h₂.phase.trans h₁.phase, h₂.index.trans h₁.index,
    calls₁ ++ calls₂, ?_⟩
  rw [hlog₂, hlog₁, h₁.phase, h₁.index, List.map_append, List.append_assoc]

theorem Traced.keeps {w w' : World} (h : Traced w w') {R : Filesystem → Filesystem → Prop}
    (hk : Keeps w.outside R) : Keeps w'.outside R := by
  rw [h.outside]; exact hk

theorem Read.trans {w₁ w₂ w₃ : World} (h₁ : Read w₁ w₂) (h₂ : Read w₂ w₃) : Read w₁ w₃ := by
  obtain ⟨calls₁, hq₁, hlog₁⟩ := h₁.quiet
  obtain ⟨calls₂, hq₂, hlog₂⟩ := h₂.quiet
  refine ⟨h₁.toTraced.trans h₂.toTraced, ⟨calls₁ ++ calls₂, fun c hc => ?_, ?_⟩, fun R hk => ?_⟩
  · rcases List.mem_append.1 hc with hc | hc
    · exact hq₁ c hc
    · exact hq₂ c hc
  · rw [hlog₂, hlog₁, h₁.phase, h₁.index, List.map_append, List.append_assoc]
  · exact hk.trans (h₁.keeps R hk) (h₂.keeps R (h₁.toTraced.keeps hk))

theorem Ran.refl (w : World) : Ran w w := ⟨Traced.refl w, rfl⟩

theorem Ran.trans {w₁ w₂ w₃ : World} (h₁ : Ran w₁ w₂) (h₂ : Ran w₂ w₃) : Ran w₁ w₃ :=
  ⟨h₁.toTraced.trans h₂.toTraced, h₂.bytes.trans h₁.bytes⟩

theorem Looked.trans {w₁ w₂ w₃ : World} (h₁ : Looked w₁ w₂) (h₂ : Looked w₂ w₃) :
    Looked w₁ w₃ :=
  ⟨h₁.toRead.trans h₂.toRead, h₂.bytes.trans h₁.bytes⟩

/-- Counters of the program's own that no file and no log knows. -/
theorem Read.of_eq {w w' : World} (houtside : w'.outside = w.outside) (hphase : w'.phase = w.phase)
    (hindex : w'.index = w.index) (hlog : w'.log = w.log) (hfs : w'.fs = w.fs) : Read w w' :=
  ⟨⟨houtside, hphase, hindex, [], by simp [hlog]⟩, ⟨[], by simp, by simp [hlog]⟩,
    fun _ hk => by rw [hfs]; exact hk.refl _⟩

theorem Looked.refl (w : World) : Looked w w := ⟨Read.of_eq rfl rfl rfl rfl rfl, rfl⟩

theorem enter_ran (c : Syscall) (w : World) : Ran w (w.enter c) := ⟨⟨rfl, rfl, rfl, [c], rfl⟩, rfl⟩

theorem enter_looked {c : Syscall} (hc : c.mutates = false) (w : World) : Looked w (w.enter c) :=
  ⟨⟨(enter_ran c w).toTraced, ⟨[c], by simpa using hc, rfl⟩, fun _ hk => hk.enter c⟩, rfl⟩

theorem perform_ran {α : Type} (c : Syscall)
    (op : Filesystem → Except IoError (α × Filesystem)) (w : World) :
    Ran w (w.perform c op).2 := by
  rcases w.perform_cases c op with ⟨e, h, -⟩ | ⟨a, fs, h, -⟩
  · rw [h]; exact enter_ran c w
  · rw [h]; exact ⟨⟨rfl, rfl, rfl, [c], rfl⟩, rfl⟩

theorem perform_looked {α : Type} {c : Syscall} (hc : c.mutates = false)
    {op : Filesystem → Except IoError (α × Filesystem)}
    (hop : ∀ fs a fs', op fs = .ok (a, fs') → fs' = fs) (w : World) :
    Looked w (w.perform c op).2 := by
  rcases w.perform_cases c op with ⟨e, h, -⟩ | ⟨a, fs, h, -, hfs⟩
  · rw [h]; exact enter_looked hc w
  · rw [h]
    refine ⟨⟨⟨rfl, rfl, rfl, [c], rfl⟩, ⟨[c], by simpa using hc, rfl⟩, fun R hk => ?_⟩, rfl⟩
    rw [show ({ w.enter c with fs := fs } : World).fs = (w.enter c).fs from hop _ a fs hfs]
    exact hk.enter c

theorem lstat_looked (p : Path) (w : World) : Looked w (w.lstat p).2 :=
  perform_looked rfl (fun _ _ _ h => (Filesystem.lstat_ok h).1) w

theorem stat_looked (p : Path) (w : World) : Looked w (w.stat p).2 :=
  perform_looked rfl (fun _ _ _ h => (Filesystem.lstat_ok h).1) w

theorem openFile_looked (p : Path) (w : World) : Looked w (w.openFile p).2 :=
  perform_looked rfl (fun _ _ _ h => (Filesystem.openFile_ok h).1) w

theorem listXattrs_looked (p : Path) (room : Nat) (w : World) : Looked w (w.listXattrs p room).2 :=
  perform_looked rfl (fun _ _ _ h => (Filesystem.listXattrs_ok h).1) w

theorem getXattr_looked (p : Path) (name : Bytes) (room : Nat) (w : World) :
    Looked w (w.getXattr p name room).2 :=
  perform_looked rfl (fun _ _ _ h => (Filesystem.getXattr_ok h).1) w

theorem pause_looked (w : World) : Looked w w.pause :=
  ⟨⟨⟨rfl, rfl, rfl, [], by simp [pause]⟩, ⟨[], by simp, by simp [pause]⟩, fun _ hk => hk.pause⟩,
    rfl⟩

end World

end DedupCommando
