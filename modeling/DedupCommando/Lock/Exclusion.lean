import DedupCommando.Lock.Programs

/-!
# One operator at a time

* `begun_step`, `ended_step`, `exited_step` — values passing between tasks and processes.
* `ordered_step` — one event keeps every thread safe among the others.
* `operator_lock` — **in every run that keeps to its conditions one process at most holds the
  lock, and the lock's file is the one at the lock name.**
* `not_operator_lock` — three runs that each break one condition and end with two holders.
-/

set_option autoImplicit false

namespace DedupCommando.Lock

open Program (Safe)

variable {names : List Name} {s : Shared}

/-! ## The system -/

section System

variable {tree₀ : Tree} {t : Task} {sd : InodeId}

/-- **Two locks held are one.** -/
theorem Inv.unique (hs : Inv names tree₀ s) {p q : Pid} {l m : InstanceLock}
    (hl : l ∈ (s.processes p).locks) (hm : m ∈ (s.processes q).locks) : p = q ∧ l = m := by
  obtain ⟨-, hlfd, -, d, hd, hdreg, hdlock, -⟩ := hs.locks p l hl
  obtain ⟨-, hmfd, -, e, he, hereg, helock, -⟩ := hs.locks q m hm
  -- both are on the file at the lock name
  have hfile : d.file = e.file :=
    Option.some.inj ((hs.found _ d hd hdreg).symm.trans (hs.found _ e he hereg))
  have hfd : l.file = m.file := by
    rw [hfile, helock] at hdlock
    exact (Option.some.inj hdlock).symm
  rw [hfd, hmfd, Owner.lock.injEq] at hlfd
  obtain ⟨hentry, hpq⟩ := hlfd
  refine ⟨hpq.symm, ?_⟩
  cases l
  cases m
  simp_all

theorem keeps_give {f : Process → Process} {p : Pid} {fd : Fd} {e : Nat} {o v : Owner}
    (hlisted : ∀ q, (f q).listed = q.listed) (hfd : s.fdOwner fd ≠ o)
    (he : s.entryOwner p e ≠ o) :
    Keeps o s (((s.setProcess p f).giveFd fd v).giveEntry p e v) := by
  refine ⟨fun fd' hfd' => ⟨?_, rfl, fun _ hi => hi⟩, fun q e' _ he' => ⟨?_, ?_⟩⟩
  · have hne : fd' ≠ fd := by
      rintro rfl
      exact hfd hfd'
    simpa [Shared.giveEntry, Shared.giveFd, Shared.setProcess, hne] using hfd'
  · have hne : ¬ (q = p ∧ e' = e) := by
      rintro ⟨rfl, rfl⟩
      exact he he'
    simpa [Shared.giveEntry, Shared.giveFd, Shared.setProcess, hne] using he'
  · intro kept hkept _
    by_cases hq : q = p
    · subst hq
      simpa [Shared.giveEntry, Shared.giveFd, Shared.setProcess, hlisted] using hkept
    · simpa [Shared.giveEntry, Shared.giveFd, Shared.setProcess, hq] using hkept

theorem keeps_giveEntry {f : Process → Process} {p : Pid} {e : Nat} {o v : Owner}
    (hlisted : ∀ q, (f q).listed = q.listed) (he : s.entryOwner p e ≠ o) :
    Keeps o s ((s.setProcess p f).giveEntry p e v) := by
  refine ⟨fun fd' hfd' => ⟨hfd', rfl, fun _ hi => hi⟩, fun q e' _ he' => ⟨?_, ?_⟩⟩
  · have hne : ¬ (q = p ∧ e' = e) := by
      rintro ⟨rfl, rfl⟩
      exact he he'
    simpa [Shared.giveEntry, Shared.setProcess, hne] using he'
  · intro kept hkept _
    by_cases hq : q = p
    · subst hq
      simpa [Shared.giveEntry, Shared.setProcess, hlisted] using hkept
    · simpa [Shared.giveEntry, Shared.setProcess, hq] using hkept

theorem begun_step (hs : Inv names tree₀ s) (h : s.mayBegin t = true) :
    Inv names tree₀ (s.begun t) ∧ (∀ j, Keeps (.task j) s (s.begun t)) ∧ Ready t (s.begun t) := by
  unfold Shared.mayBegin at h
  unfold Shared.begun Ready
  cases hop : t.op with
  | acquire => exact ⟨hs, fun j => (Agrees.refl s).keeps _, trivial⟩
  | name => exact ⟨hs, fun j => (Agrees.refl s).keeps _, trivial⟩
  | rename src dest way => exact ⟨hs, fun j => (Agrees.refl s).keeps _, trivial⟩
  | release lock =>
    rw [hop] at h
    have hmem : lock ∈ (s.processes t.pid).locks := of_decide_eq_true h
    have hholds := hs.locks _ _ hmem
    have hother : ∀ o, o ≠ .lock lock.entry t.pid → Keeps o s _ := fun o ho =>
      keeps_give (f := fun q =>
        { q with locks := q.locks.filter fun l => decide (l ≠ lock) }) (v := .task t)
        (fun _ => rfl) (fun h => ho (h.symm.trans hholds.fd)) fun h =>
          ho (h.symm.trans hholds.entry)
    refine ⟨⟨hs.way, hs.found, ?_, ?_, ?_, ?_⟩, fun j => hother _ fun h => Owner.noConfusion h,
      ?_, ?_⟩
    · intro fd hfd
      have hne : fd ≠ lock.file := by
        rintro rfl
        exact Owner.noConfusion ((hs.fresh _ hfd).symm.trans hholds.fd)
      simpa [Shared.giveEntry, Shared.giveFd, Shared.setProcess, hne] using hs.fresh fd hfd
    · intro p e he
      have he' : (s.processes p).nextEntry ≤ e := by
        by_cases hp : p = t.pid
        · subst hp
          simpa [Shared.giveEntry, Shared.giveFd, Shared.setProcess] using he
        · simpa [Shared.giveEntry, Shared.giveFd, Shared.setProcess, hp] using he
      have hne : ¬ (p = t.pid ∧ e = lock.entry) := by
        rintro ⟨rfl, rfl⟩
        exact Owner.noConfusion ((hs.numbers _ _ he').symm.trans hholds.entry)
      simpa [Shared.giveEntry, Shared.giveFd, Shared.setProcess, hne] using hs.numbers p e he'
    · -- the lock that is dropped was the only one
      intro p l hl
      exfalso
      by_cases hp : p = t.pid
      · subst hp
        simp only [Shared.giveEntry, Shared.giveFd, Shared.setProcess, Function.update_self,
          List.mem_filter, decide_eq_true_eq] at hl
        exact hl.2 (hs.unique hl.1 hmem).2
      · simp only [Shared.giveEntry, Shared.giveFd, Shared.setProcess,
          Function.update_of_ne hp] at hl
        exact hp (hs.unique hl hmem).1
    · intro p e he
      refine (hs.names p e ?_).keeps (hother _ fun h => Owner.noConfusion h)
      by_cases hp : p = t.pid
      · subst hp
        simpa [Shared.giveEntry, Shared.giveFd, Shared.setProcess] using he
      · simpa [Shared.giveEntry, Shared.giveFd, Shared.setProcess, hp] using he
    · simp [Shared.giveEntry, Shared.giveFd]
    · simp [Shared.giveEntry]
  | unname entry =>
    rw [hop] at h
    have hmem : entry ∈ (s.processes t.pid).names := of_decide_eq_true h
    have hnames := hs.names _ _ hmem
    have hother : ∀ o, o ≠ .lockName t.pid → Keeps o s _ := fun o ho =>
      keeps_giveEntry (f := fun q =>
        { q with names := q.names.filter fun e => decide (e ≠ entry) }) (v := .task t)
        (fun _ => rfl) fun h => ho (h.symm.trans hnames.entry)
    refine ⟨⟨hs.way, hs.found, hs.fresh, ?_, ?_, ?_⟩,
      fun j => hother _ fun h => Owner.noConfusion h, by simp [Shared.giveEntry]⟩
    · intro p e he
      have he' : (s.processes p).nextEntry ≤ e := by
        by_cases hp : p = t.pid
        · subst hp
          simpa [Shared.giveEntry, Shared.setProcess] using he
        · simpa [Shared.giveEntry, Shared.setProcess, hp] using he
      have hne : ¬ (p = t.pid ∧ e = entry) := by
        rintro ⟨rfl, rfl⟩
        exact Owner.noConfusion ((hs.numbers _ _ he').symm.trans hnames.entry)
      simpa [Shared.giveEntry, Shared.setProcess, hne] using hs.numbers p e he'
    · intro p l hl
      refine (hs.locks p l ?_).keeps (hother _ fun h => Owner.noConfusion h)
      by_cases hp : p = t.pid
      · subst hp
        simpa [Shared.giveEntry, Shared.setProcess] using hl
      · simpa [Shared.giveEntry, Shared.setProcess, hp] using hl
    · intro p e he
      have hold : e ∈ (s.processes p).names ∧ ¬ (p = t.pid ∧ e = entry) := by
        by_cases hp : p = t.pid
        · subst hp
          simpa [Shared.giveEntry, Shared.setProcess] using he
        · simpa [Shared.giveEntry, Shared.setProcess, hp] using he
      obtain ⟨hown, hentry, kept, hkept, hke, hname⟩ := hs.names p e hold.1
      refine ⟨hown, ?_, kept, ?_, hke, hname⟩
      · simpa [Shared.giveEntry, Shared.setProcess, hold.2] using hentry
      · by_cases hp : p = t.pid
        · subst hp
          simpa [Shared.giveEntry, Shared.setProcess] using hkept
        · simpa [Shared.giveEntry, Shared.setProcess, hp] using hkept

theorem ended_step (hs : Inv names tree₀ s) {out : Outcome} (h : Result names t out s) :
    Inv names tree₀ (s.ended t out) ∧ ∀ j, j ≠ t → Keeps (.task j) s (s.ended t out) := by
  unfold Shared.ended
  split
  · rename_i lock
    have hholds := h.lock lock rfl
    have hother : ∀ o, o ≠ .task t → Keeps o s _ := fun o ho =>
      keeps_give (f := fun q => { q with locks := lock :: q.locks })
        (v := .lock lock.entry t.pid) (fun _ => rfl) (fun h => ho (h.symm.trans hholds.fd))
        fun h => ho (h.symm.trans hholds.entry)
    refine ⟨⟨hs.way, hs.found, ?_, ?_, ?_, ?_⟩,
      fun j hj => hother _ fun h => hj (Owner.task.inj h)⟩
    · intro fd hfd
      have hne : fd ≠ lock.file := by
        rintro rfl
        exact Owner.noConfusion ((hs.fresh _ hfd).symm.trans hholds.fd)
      simpa [Shared.giveEntry, Shared.giveFd, Shared.setProcess, hne] using hs.fresh fd hfd
    · intro p e he
      have he' : (s.processes p).nextEntry ≤ e := by
        by_cases hp : p = t.pid
        · subst hp
          simpa [Shared.giveEntry, Shared.giveFd, Shared.setProcess] using he
        · simpa [Shared.giveEntry, Shared.giveFd, Shared.setProcess, hp] using he
      have hne : ¬ (p = t.pid ∧ e = lock.entry) := by
        rintro ⟨rfl, rfl⟩
        exact Owner.noConfusion ((hs.numbers _ _ he').symm.trans hholds.entry)
      simpa [Shared.giveEntry, Shared.giveFd, Shared.setProcess, hne] using hs.numbers p e he'
    · intro p l hl
      by_cases hp : p = t.pid
      · subst hp
        simp only [Shared.giveEntry, Shared.giveFd, Shared.setProcess, Function.update_self,
          List.mem_cons] at hl
        rcases hl with rfl | hl
        · obtain ⟨d, hd, hreg, hflock, kept, hkept, hke, hname, hfile⟩ := hholds.locked
          refine ⟨by simp [Owner.isOf], by simp [Shared.giveEntry, Shared.giveFd],
            by simp [Shared.giveEntry], d, hd, hreg, hflock, kept, ?_, hke, hname, hfile⟩
          simpa [Shared.giveEntry, Shared.giveFd, Shared.setProcess] using hkept
        · exact (hs.locks _ l hl).keeps (hother _ fun h => Owner.noConfusion h)
      · simp only [Shared.giveEntry, Shared.giveFd, Shared.setProcess,
          Function.update_of_ne hp] at hl
        exact (hs.locks p l hl).keeps (hother _ fun h => Owner.noConfusion h)
    · intro p e he
      refine (hs.names p e ?_).keeps (hother _ fun h => Owner.noConfusion h)
      by_cases hp : p = t.pid
      · subst hp
        simpa [Shared.giveEntry, Shared.giveFd, Shared.setProcess] using he
      · simpa [Shared.giveEntry, Shared.giveFd, Shared.setProcess, hp] using he
  · rename_i entry
    have hnames := h.name entry rfl
    have hother : ∀ o, o ≠ .task t → Keeps o s _ := fun o ho =>
      keeps_giveEntry (f := fun q => { q with names := entry :: q.names }) (v := .lockName t.pid)
        (fun _ => rfl) fun h => ho (h.symm.trans hnames.entry)
    refine ⟨⟨hs.way, hs.found, hs.fresh, ?_, ?_, ?_⟩,
      fun j hj => hother _ fun h => hj (Owner.task.inj h)⟩
    · intro p e he
      have he' : (s.processes p).nextEntry ≤ e := by
        by_cases hp : p = t.pid
        · subst hp
          simpa [Shared.giveEntry, Shared.setProcess] using he
        · simpa [Shared.giveEntry, Shared.setProcess, hp] using he
      have hne : ¬ (p = t.pid ∧ e = entry) := by
        rintro ⟨rfl, rfl⟩
        exact Owner.noConfusion ((hs.numbers _ _ he').symm.trans hnames.entry)
      simpa [Shared.giveEntry, Shared.setProcess, hne] using hs.numbers p e he'
    · intro p l hl
      refine (hs.locks p l ?_).keeps (hother _ fun h => Owner.noConfusion h)
      by_cases hp : p = t.pid
      · subst hp
        simpa [Shared.giveEntry, Shared.setProcess] using hl
      · simpa [Shared.giveEntry, Shared.setProcess, hp] using hl
    · intro p e he
      by_cases hp : p = t.pid
      · subst hp
        simp only [Shared.giveEntry, Shared.setProcess, Function.update_self, List.mem_cons] at he
        rcases he with rfl | he
        · obtain ⟨kept, hkept, hke, hname⟩ := hnames.listed
          refine ⟨by simp [Owner.isOf], by simp [Shared.giveEntry], kept, ?_, hke, hname⟩
          simpa [Shared.giveEntry, Shared.setProcess] using hkept
        · exact (hs.names _ e he).keeps (hother _ fun h => Owner.noConfusion h)
      · simp only [Shared.giveEntry, Shared.setProcess, Function.update_of_ne hp] at he
        exact (hs.names p e he).keeps (hother _ fun h => Owner.noConfusion h)
  · exact ⟨hs, fun j _ => (Agrees.refl s).keeps _⟩

/-- The end of a process touches nobody else's. -/
theorem keeps_exited {p : Pid} {o : Owner} (hof : o.isOf p = false) :
    Keeps o s (s.exited p) := by
  refine ⟨fun fd hfd => ?_, fun q e hq he => ?_⟩
  · have hnot : (s.fdOwner fd).isOf p = false := hfd ▸ hof
    refine ⟨?_, by simp [Shared.exited, hnot], fun i hi => by simp [Shared.exited, hi, hnot]⟩
    show (if (s.fdOwner fd).isOf p then Owner.nobody else s.fdOwner fd) = o
    rw [hnot]
    exact hfd
  · have hne : q ≠ p := by
      rintro rfl
      rw [hof] at hq
      cases hq
    exact ⟨by simp [Shared.exited, hne, he],
      fun kept hkept _ => by simpa [Shared.exited, hne] using hkept⟩

theorem exited_step (hs : Inv names tree₀ s) (p : Pid) : Inv names tree₀ (s.exited p) := by
  refine ⟨hs.way, ?_, ?_, ?_, ?_, ?_⟩
  · intro fd d hd hreg
    simp only [Shared.exited] at hd
    split at hd
    · cases hd
    · exact hs.found fd d hd hreg
  · intro fd hfd
    show (if (s.fdOwner fd).isOf p then Owner.nobody else s.fdOwner fd) = .nobody
    rw [hs.fresh fd hfd, ite_self]
  · intro q e he
    by_cases hq : q = p
    · simp [Shared.exited, hq]
    · simp only [Shared.exited, Function.update_of_ne hq] at he
      simpa [Shared.exited, hq] using hs.numbers q e he
  · intro q l hl
    by_cases hq : q = p
    · subst hq
      simp [Shared.exited] at hl
    · simp only [Shared.exited, Function.update_of_ne hq] at hl
      exact (hs.locks q l hl).keeps (keeps_exited (by simpa [Owner.isOf] using hq))
  · intro q e he
    by_cases hq : q = p
    · subst hq
      simp [Shared.exited] at he
    · simp only [Shared.exited, Function.update_of_ne hq] at he
      exact (hs.names q e he).keeps (keeps_exited (by simpa [Owner.isOf] using hq))

/-- Everything a run keeps to: what the surroundings promise, and that no rename loses its way,
    meets a directory at the lock name or fails to see a directory that is there. -/
def Conditions (names : List Name) (w : World) (e : Event) : Bool :=
  Undertaken names w e && SameWay w e && NoDirectoryThere names w e && Seen w e

theorem fits_of_conditions {w : World} {luck : Luck} {c : Call} {next : Reply c → Prog Outcome}
    (h : Conditions names w (.call t luck) = true) (ht : w.threads t = some (.call c next)) :
    Fits names t c luck w.shared := by
  simp only [Conditions, Bool.and_eq_true] at h
  obtain ⟨⟨⟨hund, hway⟩, hdir⟩, hseen⟩ := h
  have hcall : w.nextCall t = some c := by rw [World.nextCall, ht]
  refine ⟨?_, ?_, ?_, ?_, ?_⟩
  · intro src dest way hop hempty
    simp [Undertaken, hop, hempty] at hund
  · intro src dest way hop
    simpa [SameWay, hop] using hway
  · rintro path i d rfl hlstat hd hisDir hentry
    simp [NoDirectoryThere, hcall, hlstat, hd, hisDir, hentry] at hdir
  · rintro path rfl
    simpa [Seen, hcall] using hseen
  · rintro path rfl
    simpa [Seen, hcall] using hseen

/-- Every thread of a reachable world is safe among the others. -/
abbrev Ordered (names : List Name) (tree₀ : Tree) (w : World) : Prop :=
  w.Sound (rules names tree₀) (Inv names tree₀) (Result names)

/-- **One event keeps every thread safe.** -/
theorem ordered_step (hsd : tree₀.descend tree₀.root names = some sd) {w w' : World} {e : Event}
    (h : Ordered names tree₀ w) (hc : Conditions names w e = true)
    (hstep : w.step (Tree.absolute names) e = some w') : Ordered names tree₀ w' := by
  cases e with
  | begin t =>
    simp only [World.step] at hstep
    split at hstep
    · cases hstep
    · split at hstep
      · rename_i hmay
        cases hstep
        obtain ⟨hinv, hkeeps, hready⟩ := begun_step h.inv hmay
        refine Pool.sound_set h hinv (fun j _ => hkeeps j) fun q hq => ?_
        cases hq
        exact program_safe hsd hready
      · cases hstep
  | call t luck =>
    simp only [World.step] at hstep
    split at hstep
    · rename_i c next hthread
      split at hstep
      · rename_i r s hexec
        cases hstep
        refine Pool.sound_call h (fun _ _ => Iff.rfl) ?_ hthread
          ⟨luck, hexec, fits_of_conditions hc hthread⟩
        exact fun i j hj u v hguar =>
          hguar _ (fun h => hj (Owner.task.inj h)) fun h => Owner.noConfusion h
      · cases hstep
    · cases hstep
  | finish t =>
    simp only [World.step] at hstep
    split at hstep
    · rename_i out hthread
      cases hstep
      obtain ⟨hinv, hkeeps⟩ := ended_step h.inv (h.result hthread)
      exact Pool.sound_set h hinv hkeeps fun q hq => (by cases hq)
    · cases hstep
  | other tree =>
    cases hstep
    simp only [Conditions, Undertaken, Bool.and_eq_true, decide_eq_true_eq] at hc
    refine Pool.sound_other h (h.inv.tree_undisturbed hsd hc.1.1.1) fun j => ?_
    exact ⟨fun _ hfd => ⟨hfd, rfl, fun _ hi => hi⟩, fun _ _ _ he => ⟨he, fun _ hkept _ => hkept⟩⟩
  | exit p =>
    cases hstep
    refine ⟨exited_step h.inv p, fun j q hq => ?_⟩
    by_cases hj : j.pid = p
    · simp [hj] at hq
    · simp only [hj, if_false] at hq
      exact (h.safe j q hq).rely (keeps_exited (by simpa [Owner.isOf] using hj))

theorem ordered_start {cwds : Pid → InodeId × Path} :
    Ordered names tree₀ (World.start tree₀ cwds) := by
  refine ⟨⟨fun _ _ => rfl, fun _ _ h => (by cases h), fun _ _ => rfl, fun _ _ _ => rfl, ?_, ?_⟩,
    fun _ _ h => (by cases h)⟩
  · exact fun _ _ h => absurd h List.not_mem_nil
  · exact fun _ _ h => absurd h List.not_mem_nil

end System

/-- What the lock promises of the processes over one state directory. -/
structure OneOperator (names : List Name) (s : Shared) : Prop where
  one : ∀ p q l m, l ∈ (s.processes p).locks → m ∈ (s.processes q).locks → p = q ∧ l = m
  atName : ∀ p, ∀ l ∈ (s.processes p).locks, ∃ d, s.descriptions l.file = some d ∧
    s.flocks d.file = some l.file ∧ lockFile names s.tree = some d.file

/-- **One operator at a time**: in every run of any number of processes over the state directory
    `names` that keeps to `Conditions`, at most one process holds a lock, and the file the lock is
    on is the one found at the lock name. -/
theorem operator_lock (names : List Name) (tree : Tree) (sd : InodeId)
    (hsd : tree.descend tree.root names = some sd) (cwds : Pid → InodeId × Path) (w : World)
    (h : Reaches (Tree.absolute names) (Conditions names) (World.start tree cwds) w) :
    OneOperator names w.shared := by
  have hordered : Ordered names tree w := by
    induction h with
    | refl => exact ordered_start
    | tail _ hstep ih =>
      obtain ⟨e, hc, hstep⟩ := hstep
      exact ordered_step hsd ih hc hstep
  refine ⟨fun p q l m hl hm => hordered.inv.unique hl hm, fun p l hl => ?_⟩
  obtain ⟨d, hd, hreg, hflock, -⟩ := (hordered.inv.locks p l hl).locked
  exact ⟨d, hd, hflock, hordered.inv.found _ d hd hreg⟩

/-! ## Runs -/

section Runs

/-- The name `s`. -/
def stateName : Name := ⟨[115], by decide⟩

/-- The name `x`. -/
def elsewhere : Name := ⟨[120], by decide⟩

/-- The name `y`. -/
def aside : Name := ⟨[121], by decide⟩

def ino (n : Nat) : InodeId := ⟨0, n⟩

def directoryOf (up : Nat) (entries : List (Name × Nat)) : Object :=
  .directory (ino up) (entries.foldl (fun m e => m.insert e.1 (ino e.2)) OrdMap.empty)

def treeOf (objects : List (Nat × Object)) : Tree :=
  ⟨ino 1, objects.foldl (fun m o => m.insert (ino o.1) o.2) OrdMap.empty⟩

def stateDir : Path := Tree.absolute [stateName]

def taskOf (p : Pid) (op : Op) : Task := ⟨p, op, 0⟩

/-- A task that meets no difficulty in its next `n` calls. -/
def calls (t : Task) (n : Nat) : List Event := List.replicate n (.call t .plain)

/-- A process notes the lock name. -/
def naming (p : Pid) : List Event :=
  [.begin (taskOf p .name)] ++ calls (taskOf p .name) 3 ++ [.finish (taskOf p .name)]

/-- A process takes the lock; `fresh` is the inode, should the file be new. -/
def acquiring (p : Pid) (fresh : Nat) : List Event :=
  let t := taskOf p .acquire
  [.begin t, .call t .plain, .call t (.fresh (ino fresh)), .call t (.links 1)] ++ calls t 3 ++
    [.finish t]

def startOf (tree : Tree) : World := World.start tree fun _ => (ino 1, stateDir)

/-- The state directory and one file beside it. -/
def treeWithFile : Tree :=
  treeOf [(1, directoryOf 1 [(stateName, 2), (elsewhere, 4)]), (2, directoryOf 1 []),
    (4, .regular [])]

/-- Process 1 is asked to move the lock file. -/
def lockMove : Task :=
  taskOf 1 (.rename (lock_path stateDir) (stateDir.join [.normal aside]) (some (ino 2)))

/-- Process 0 takes the lock; process 1 moves a file and then the lock file; process 2 comes for
    the lock. -/
def operatorRun : List Event :=
  let file := taskOf 1
    (.rename (Tree.absolute [elsewhere]) (Tree.absolute [aside]) (some (ino 1)))
  naming 0 ++ naming 1 ++ acquiring 0 5 ++ [.begin file] ++ calls file 5 ++ [.finish file] ++
    [.begin lockMove] ++ calls lockMove 6 ++ (acquiring 2 6).dropLast

/-- What a task that has not ended returns. -/
def returns (w : World) (t : Task) (P : Outcome → Bool) : Bool :=
  match w.threads t with
  | some (.done out) => P out
  | _ => false

def isRefused : Outcome → Bool
  | .renamed (.failed e) => decide (e = lock_move_refusal .file)
  | _ => false

def isBusy : Outcome → Bool
  | .acquired (.ok .busy) => true
  | _ => false

theorem operator_lock_sample : ∃ w : World, (w.shared.processes 0).locks ≠ [] ∧
    returns w lockMove isRefused = true ∧ returns w (taskOf 2 .acquire) isBusy = true ∧
    w.shared.tree.lstat (ino 1) (Tree.absolute [aside]) = .ok (ino 4) ∧
    OneOperator [stateName] w.shared := by
  have hrun : ((follow stateDir (Conditions [stateName]) operatorRun (startOf treeWithFile)).any
      fun w => decide ((w.shared.processes 0).locks ≠ []) && returns w lockMove isRefused &&
        returns w (taskOf 2 .acquire) isBusy &&
        decide (w.shared.tree.lstat (ino 1) (Tree.absolute [aside]) = .ok (ino 4))) = true := by
    decide +kernel
  obtain ⟨w, hw, hshown⟩ := (Option.any_eq_true _ _).1 hrun
  simp only [Bool.and_eq_true, decide_eq_true_eq] at hshown
  obtain ⟨⟨⟨hlocks, hrefused⟩, hbusy⟩, hmoved⟩ := hshown
  exact ⟨w, hlocks, hrefused, hbusy, hmoved,
    operator_lock [stateName] _ (ino 2) (by decide +kernel) _ w (reaches_of_follow hw)⟩

/-- A directory that lies at the lock name. -/
def treeWithDirectory : Tree :=
  treeOf [(1, directoryOf 1 [(stateName, 2)]), (2, directoryOf 1 [(LOCK_FILE, 3)]),
    (3, directoryOf 2 [])]

/-- Process 1 looks while the directory is there, process 2 moves it away, process 0 takes the
    lock, process 1 moves the lock file, process 3 takes a lock of its own. -/
def directoryRun : List Event :=
  let one := taskOf 1 (.rename (lock_path stateDir) (stateDir.join [.normal aside]) (some (ino 2)))
  let two := taskOf 2
    (.rename (lock_path stateDir) (stateDir.join [.normal elsewhere]) (some (ino 2)))
  naming 1 ++ naming 2 ++ [.begin one] ++ calls one 5 ++ [.begin two] ++ calls two 7 ++
    acquiring 0 5 ++ calls one 1 ++ acquiring 3 6

/-- Another directory that holds a file of the lock's name. -/
def treeWithOther (objects : List (Nat × Object)) : Tree :=
  treeOf ([(2, directoryOf 1 [(LOCK_FILE, 5)]), (4, directoryOf 1 [(LOCK_FILE, 7)]),
    (5, .regular []), (7, .regular [])] ++ objects)

/-- Process 1 looks at the file in the other directory, a link to the state directory takes that
    directory's place, process 1 moves the lock file. -/
def linkRun : List Event :=
  let one := taskOf 1 (.rename (Tree.absolute [elsewhere, LOCK_FILE])
    (Tree.absolute [elsewhere, aside]) (some (ino 4)))
  naming 1 ++ acquiring 0 6 ++ [.begin one] ++ calls one 5 ++
    [.other (treeWithOther [(1, directoryOf 1 [(stateName, 2), (elsewhere, 8), (aside, 4)]),
      (8, .symlink stateDir)])] ++
    calls one 1 ++ acquiring 3 6

/-- Process 1 asks about the lock file and is not shown the directory it lies in. -/
def unseenRun : List Event :=
  let one := taskOf 1 (.rename (lock_path stateDir) (stateDir.join [.normal aside]) (some (ino 2)))
  naming 1 ++ acquiring 0 6 ++ [.begin one] ++ calls one 3 ++ [.call one (.fault 5)] ++
    calls one 1 ++ acquiring 3 6

/-- Two processes hold a lock at the end of the run. -/
def twoOperators (P : World → Event → Bool) (events : List Event) (tree : Tree) : Bool :=
  (follow stateDir P events (startOf tree)).any fun w =>
    !(w.shared.processes 0).locks.isEmpty && !(w.shared.processes 3).locks.isEmpty

theorem not_one_of_twoOperators {P : World → Event → Bool} (events : List Event) {tree : Tree}
    (h : twoOperators P events tree = true) :
    ∃ w, Reaches stateDir P (startOf tree) w ∧ ¬ OneOperator [stateName] w.shared := by
  obtain ⟨w, hw, hlocks⟩ := (Option.any_eq_true _ _).1 h
  simp only [Bool.and_eq_true, Bool.not_eq_true', List.isEmpty_eq_false_iff_exists_mem] at hlocks
  obtain ⟨⟨l, hl⟩, m, hm⟩ := hlocks
  refine ⟨w, reaches_of_follow hw, fun hone => ?_⟩
  exact absurd (hone.one 0 3 l m hl hm).1 (by decide)

/-- **Each condition is needed**: a run that keeps to all the others and ends with two holders. -/
theorem not_operator_lock :
    (∃ w, Reaches stateDir (fun w e => Undertaken [stateName] w e && SameWay w e && Seen w e)
      (startOf treeWithDirectory) w ∧ ¬ OneOperator [stateName] w.shared) ∧
    (∃ w, Reaches stateDir
      (fun w e => Undertaken [stateName] w e && NoDirectoryThere [stateName] w e && Seen w e)
      (startOf (treeWithOther [(1, directoryOf 1 [(stateName, 2), (elsewhere, 4)])])) w ∧
        ¬ OneOperator [stateName] w.shared) ∧
    ∃ w, Reaches stateDir
      (fun w e => Undertaken [stateName] w e && SameWay w e && NoDirectoryThere [stateName] w e)
      (startOf (treeWithOther [(1, directoryOf 1 [(stateName, 2), (elsewhere, 4)])])) w ∧
        ¬ OneOperator [stateName] w.shared :=
  ⟨not_one_of_twoOperators directoryRun (by decide +kernel),
    not_one_of_twoOperators linkRun (by decide +kernel),
    not_one_of_twoOperators unseenRun (by decide +kernel)⟩

end Runs

end DedupCommando.Lock
