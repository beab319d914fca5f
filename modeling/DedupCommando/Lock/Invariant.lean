import DedupCommando.Lock.System

/-!
# What holds while locks come and go

* `Keeps` — a step leaves alone what belongs to one owner; `Inv` — the state directory is where
  it was, an open regular file is the one at the lock name, and what every value alive stands for.
* `undisturbed_renameat2`, `undisturbed_openCreate` — what the two calls that change the tree
  leave in place.
* `rules`, `safe_call`, `safe_quiet` — one call among everybody else's.
-/

set_option autoImplicit false

namespace DedupCommando.Lock

open Program (Safe Rules)

/-! ## Owners -/

/-- A step leaves what belongs to `o` as it was. -/
structure Keeps (o : Owner) (s s' : Shared) : Prop where
  fds : ∀ fd, s.fdOwner fd = o → s'.fdOwner fd = o ∧ s'.descriptions fd = s.descriptions fd ∧
    ∀ i, s.flocks i = some fd → s'.flocks i = some fd
  entries : ∀ p e, o.isOf p = true → s.entryOwner p e = o → s'.entryOwner p e = o ∧
    ∀ kept ∈ (s.processes p).listed, kept.entry = e → kept ∈ (s'.processes p).listed

/-- The descriptor and the entry of a lock, in the hands of `o`. -/
structure Holds (names : List Name) (o : Owner) (p : Pid) (lock : InstanceLock) (s : Shared) :
    Prop where
  own : o.isOf p = true
  fd : s.fdOwner lock.file = o
  entry : s.entryOwner p lock.entry = o
  locked : ∃ d, s.descriptions lock.file = some d ∧ d.regular = true ∧
    s.flocks d.file = some lock.file ∧
    ∃ kept ∈ (s.processes p).listed, kept.entry = lock.entry ∧
      kept.name = lock_path (Tree.absolute names) ∧ kept.file = some d.file

/-- The entry of a lock name, in the hands of `o`. -/
structure Names (names : List Name) (o : Owner) (p : Pid) (e : Nat) (s : Shared) : Prop where
  own : o.isOf p = true
  entry : s.entryOwner p e = o
  listed : ∃ kept ∈ (s.processes p).listed, kept.entry = e ∧
    kept.name = lock_path (Tree.absolute names)

variable {names : List Name} {s s' : Shared} {o : Owner} {p : Pid}

theorem Holds.keeps {lock : InstanceLock} (h : Holds names o p lock s) (hk : Keeps o s s') :
    Holds names o p lock s' := by
  obtain ⟨d, hd, hreg, hlock, kept, hkept, he, hname, hfile⟩ := h.locked
  obtain ⟨hfd, hdesc, hflock⟩ := hk.fds _ h.fd
  obtain ⟨hentry, hlisted⟩ := hk.entries _ _ h.own h.entry
  exact ⟨h.own, hfd, hentry, d, hdesc.trans hd, hreg, hflock _ hlock, kept, hlisted kept hkept he, he,
    hname, hfile⟩

theorem Names.keeps {e : Nat} (h : Names names o p e s) (hk : Keeps o s s') :
    Names names o p e s' := by
  obtain ⟨kept, hkept, he, hname⟩ := h.listed
  obtain ⟨hentry, hlisted⟩ := hk.entries _ _ h.own h.entry
  exact ⟨h.own, hentry, kept, hlisted kept hkept he, he, hname⟩

/-! ## What the tree keeps -/

theorem lockFile_iff {tree : Tree} {file : InodeId} :
    lockFile names tree = some file ↔ ∃ d, tree.descend tree.root names = some d ∧
      tree.entry d LOCK_FILE = some file ∧ tree.isRegular file = true := by
  unfold lockFile
  split
  · rename_i hnone
    simp [hnone]
  · rename_i d hd
    rw [hd]
    split
    · rename_i hnone
      simp [hnone]
    · rename_i i hi
      rw [Option.ite_none_right_eq_some]
      constructor
      · rintro ⟨hreg, hfile⟩
        cases hfile
        exact ⟨d, rfl, hi, hreg⟩
      · rintro ⟨d', hd', hi', hreg⟩
        cases hd'
        cases hi.symm.trans hi'
        exact ⟨hreg, rfl⟩

/-- A change that keeps the steps of the way and the regular file at its end. -/
theorem undisturbed_of_kept {tree tree' : Tree} (hroot : tree'.root = tree.root)
    (hway : ∀ front n back x j, names = front ++ n :: back →
      tree.descend tree.root front = some x → tree.entry x n = some j →
        tree.isDirectory j = true → tree'.entry x n = some j ∧ tree'.isDirectory j = true)
    (hlock : ∀ x j, tree.descend tree.root names = some x → tree.entry x LOCK_FILE = some j →
      tree.isRegular j = true → tree'.entry x LOCK_FILE = some j ∧ tree'.isRegular j = true) :
    Undisturbed names tree tree' := by
  have hdescend : ∀ front, front <+: names → ∀ i, tree.descend tree.root front = some i →
      tree'.descend tree'.root front = some i := by
    rintro front ⟨rest, hrest⟩ i hi
    rw [hroot]
    refine Tree.descend_kept ?_ hi
    intro front' n back x j hfront hx
    refine hway front' n (back ++ rest) x j ?_ hx
    rw [← hrest, hfront, List.append_assoc, List.cons_append]
  refine ⟨hroot, ?_, ?_⟩
  · intro front hfront hsome
    obtain ⟨i, hi⟩ := Option.isSome_iff_exists.1 hsome
    rw [hi]
    exact hdescend front ((List.mem_inits _ _).1 hfront) i hi
  · intro hsome
    obtain ⟨file, hfile⟩ := Option.isSome_iff_exists.1 hsome
    obtain ⟨d, hd, hentry, hreg⟩ := lockFile_iff.1 hfile
    rw [hfile]
    obtain ⟨hentry', hreg'⟩ := hlock d file hd hentry hreg
    exact lockFile_iff.2 ⟨d, hdescend names List.prefix_rfl d hd, hentry', hreg'⟩

/-- A name that is neither the lock name nor on the way to it. -/
def Clear (names : List Name) (tree : Tree) (n : Name) (d : InodeId) : Prop :=
  (∀ front back, names = front ++ n :: back → tree.descend tree.root front ≠ some d) ∧
    (n = LOCK_FILE → tree.descend tree.root names ≠ some d)

theorem undisturbed_renameat2 {tree tree' : Tree} {cwd : InodeId} {src dest : Path}
    (h : tree.renameat2 cwd src dest = .ok tree')
    (hclear : ∀ n d, src.fileName = some n → tree.wayTo cwd src = .ok d →
      Clear names tree n d) : Undisturbed names tree tree' := by
  obtain ⟨n, n', d, d', i, hn, -, hd, -, hdir, -, hfree, rfl⟩ := Tree.renameat2_ok h
  obtain ⟨hway, hlock⟩ := hclear n d hn hd
  have hentry : ∀ x m j, tree.entry x m = some j → ¬ (x = d ∧ m = n) →
      (tree.move d n d' n' i).entry x m = some j := by
    intro x m j hj hne
    rw [Tree.entry_move hdir, if_neg, if_neg hne, hj]
    rintro ⟨rfl, rfl⟩
    rw [hfree] at hj
    cases hj
  refine undisturbed_of_kept Tree.root_move ?_ ?_
  · intro front m back x j hnames hx hj hjdir
    refine ⟨hentry x m j hj ?_, by simpa using hjdir⟩
    rintro ⟨rfl, rfl⟩
    exact hway front back hnames hx
  · intro x j hx hj hreg
    refine ⟨hentry x LOCK_FILE j hj ?_, by simpa using hreg⟩
    rintro ⟨rfl, hname⟩
    exact hlock hname.symm hx

theorem undisturbed_openCreate (names : List Name) {tree tree' : Tree} {cwd file fresh : InodeId} {path : Path}
    (h : tree.openCreate cwd path fresh = .ok (file, tree')) (hfresh : tree.object fresh = none) :
    Undisturbed names tree tree' := by
  obtain ⟨n, d, -, -, ⟨-, rfl⟩ | ⟨hnone, -, hdir, rfl⟩⟩ := Tree.openCreate_ok h
  · exact undisturbed_of_kept rfl (fun _ _ _ _ _ _ _ hj hjdir => ⟨hj, hjdir⟩)
      fun _ _ _ hj hreg => ⟨hj, hreg⟩
  · have hentry : ∀ x m j, tree.entry x m = some j →
        ((tree.withFile fresh).setEntries d fun entries => entries.insert n fresh).entry x m =
          some j := by
      intro x m j hj
      rw [Tree.entry_insert (by rwa [Tree.isDirectory_withFile hfresh]), if_neg,
        Tree.entry_withFile hfresh, hj]
      rintro ⟨rfl, rfl⟩
      rw [hnone] at hj
      cases hj
    refine undisturbed_of_kept (Tree.root_setEntries _) ?_ ?_
    · intro _ _ _ x j _ _ hj hjdir
      refine ⟨hentry _ _ _ hj, ?_⟩
      rw [Tree.isDirectory_setEntries, Tree.isDirectory_withFile hfresh]
      exact hjdir
    · intro x j _ hj hreg
      refine ⟨hentry _ _ _ hj, ?_⟩
      rw [Tree.isRegular_setEntries, Tree.isRegular_withFile, hreg, Bool.or_true]

/-- What an open of the lock name finds is the lock file, when it is a regular file. -/
theorem lockFile_openCreate {tree tree' : Tree} {cwd file fresh sd : InodeId}
    (h : tree.openCreate cwd (lock_path (Tree.absolute names)) fresh = .ok (file, tree'))
    (hfresh : tree.object fresh = none) (hsd : tree.descend tree.root names = some sd)
    (hreg : tree'.isRegular file = true) : lockFile names tree' = some file := by
  have hpath : lock_path (Tree.absolute names) = Tree.absolute (names ++ [LOCK_FILE]) := by
    simp [lock_path, Path.join, Path.isAbsolute, Tree.absolute]
  obtain ⟨n, d, hn, hd, hcase⟩ := Tree.openCreate_ok h
  rw [hpath, Tree.fileName_absolute_snoc, Option.some.injEq] at hn
  rw [hpath, Tree.wayTo, Tree.dropLast_absolute_snoc, Tree.walk_descend hsd, Except.ok.injEq] at hd
  subst hn hd
  obtain ⟨hroot, hway, -⟩ := undisturbed_openCreate names h hfresh
  have hsd' : tree'.descend tree'.root names = some sd := by
    rw [hway names ((List.mem_inits _ _).2 List.prefix_rfl) (by rw [hsd]; rfl), hsd]
  refine lockFile_iff.2 ⟨sd, hsd', ?_, hreg⟩
  obtain ⟨hentry, rfl⟩ | ⟨-, rfl, hdir, rfl⟩ := hcase
  · exact hentry
  · rw [Tree.entry_insert (by rwa [Tree.isDirectory_withFile hfresh]), if_pos ⟨rfl, rfl⟩]

/-! ## The invariant -/

/-- **What holds between any two calls.**  `tree₀` is the tree at the start. -/
structure Inv (names : List Name) (tree₀ : Tree) (s : Shared) : Prop where
  way : ∀ front, front <+: names →
    s.tree.descend s.tree.root front = tree₀.descend tree₀.root front
  found : ∀ fd d, s.descriptions fd = some d → d.regular = true →
    lockFile names s.tree = some d.file
  fresh : ∀ fd, s.nextFd ≤ fd → s.fdOwner fd = .nobody
  numbers : ∀ p e, (s.processes p).nextEntry ≤ e → s.entryOwner p e = .nobody
  locks : ∀ p, ∀ lock ∈ (s.processes p).locks,
    Holds names (.lock lock.entry p) p lock s
  names : ∀ p, ∀ e ∈ (s.processes p).names, Names names (.lockName p) p e s

/-- What a step leaves of the values alive. -/
structure SameValues (s s' : Shared) : Prop where
  locks : ∀ p, (s'.processes p).locks = (s.processes p).locks
  names : ∀ p, (s'.processes p).names = (s.processes p).names

theorem Inv.values {tree₀ : Tree} (h : Inv names tree₀ s) (hv : SameValues s s')
    (hk : ∀ o, o ≠ .nobody → (∀ t, o ≠ .task t) → Keeps o s s') :
    (∀ p, ∀ lock ∈ (s'.processes p).locks, Holds names (.lock lock.entry p) p lock s') ∧
    ∀ p, ∀ e ∈ (s'.processes p).names, Names names (.lockName p) p e s' := by
  constructor
  · intro p lock hlock
    rw [hv.locks] at hlock
    exact (h.locks p lock hlock).keeps (hk _ (fun h => Owner.noConfusion h)
      fun _ h => Owner.noConfusion h)
  · intro p e he
    rw [hv.names] at he
    exact (h.names p e he).keeps (hk _ (fun h => Owner.noConfusion h)
      fun _ h => Owner.noConfusion h)

/-- Two states that differ in no more than the holds on a list. -/
structure Agrees (s s' : Shared) : Prop where
  tree : s'.tree = s.tree
  descriptions : s'.descriptions = s.descriptions
  nextFd : s'.nextFd = s.nextFd
  flocks : s'.flocks = s.flocks
  fdOwner : s'.fdOwner = s.fdOwner
  entryOwner : s'.entryOwner = s.entryOwner
  listed : ∀ p, (s'.processes p).listed = (s.processes p).listed
  nextEntry : ∀ p, (s'.processes p).nextEntry = (s.processes p).nextEntry
  locks : ∀ p, (s'.processes p).locks = (s.processes p).locks
  names : ∀ p, (s'.processes p).names = (s.processes p).names
  cwd : ∀ p, (s'.processes p).cwd = (s.processes p).cwd

theorem Agrees.refl (s : Shared) : Agrees s s :=
  ⟨rfl, rfl, rfl, rfl, rfl, rfl, fun _ => rfl, fun _ => rfl, fun _ => rfl, fun _ => rfl,
    fun _ => rfl⟩

theorem Agrees.keeps (h : Agrees s s') (o : Owner) : Keeps o s s' := by
  refine ⟨fun fd hfd => ?_, fun p e _ he => ?_⟩
  · rw [h.fdOwner, h.descriptions, h.flocks]
    exact ⟨hfd, rfl, fun _ hi => hi⟩
  · rw [h.entryOwner, h.listed]
    exact ⟨he, fun _ hkept _ => hkept⟩

theorem Agrees.inv {tree₀ : Tree} (h : Agrees s s') (hs : Inv names tree₀ s) :
    Inv names tree₀ s' := by
  obtain ⟨hlocks, hnames⟩ := hs.values ⟨h.locks, h.names⟩ fun o _ _ => h.keeps o
  refine ⟨?_, ?_, ?_, ?_, hlocks, hnames⟩
  · rw [h.tree]
    exact hs.way
  · rw [h.tree, h.descriptions]
    exact hs.found
  · rw [h.nextFd, h.fdOwner]
    exact hs.fresh
  · intro p e he
    rw [h.nextEntry] at he
    rw [h.entryOwner]
    exact hs.numbers p e he

/-- The calls that change no more than a hold. -/
def quiet : Call → Bool
  | .openCreate _ | .flock _ | .unflock _ | .close _ | .renameat2 _ _ | .enter _ _
  | .retain _ => false
  | _ => true

theorem agrees_setProcess {f : Process → Process} {t : Task}
    (hlisted : ∀ q, (f q).listed = q.listed) (hnext : ∀ q, (f q).nextEntry = q.nextEntry)
    (hlocks : ∀ q, (f q).locks = q.locks) (hnames : ∀ q, (f q).names = q.names)
    (hcwd : ∀ q, (f q).cwd = q.cwd) : Agrees s (s.setProcess t.pid f) := by
  refine ⟨rfl, rfl, rfl, rfl, rfl, rfl, ?_, ?_, ?_, ?_, ?_⟩
  all_goals
    intro p
    by_cases hp : p = t.pid
    · subst hp
      simp [Shared.setProcess, hlisted, hnext, hlocks, hnames, hcwd]
    · simp [Shared.setProcess, hp]

theorem agrees_of_quiet {t : Task} {c : Call} {luck : Luck} {r : Reply c}
    (hc : quiet c = true) (h : exec t c luck s = some (r, s')) : Agrees s s' := by
  cases c
  case openCreate | flock | unflock | close | renameat2 | enter | retain => cases hc
  case look =>
    simp only [exec] at h
    repeat' split at h
    all_goals cases h <;> exact Agrees.refl s
  case identityAt | statDot | askDatabases =>
    simp only [exec] at h
    split at h
    all_goals cases h <;> exact Agrees.refl s
  case fstat =>
    simp only [exec] at h
    split at h
    all_goals cases h <;> exact Agrees.refl s
  case read =>
    cases luck <;> simp only [exec] at h
    all_goals try cases h
    split at h
    · cases h
      exact agrees_setProcess (fun _ => rfl) (fun _ => rfl) (fun _ => rfl) (fun _ => rfl)
        fun _ => rfl
    · cases h
  case write =>
    cases luck <;> simp only [exec] at h
    all_goals try cases h
    split at h
    · cases h
      exact agrees_setProcess (fun _ => rfl) (fun _ => rfl) (fun _ => rfl) (fun _ => rfl)
        fun _ => rfl
    · cases h
  case endRead | endWrite =>
    cases luck <;> simp only [exec] at h
    all_goals cases h
    exact agrees_setProcess (fun _ => rfl) (fun _ => rfl) (fun _ => rfl) (fun _ => rfl)
      fun _ => rfl

/-! ## Safe calls -/

section Calls

variable (names) (tree₀ : Tree)

/-- What the conditions of a run say of one call. -/
structure Fits (t : Task) (c : Call) (luck : Luck) (s : Shared) : Prop where
  named : ∀ src dest way, t.op = .rename src dest way → (s.processes t.pid).names ≠ []
  way : ∀ src dest way, t.op = .rename src dest way →
    (s.tree.wayTo (s.processes t.pid).cwd src).toOption = way
  look : ∀ path i d, c = .look path → s.tree.lstat (s.processes t.pid).cwd path = .ok i →
    s.tree.descend s.tree.root names = some d → s.tree.isDirectory i = true →
      s.tree.entry d LOCK_FILE ≠ some i
  identityAt : ∀ path, c = .identityAt path → luck = .plain
  statDot : ∀ path, c = .statDot path → luck = .plain

/-- What a task and everything around it agree on. -/
def rules (t : Task) : Rules Call Reply Shared where
  acts c s r s' := ∃ luck, exec t c luck s = some (r, s') ∧ Fits names t c luck s
  inv := Inv names tree₀
  rely := Keeps (.task t)
  guar s s' := ∀ o, o ≠ .task t → o ≠ .nobody → Keeps o s s'

variable {names tree₀} {t : Task} {α : Type} {Q : α → Shared → Prop}

/-- A fact the others cannot undo. -/
def Stable (t : Task) (P : Shared → Prop) : Prop := ∀ s s', Keeps (.task t) s s' → P s → P s'

theorem Stable.later {P : Shared → Prop} (hP : Stable t P) (hs : P s)
    (h : (rules names tree₀ t).Later s s') : P s' := by
  induction h with
  | refl => exact hs
  | tail _ hstep ih => exact hP _ _ hstep ih

theorem safe_done {a : α} (hQ : Stable t (Q a)) (hs : Q a s) :
    Safe (rules names tree₀ t) Q (.done a) s := fun _ ht => hQ.later hs ht

/-- A call, with what is known before it. -/
theorem safe_call {P : Shared → Prop} {c : Call} {k : Reply c → Prog α} (hP : Stable t P)
    (hs : P s)
    (h : ∀ u luck r u', Inv names tree₀ u → P u → exec t c luck u = some (r, u') →
      Fits names t c luck u → Inv names tree₀ u' ∧
        (∀ o, o ≠ .task t → o ≠ .nobody → Keeps o u u') ∧
        Safe (rules names tree₀ t) Q (k r) u') :
    Safe (rules names tree₀ t) Q (perform c >>= k) s := by
  rintro u hsu hu r u' ⟨luck, hexec, hfits⟩
  exact h u luck r u' hu (hP.later hs hsu) hexec hfits

/-- A call that changes no more than a hold. -/
theorem safe_quiet {P : Shared → Prop} {c : Call} {k : Reply c → Prog α} (hP : Stable t P)
    (hs : P s) (hc : quiet c = true)
    (h : ∀ u luck r u', Inv names tree₀ u → P u' → exec t c luck u = some (r, u') →
      Fits names t c luck u → Safe (rules names tree₀ t) Q (k r) u') :
    Safe (rules names tree₀ t) Q (perform c >>= k) s := by
  refine safe_call hP hs ?_
  intro u luck r u' hu hPu hexec hfits
  have hagrees := agrees_of_quiet hc hexec
  exact ⟨hagrees.inv hu, fun o _ _ => hagrees.keeps o,
    h u luck r u' hu (hP u u' (hagrees.keeps _) hPu) hexec hfits⟩

theorem stable_true : Stable t fun _ => True := fun _ _ _ _ => trivial

/-- A quiet call of a program that knows nothing of the state. -/
theorem safe_ask {c : Call} {k : Reply c → Prog α} (hc : quiet c = true)
    (h : ∀ u luck r u', Inv names tree₀ u → exec t c luck u = some (r, u') →
      Fits names t c luck u → Safe (rules names tree₀ t) Q (k r) u') :
    Safe (rules names tree₀ t) Q (perform c >>= k) s :=
  safe_quiet stable_true trivial hc fun u luck r u' hu _ hexec hfits =>
    h u luck r u' hu hexec hfits

end Calls

end DedupCommando.Lock
