import DedupCommando.Lock.Question

/-!
# Every program keeps the invariant

* `opened_step`, `flock_step`, `unflock_step`, `close_step`, `enter_step`, `retain_step` — the
  calls that change something.
* `try_acquire_safe`, `drop_safe`, `in_dir_safe`, `name_drop_safe`, `rename_noreplace_safe` — the
  programs, and `program_safe` for whatever a task was asked to do.
-/

set_option autoImplicit false

namespace DedupCommando.Lock

open Program (Safe)

variable {names : List Name} {s s' : Shared}

/-! ## The calls that change something -/

section Steps

variable {tree₀ : Tree} {t : Task} {sd : InodeId}

theorem Inv.way_undisturbed (hs : Inv names tree₀ s)
    (hsd : tree₀.descend tree₀.root names = some sd) {tree : Tree}
    (h : Undisturbed names s.tree tree) :
    ∀ front, front <+: names → tree.descend tree.root front = tree₀.descend tree₀.root front := by
  intro front hfront
  have hsome : (tree₀.descend tree₀.root front).isSome := by
    obtain ⟨rest, hrest⟩ := hfront
    rw [← hrest, Tree.descend_append, Option.bind_eq_some_iff] at hsd
    obtain ⟨i, hi, -⟩ := hsd
    rw [hi]
    rfl
  rw [← hs.way front hfront] at hsome ⊢
  exact h.2.1 front ((List.mem_inits _ _).2 hfront) hsome

/-- Somebody's change of the tree. -/
theorem Inv.tree_undisturbed (hs : Inv names tree₀ s)
    (hsd : tree₀.descend tree₀.root names = some sd) {tree : Tree}
    (h : Undisturbed names s.tree tree) : Inv names tree₀ { s with tree } := by
  refine ⟨hs.way_undisturbed hsd h, ?_, hs.fresh, hs.numbers, ?_, ?_⟩
  · intro fd d hd hreg
    have hfound := hs.found fd d hd hreg
    exact (h.2.2 (by rw [hfound]; rfl)).trans hfound
  · exact fun p lock hlock => (hs.locks p lock hlock).keeps
      ⟨fun _ hfd => ⟨hfd, rfl, fun _ hi => hi⟩, fun _ _ _ he => ⟨he, fun _ hkept _ => hkept⟩⟩
  · exact fun p e he => (hs.names p e he).keeps
      ⟨fun _ hfd => ⟨hfd, rfl, fun _ hi => hi⟩, fun _ _ _ he => ⟨he, fun _ hkept _ => hkept⟩⟩

/-- A description in the hands of a task. -/
def Mine (t : Task) (fd : Fd) (d : Description) (s : Shared) : Prop :=
  s.fdOwner fd = .task t ∧ s.descriptions fd = some d

theorem stable_mine {fd : Fd} {d : Description} : Stable t (Mine t fd d) := by
  rintro s s' hk ⟨howner, hd⟩
  obtain ⟨howner', hd', -⟩ := hk.fds fd howner
  exact ⟨howner', hd'.trans hd⟩

theorem opened_step (hs : Inv names tree₀ s) (hsd : tree₀.descend tree₀.root names = some sd)
    {luck : Luck} {r : Except Errno Fd}
    (h : exec t (.openCreate (lock_path (Tree.absolute names))) luck s = some (r, s')) :
    Inv names tree₀ s' ∧ (∀ o, o ≠ .task t → o ≠ .nobody → Keeps o s s') ∧
      ∀ fd, r = .ok fd → ∃ d, Mine t fd d s' := by
  have hself : Inv names tree₀ s ∧ (∀ o, o ≠ .task t → o ≠ .nobody → Keeps o s s) :=
    ⟨hs, fun o _ _ => (Agrees.refl s).keeps o⟩
  simp only [exec] at h
  split at h
  · cases h
    exact ⟨hself.1, hself.2, fun _ h => (by cases h)⟩
  · rename_i fresh
    split at h
    · cases h
    · rename_i hfree
      split at h
      · cases h
        exact ⟨hself.1, hself.2, fun _ h => (by cases h)⟩
      · rename_i file tree hopen
        cases h
        have hfresh : s.tree.object fresh = none := by simpa using hfree
        have hund := undisturbed_openCreate names hopen hfresh
        have hway := hs.way_undisturbed hsd hund
        -- the number of the new description belongs to nobody yet
        have hkeeps : ∀ o, o ≠ .nobody → Keeps o s (s.opened t tree file) := by
          intro o hnobody
          refine ⟨fun fd hfd => ?_, fun _ _ _ he => ⟨he, fun _ hkept _ => hkept⟩⟩
          have hne : fd ≠ s.nextFd := by
            rintro rfl
            exact hnobody (hfd.symm.trans (hs.fresh _ (Nat.le_refl _)))
          exact ⟨by simpa [Shared.opened, hne] using hfd, by simp [Shared.opened, hne],
            fun _ hi => hi⟩
        have hvalues : SameValues s (s.opened t tree file) := ⟨fun _ => rfl, fun _ => rfl⟩
        obtain ⟨hlocks, hnames⟩ := hs.values hvalues fun o ho _ => hkeeps o ho
        refine ⟨⟨hway, ?_, ?_, hs.numbers, hlocks, hnames⟩, fun o _ ho => hkeeps o ho, ?_⟩
        · intro fd d hd hreg
          by_cases hfd : fd = s.nextFd
          · subst hfd
            simp only [Shared.opened, Function.update_self, Option.some.injEq] at hd
            subst hd
            have hsd' : s.tree.descend s.tree.root names = some sd :=
              (hs.way names List.prefix_rfl).trans hsd
            exact lockFile_openCreate hopen hfresh hsd' hreg
          · simp only [Shared.opened, Function.update_of_ne hfd] at hd
            have hfound := hs.found fd d hd hreg
            exact (hund.2.2 (by rw [hfound]; rfl)).trans hfound
        · intro fd hfd
          have hlt : s.nextFd < fd := Nat.lt_of_succ_le hfd
          show Function.update s.fdOwner s.nextFd (.task t) fd = .nobody
          rw [Function.update_of_ne hlt.ne']
          exact hs.fresh fd hlt.le
        · intro fd hfd
          cases hfd
          exact ⟨⟨file, tree.isRegular file⟩, by simp [Shared.opened], by simp [Shared.opened]⟩
  · cases h

theorem flock_step (hs : Inv names tree₀ s) {luck : Luck} {fd : Fd} {d : Description}
    {r : Except Errno Unit} (hmine : Mine t fd d s)
    (h : exec t (.flock fd) luck s = some (r, s')) :
    Inv names tree₀ s' ∧ (∀ o, Keeps o s s') ∧
      Mine t fd d s' ∧ (r = .ok () → s'.flocks d.file = some fd) := by
  have hself : ∀ r' : Except Errno Unit, r' ≠ .ok () → Inv names tree₀ s ∧ (∀ o, Keeps o s s) ∧
      Mine t fd d s ∧ (r' = .ok () → s.flocks d.file = some fd) := fun r' hr =>
    ⟨hs, fun o => (Agrees.refl s).keeps o, hmine, fun h => absurd h hr⟩
  simp only [exec, hmine.2] at h
  split at h
  · cases h
    exact hself _ fun h => (by cases h)
  · rename_i d' heq
    cases heq
    split at h
    · rename_i hfree
      cases h
      have hkeeps : ∀ o, Keeps o s
          { s with flocks := Function.update s.flocks d.file (some fd) } := by
        intro o
        refine ⟨fun fd' hfd' => ⟨hfd', rfl, fun i hi => ?_⟩,
          fun _ _ _ he => ⟨he, fun _ hkept _ => hkept⟩⟩
        by_cases hid : i = d.file
        · subst hid
          rcases hfree with hfree | hfree
          · rw [hfree] at hi
            cases hi
          · simpa [hfree] using hi
        · simpa [hid] using hi
      have hvalues : SameValues s
          { s with flocks := Function.update s.flocks d.file (some fd) } :=
        ⟨fun _ => rfl, fun _ => rfl⟩
      obtain ⟨hlocks, hnames⟩ := hs.values hvalues fun o _ _ => hkeeps o
      exact ⟨⟨hs.way, hs.found, hs.fresh, hs.numbers, hlocks, hnames⟩, hkeeps,
        hmine, fun _ => by simp⟩
    · cases h
      exact hself _ fun h => (by cases h)
  · cases h

/-- Letting a description's lock go, and closing it or not, touches nobody else's. -/
theorem keeps_unlocked {fd : Fd} (howner : s.fdOwner fd = .task t) {o : Owner} (ho : o ≠ .task t) :
    Keeps o s (s.unlocked fd) := by
  refine ⟨fun fd' hfd' => ⟨hfd', rfl, fun i hi => ?_⟩, fun _ _ _ he => ⟨he, fun _ hkept _ => hkept⟩⟩
  have hne : fd' ≠ fd := by
    rintro rfl
    exact ho (hfd'.symm.trans howner)
  simp only [Shared.unlocked, hi, Option.some.injEq, hne, if_false]

theorem unflock_step (hs : Inv names tree₀ s) {luck : Luck} {fd : Fd} {r : Unit}
    (howner : s.fdOwner fd = .task t) (h : exec t (.unflock fd) luck s = some (r, s')) :
    Inv names tree₀ s' ∧ (∀ o, o ≠ .task t → Keeps o s s') ∧ s'.fdOwner fd = .task t := by
  cases luck <;> simp only [exec] at h
  all_goals cases h
  have hkeeps : ∀ o, o ≠ .task t → Keeps o s (s.unlocked fd) := fun o ho =>
    keeps_unlocked howner ho
  have hvalues : SameValues s (s.unlocked fd) := ⟨fun _ => rfl, fun _ => rfl⟩
  obtain ⟨hlocks, hnames⟩ := hs.values hvalues fun o _ ho => hkeeps o (ho t)
  exact ⟨⟨hs.way, hs.found, hs.fresh, hs.numbers, hlocks, hnames⟩, hkeeps, howner⟩

theorem close_step (hs : Inv names tree₀ s) {luck : Luck} {fd : Fd} {r : Unit}
    (howner : s.fdOwner fd = .task t) (h : exec t (.close fd) luck s = some (r, s')) :
    Inv names tree₀ s' ∧ ∀ o, o ≠ .task t → Keeps o s s' := by
  cases luck <;> simp only [exec] at h
  all_goals cases h
  have hkeeps : ∀ o, o ≠ .task t → Keeps o s
      { s.unlocked fd with descriptions := Function.update s.descriptions fd none } := by
    intro o ho
    refine ⟨fun fd' hfd' => ?_, (keeps_unlocked howner ho).entries⟩
    have hne : fd' ≠ fd := by
      rintro rfl
      exact ho (hfd'.symm.trans howner)
    obtain ⟨howner', -, hflock⟩ := (keeps_unlocked howner ho).fds fd' hfd'
    exact ⟨howner', Function.update_of_ne hne _ _, hflock⟩
  have hvalues : SameValues s
      { s.unlocked fd with descriptions := Function.update s.descriptions fd none } :=
    ⟨fun _ => rfl, fun _ => rfl⟩
  obtain ⟨hlocks, hnames⟩ := hs.values hvalues fun o _ ho => hkeeps o (ho t)
  refine ⟨⟨hs.way, fun fd' d hd => ?_, hs.fresh, hs.numbers, hlocks, hnames⟩, hkeeps⟩
  by_cases hfd : fd' = fd
  · subst hfd
    simp at hd
  · simp only [Function.update_of_ne hfd] at hd
    exact hs.found fd' d hd

theorem keeps_entered (hs : Inv names tree₀ s) {name : Path} {file : Option InodeId} {o : Owner}
    (ho : o ≠ .nobody) : Keeps o s (s.entered t name file) := by
  refine ⟨fun _ hfd => ⟨hfd, rfl, fun _ hi => hi⟩, fun p e _ he => ?_⟩
  have hne : ¬ (p = t.pid ∧ e = (s.processes t.pid).nextEntry) := by
    rintro ⟨rfl, rfl⟩
    exact ho (he.symm.trans (hs.numbers _ _ (Nat.le_refl _)))
  refine ⟨by simpa [Shared.entered, Shared.giveEntry, Shared.setProcess, hne] using he, ?_⟩
  intro kept hkept _
  by_cases hp : p = t.pid
  · subst hp
    simp [Shared.entered, Shared.giveEntry, Shared.setProcess, hkept]
  · simpa [Shared.entered, Shared.giveEntry, Shared.setProcess, hp] using hkept

theorem sameValues_entered {name : Path} {file : Option InodeId} :
    SameValues s (s.entered t name file) := by
  constructor
  all_goals
    intro p
    by_cases hp : p = t.pid
    · subst hp
      simp [Shared.entered, Shared.giveEntry, Shared.setProcess]
    · simp [Shared.entered, Shared.giveEntry, Shared.setProcess, hp]

theorem enter_step (hs : Inv names tree₀ s) {luck : Luck} {file : Option InodeId} {entry : Nat}
    (h : exec t (.enter (lock_path (Tree.absolute names)) file) luck s = some (entry, s')) :
    Inv names tree₀ s' ∧ (∀ o, o ≠ .nobody → Keeps o s s') ∧
      s'.entryOwner t.pid entry = .task t ∧
      ∃ kept ∈ (s'.processes t.pid).listed, kept.entry = entry ∧
        kept.name = lock_path (Tree.absolute names) ∧ kept.file = file := by
  cases luck <;> simp only [exec] at h
  all_goals cases h
  have hkeeps : ∀ o, o ≠ .nobody →
      Keeps o s (s.entered t (lock_path (Tree.absolute names)) file) :=
    fun o ho => keeps_entered hs ho
  obtain ⟨hlocks, hnames⟩ := hs.values sameValues_entered fun o ho _ => hkeeps o ho
  refine ⟨⟨hs.way, hs.found, hs.fresh, ?_, hlocks, hnames⟩, hkeeps, ?_, ?_⟩
  · intro p e he
    by_cases hp : p = t.pid
    · subst hp
      simp only [Shared.entered, Shared.giveEntry, Shared.setProcess, Function.update_self] at he
      have hne : e ≠ (s.processes t.pid).nextEntry := by omega
      simp only [Shared.entered, Shared.giveEntry, Shared.setProcess, hne, and_false, if_false]
      exact hs.numbers _ e (by omega)
    · simp only [Shared.entered, Shared.giveEntry, Shared.setProcess, Function.update_of_ne hp]
        at he
      simp only [Shared.entered, Shared.giveEntry, Shared.setProcess, hp, false_and, if_false]
      exact hs.numbers p e he
  · simp [Shared.entered, Shared.giveEntry]
  · refine ⟨⟨(s.processes t.pid).nextEntry, lock_path (Tree.absolute names), file⟩, ?_, rfl, rfl,
      rfl⟩
    have habs : s.absolutePath t.pid (lock_path (Tree.absolute names)) =
        lock_path (Tree.absolute names) := by
      rw [Shared.absolutePath, if_pos]
      rw [lock_path_absolute]
      simp [Path.isAbsolute, Tree.absolute]
    simp [Shared.entered, Shared.giveEntry, Shared.setProcess, habs]

theorem retain_step (hs : Inv names tree₀ s) {luck : Luck} {entry : Nat} {r : Unit}
    (howner : s.entryOwner t.pid entry = .task t)
    (h : exec t (.retain entry) luck s = some (r, s')) :
    Inv names tree₀ s' ∧ (∀ o, o ≠ .task t → Keeps o s s') ∧ s'.fdOwner = s.fdOwner := by
  cases luck <;> simp only [exec] at h
  all_goals cases h
  have hkeeps : ∀ o, o ≠ .task t → Keeps o s (s.setProcess t.pid fun q =>
      { q with listed := q.listed.filter fun kept => decide (kept.entry ≠ entry) }) := by
    intro o ho
    refine ⟨fun _ hfd => ⟨hfd, rfl, fun _ hi => hi⟩, fun p e _ he => ⟨he, ?_⟩⟩
    intro kept hkept hke
    by_cases hp : p = t.pid
    · subst hp
      have hne : kept.entry ≠ entry := by
        rintro rfl
        exact ho (he.symm.trans (hke ▸ howner))
      simp [Shared.setProcess, hkept, hne]
    · simpa [Shared.setProcess, hp] using hkept
  have hvalues : SameValues s (s.setProcess t.pid fun q =>
      { q with listed := q.listed.filter fun kept => decide (kept.entry ≠ entry) }) := by
    constructor
    all_goals
      intro p
      by_cases hp : p = t.pid
      · subst hp
        simp [Shared.setProcess]
      · simp [Shared.setProcess, hp]
  obtain ⟨hlocks, hnames⟩ := hs.values hvalues fun o _ ho => hkeeps o (ho t)
  refine ⟨⟨hs.way, hs.found, hs.fresh, ?_, hlocks, hnames⟩, hkeeps, rfl⟩
  intro p e he
  by_cases hp : p = t.pid
  · subst hp
    simp only [Shared.setProcess, Function.update_self] at he
    exact hs.numbers _ e he
  · simp only [Shared.setProcess, Function.update_of_ne hp] at he
    exact hs.numbers p e he

end Steps

/-! ## The programs -/

section Programs

variable {tree₀ : Tree} {t : Task} {sd : InodeId}

/-- A description whose lock is held. -/
def Locked (t : Task) (fd : Fd) (d : Description) (s : Shared) : Prop :=
  Mine t fd d s ∧ s.flocks d.file = some fd

theorem stable_locked {fd : Fd} {d : Description} : Stable t (Locked t fd d) := by
  rintro s s' hk ⟨hmine, hlock⟩
  exact ⟨stable_mine s s' hk hmine, (hk.fds fd hmine.1).2.2 _ hlock⟩

theorem stable_holds {lock : InstanceLock} : Stable t (Holds names (.task t) t.pid lock) :=
  fun _ _ hk h => h.keeps hk

theorem stable_names {e : Nat} : Stable t (Names names (.task t) t.pid e) :=
  fun _ _ hk h => h.keeps hk

theorem fstat_ok {fd : Fd} {luck : Luck} {st : FileStat}
    (h : exec t (.fstat fd) luck s = some (.ok st, s')) :
    s' = s ∧ ∃ d, s.descriptions fd = some d ∧ st.identity = d.file ∧ st.regular = d.regular := by
  simp only [exec] at h
  split at h
  · cases h
  · rename_i n d hd
    cases h
    exact ⟨rfl, d, hd, rfl, rfl⟩
  · cases h

theorem require_plain_ok {path : Path} {r : Except Errno FileStat} {identity : InodeId}
    (h : require_plain_lock_file path r = .ok identity) :
    ∃ st, r = .ok st ∧ st.regular = true ∧ identity = st.identity := by
  unfold require_plain_lock_file at h
  split at h
  · cases h
  · rename_i st
    split at h
    · cases h
    · rename_i hreg
      split at h
      · cases h
      · cases h
        exact ⟨st, rfl, by simpa using hreg, rfl⟩

/-- **`try_acquire` keeps the invariant, and what it returns is held.** -/
theorem try_acquire_safe (hsd : tree₀.descend tree₀.root names = some sd) :
    Safe (rules names tree₀ t)
      (fun r s => ∀ lock, r = .ok (.operator lock) → Holds names (.task t) t.pid lock s)
      (try_acquire (Tree.absolute names)) s := by
  unfold try_acquire
  refine safe_ask rfl ?_
  intro _ _ _ u _ _ _
  refine safe_call stable_true trivial ?_
  intro u luck r u' hu _ hexec _
  obtain ⟨hinv, hkeeps, hopened⟩ := opened_step hu hsd hexec
  refine ⟨hinv, hkeeps, ?_⟩
  split
  · refine safe_ask rfl ?_
    intro _ _ _ _ _ _ _
    exact fun _ _ _ h => (by cases h)
  · rename_i fd
    obtain ⟨d, hd⟩ := hopened fd rfl
    refine safe_quiet stable_mine hd rfl ?_
    intro v luck r v' hv hmine hexec _
    split
    · -- the file is closed before the list is let go
      refine safe_call stable_mine hmine ?_
      intro w luck r w' hw hmine hexec _
      obtain ⟨hinv, hkeeps⟩ := close_step hw hmine.1 hexec
      refine ⟨hinv, fun o ho _ => hkeeps o ho, safe_ask rfl ?_⟩
      intro _ _ _ _ _ _ _
      exact fun _ _ _ h => (by cases h)
    · rename_i identity hplain
      obtain ⟨st, rfl, hreg, rfl⟩ := require_plain_ok hplain
      obtain ⟨rfl, d', hd', hid, hreg'⟩ := fstat_ok hexec
      cases hmine.2.symm.trans hd'
      refine safe_call stable_mine hmine ?_
      intro w luck r w' hw hmine hexec _
      obtain ⟨hinv, hkeeps, hmine', hlock⟩ := flock_step hw hmine hexec
      refine ⟨hinv, fun o _ _ => hkeeps o, ?_⟩
      split
      · refine safe_call stable_locked ⟨hmine', hlock rfl⟩ ?_
        intro x luck entry x' hx hlocked hexec _
        obtain ⟨hinv, hkeeps, howner, kept, hkept, hke, hname, hfile⟩ := enter_step hx hexec
        refine ⟨hinv, fun o _ ho => hkeeps o ho, ?_⟩
        obtain ⟨⟨hfdOwner, hdesc⟩, hflock⟩ :=
          stable_locked x x' (hkeeps _ fun h => Owner.noConfusion h) hlocked
        have hholds : Holds names (.task t) t.pid ⟨fd, entry⟩ x' :=
          ⟨decide_eq_true rfl, hfdOwner, howner, d, hdesc, hreg' ▸ hreg, hflock, kept, hkept, hke, hname, hid ▸ hfile⟩
        refine safe_quiet stable_holds hholds rfl ?_
        intro _ _ _ y _ hholds _ _
        refine safe_done ?_ fun lock h => ?_
        · intro s s' hk h lock hlock
          exact (h lock hlock).keeps hk
        · cases h
          exact hholds
      · refine safe_quiet stable_mine hmine' rfl ?_
        intro _ _ _ x _ hmine _ _
        refine safe_call stable_mine hmine ?_
        intro y luck r y' hy hmine hexec _
        obtain ⟨hinv, hkeeps⟩ := close_step hy hmine.1 hexec
        refine ⟨hinv, fun o ho _ => hkeeps o ho, ?_⟩
        intro _ _ lock h
        split at h
        all_goals cases h

/-- What a task drops is its own. -/
def Dropping (t : Task) (lock : InstanceLock) (s : Shared) : Prop :=
  s.fdOwner lock.file = .task t ∧ s.entryOwner t.pid lock.entry = .task t

theorem stable_dropping {lock : InstanceLock} : Stable t (Dropping t lock) := by
  rintro s s' hk ⟨hfd, hentry⟩
  exact ⟨(hk.fds _ hfd).1, (hk.entries _ _ (decide_eq_true rfl) hentry).1⟩

theorem stable_fdOwner {fd : Fd} : Stable t fun s => s.fdOwner fd = .task t :=
  fun _ _ hk h => (hk.fds fd h).1

theorem stable_entryOwner {e : Nat} : Stable t fun s => s.entryOwner t.pid e = .task t :=
  fun _ _ hk h => (hk.entries _ _ (decide_eq_true rfl) h).1

theorem drop_safe {lock : InstanceLock} (h : Dropping t lock s) :
    Safe (rules names tree₀ t) (fun _ _ => True) lock.drop s := by
  unfold InstanceLock.drop
  refine safe_quiet stable_dropping h rfl ?_
  intro _ _ _ u _ hu _ _
  refine safe_call stable_dropping hu ?_
  intro v luck r v' hv hd hexec _
  obtain ⟨hinv, hkeeps, howners⟩ := retain_step hv hd.2 hexec
  have howner : v'.fdOwner lock.file = .task t := by rw [howners]; exact hd.1
  refine ⟨hinv, fun o ho _ => hkeeps o ho, safe_call stable_fdOwner howner ?_⟩
  intro w luck r w' hw howner hexec _
  obtain ⟨hinv, hkeeps, howner'⟩ := unflock_step hw howner hexec
  refine ⟨hinv, fun o ho _ => hkeeps o ho, safe_quiet stable_fdOwner howner' rfl ?_⟩
  intro _ _ _ x _ hx _ _
  refine safe_call (k := fun r => .done r) stable_fdOwner hx ?_
  intro y luck r y' hy howner hexec _
  obtain ⟨hinv, hkeeps⟩ := close_step hy howner hexec
  exact ⟨hinv, fun o ho _ => hkeeps o ho, fun _ _ => trivial⟩

theorem in_dir_safe :
    Safe (rules names tree₀ t) (fun e s => Names names (.task t) t.pid e s)
      (LockName.in_dir (Tree.absolute names)) s := by
  unfold LockName.in_dir
  refine safe_ask rfl ?_
  intro _ _ _ u _ _ _
  refine safe_call stable_true trivial ?_
  intro v luck entry v' hv _ hexec _
  obtain ⟨hinv, hkeeps, howner, kept, hkept, hke, hname, -⟩ := enter_step hv hexec
  refine ⟨hinv, fun o _ ho => hkeeps o ho, ?_⟩
  refine safe_quiet stable_names ⟨decide_eq_true rfl, howner, kept, hkept, hke, hname⟩ rfl ?_
  intro _ _ _ w _ hnames _ _
  exact safe_done stable_names hnames

theorem name_drop_safe {entry : Nat} (h : s.entryOwner t.pid entry = .task t) :
    Safe (rules names tree₀ t) (fun _ _ => True) (LockName.drop entry) s := by
  unfold LockName.drop
  refine safe_quiet stable_entryOwner h rfl ?_
  intro _ _ _ u _ hu _ _
  refine safe_call stable_entryOwner hu ?_
  intro v luck r v' hv howner hexec _
  obtain ⟨hinv, hkeeps, -⟩ := retain_step hv howner hexec
  refine ⟨hinv, fun o ho _ => hkeeps o ho, safe_ask (k := fun r => .done r) rfl ?_⟩
  intro _ _ _ _ _ _ _
  exact fun _ _ => trivial

theorem Clear.later {tree : Tree} {n : Name} {d : InodeId} (h : Clear names tree₀ n d)
    (hway : ∀ front, front <+: names →
      tree.descend tree.root front = tree₀.descend tree₀.root front) : Clear names tree n d := by
  refine ⟨fun front back hnames => ?_, fun hlock => ?_⟩
  · rw [hway front ⟨n :: back, hnames.symm⟩]
    exact h.1 front back hnames
  · rw [hway names List.prefix_rfl]
    exact h.2 hlock

theorem renameat2_safe {src dest : Path} {way : Option InodeId} (hop : t.op = .rename src dest way)
    (hsd : tree₀.descend tree₀.root names = some sd)
    (hclear : ∀ n d, src.fileName = some n → way = some d → Clear names tree₀ n d) :
    Safe (rules names tree₀ t) (fun _ _ => True) (perform (.renameat2 src dest)) s := by
  refine safe_call (k := fun r => .done r) stable_true trivial ?_
  intro u luck r u' hu _ hexec hfits
  simp only [exec] at hexec
  split at hexec
  · cases hexec
    exact ⟨hu, fun o _ _ => (Agrees.refl u).keeps o, fun _ _ => trivial⟩
  · split at hexec
    · cases hexec
      exact ⟨hu, fun o _ _ => (Agrees.refl u).keeps o, fun _ _ => trivial⟩
    · rename_i tree htree
      cases hexec
      have hund : Undisturbed names u.tree tree := by
        refine undisturbed_renameat2 htree fun n d hn hd => ?_
        have hway := hfits.way src dest way hop
        rw [hd] at hway
        exact (hclear n d hn hway.symm).later hu.way
      refine ⟨hu.tree_undisturbed hsd hund, fun o _ _ => ?_, fun _ _ => trivial⟩
      exact ⟨fun _ hfd => ⟨hfd, rfl, fun _ hi => hi⟩, fun _ _ _ he => ⟨he, fun _ hkept _ => hkept⟩⟩
  · cases hexec

theorem rename_noreplace_safe {src dest : Path} {way : Option InodeId}
    (hop : t.op = .rename src dest way) (hsd : tree₀.descend tree₀.root names = some sd) :
    Safe (rules names tree₀ t) (fun _ _ => True) (rename_noreplace src dest) s := by
  have hend : ∀ {α : Type} (a : α) (u : Shared), Safe (rules names tree₀ t) (fun _ _ => True)
      (perform .endRead >>= fun _ => (.done a : Prog α)) u := by
    intro α a u
    refine safe_ask rfl ?_
    intro _ _ _ _ _ _ _
    exact fun _ _ => trivial
  have hunless : ∀ u, Safe (rules names tree₀ t) (fun _ _ => True)
      (unless_part_of_lock src (perform (.renameat2 src dest))) u := by
    intro u
    unfold unless_part_of_lock
    refine safe_ask rfl ?_
    intro v luck listed v' hv hexec hfits
    -- a process that renames has the lock file on its list
    have hlisted : ∃ kept ∈ listed, kept.name = lock_path (Tree.absolute names) := by
      obtain ⟨e, he⟩ := List.exists_mem_of_ne_nil _ (hfits.named src dest way hop)
      obtain ⟨kept, hkept, -, hname⟩ := (hv.names t.pid e he).listed
      refine ⟨kept, ?_, hname⟩
      cases luck <;> simp only [exec] at hexec
      all_goals try cases hexec
      split at hexec
      · cases hexec
        exact hkept
      · cases hexec
    refine Safe.bind (part_listed_safe hop hsd hlisted) ?_
    intro r w hr
    split
    · exact hend _ _
    · exact hend _ _
    · refine Safe.bind (renameat2_safe hop hsd (hr rfl)) ?_
      intro outcome x _
      exact hend _ _
  unfold rename_noreplace
  refine safe_ask rfl ?_
  intro u luck r u' hu hexec _
  split
  · exact fun _ _ => trivial
  · exact fun _ _ => trivial
  · refine Safe.bind (hunless u') ?_
    intro r v _
    split
    all_goals exact fun _ _ => trivial

/-- What a task leaves to its process. -/
structure Result (names : List Name) (t : Task) (out : Outcome) (s : Shared) : Prop where
  lock : ∀ lock, out = .acquired (.ok (.operator lock)) → Holds names (.task t) t.pid lock s
  name : ∀ e, out = .named e → Names names (.task t) t.pid e s

/-- What a task needs of the state it begins in. -/
def Ready (t : Task) (s : Shared) : Prop :=
  match t.op with
  | .release lock => Dropping t lock s
  | .unname entry => s.entryOwner t.pid entry = .task t
  | _ => True

theorem program_safe (hsd : tree₀.descend tree₀.root names = some sd) (h : Ready t s) :
    Safe (rules names tree₀ t) (Result names t) (program (Tree.absolute names) t.op) s := by
  have hnothing : ∀ (out : Outcome) (u : Shared),
      (∀ lock, out ≠ .acquired (.ok (.operator lock))) → (∀ e, out ≠ .named e) →
      Safe (rules names tree₀ t) (Result names t) (.done out) u :=
    fun out u hlock hname v _ =>
      ⟨fun lock h => absurd h (hlock lock), fun e h => absurd h (hname e)⟩
  unfold Ready at h
  cases hop : t.op with
  | acquire =>
    refine Safe.bind (try_acquire_safe hsd) fun r u hr => ?_
    refine safe_done ?_ ⟨fun lock h => ?_, fun e h => (by cases h)⟩
    · exact fun v v' hk hv =>
        ⟨fun lock h => (hv.lock lock h).keeps hk, fun e h => (hv.name e h).keeps hk⟩
    · cases h
      exact hr lock rfl
  | release lock =>
    rw [hop] at h
    refine Safe.bind (drop_safe h) fun _ u _ => ?_
    exact hnothing _ u (fun _ h => (by cases h)) fun _ h => (by cases h)
  | name =>
    refine Safe.bind in_dir_safe fun e u he => ?_
    refine safe_done ?_ ⟨fun lock h => (by cases h), fun e' h => ?_⟩
    · exact fun v v' hk hv =>
        ⟨fun lock h => (hv.lock lock h).keeps hk, fun e h => (hv.name e h).keeps hk⟩
    · cases h
      exact he
  | unname entry =>
    rw [hop] at h
    refine Safe.bind (name_drop_safe h) fun _ u _ => ?_
    exact hnothing _ u (fun _ h => (by cases h)) fun _ h => (by cases h)
  | rename src dest way =>
    refine Safe.bind (rename_noreplace_safe hop hsd) fun r u _ => ?_
    exact hnothing _ u (fun _ h => (by cases h)) fun _ h => (by cases h)

end Programs

end DedupCommando.Lock
