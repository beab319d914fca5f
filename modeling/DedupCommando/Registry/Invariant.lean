import DedupCommando.Registry.System

/-!
# What holds while databases are open

* `Answers`, `Inv` — the entry of a connection answers for every file SQLite has open for it.
* `Keeps`, `Others` — what a step leaves of a task's connections, descriptors, hold on the list and
  of the names.
* `rules`, `safe_call`, `safe_same` — one call among everybody else's.
* `Inv.not_held` — a file no entry answers for is no connection's.
-/

set_option autoImplicit false

namespace DedupCommando.OpenDb

open Program (Safe Rules)

/-! ## The invariant -/

/-- What SQLite has open is at its name, and what was noted of it is it. -/
structure Answers (disk : Disk) (held files : List (Path × Option InodeId)) : Prop where
  names : held.map Prod.fst = files.map Prod.fst
  there : ∀ (i : Nat) (name : Path) (file : InodeId), held[i]? = some (name, some file) → disk.lstat name = some file
  noted : ∀ (i : Nat) (name : Path) (file other : InodeId), held[i]? = some (name, some file) →
    files[i]? = some (name, some other) → other = file

/-- **What holds between any two calls.** -/
structure Inv (s : Shared) : Prop where
  live : ∀ e ∈ s.listed, s.live e.connection = some (e.files.map Prod.fst)
  unique : (s.listed.map HeldFiles.connection).Nodup
  conns : ∀ c held, s.conns c = some held →
    ∃ e ∈ s.listed, e.connection = c ∧ Answers s.disk held e.files
  noted : ∀ e ∈ s.listed, ∀ name file rest, e.files = (name, some file) :: rest →
    s.disk.lstat name = some file
  numbers : ∀ c, s.next ≤ c → s.connOwner c = .nobody ∧ s.live c = none
  fresh : ∀ fd, s.nextFd ≤ fd → s.fdOwner fd = .nobody ∧ s.fds fd = none
  lock : ∀ t, s.writer = some t → s.readers = []
  stores : ∀ c ∈ s.stores, s.connOwner c = .value ∧ s.conns c ≠ none
  reads : ∀ r ∈ s.reads, s.fdOwner r.file = .value ∧
    ∃ d, s.fds r.file = some d ∧ d.file = r.identity

variable {s s' : Shared}

theorem Inv.entry_unique (hs : Inv s) {a b : HeldFiles} (ha : a ∈ s.listed) (hb : b ∈ s.listed)
    (h : a.connection = b.connection) : a = b :=
  List.inj_on_of_nodup_map hs.unique ha hb h

theorem Inv.entry_lt (hs : Inv s) {e : HeldFiles} (he : e ∈ s.listed) : e.connection < s.next := by
  by_contra hle
  have := hs.live e he
  rw [(hs.numbers _ (not_lt.1 hle)).2] at this
  cases this

/-- An entry answers for a file: it was noted, or its name holds it. -/
def Passed (file : InodeId) (known : Path × Option InodeId) (s : Shared) : Prop :=
  known.2 ≠ some file ∧ (known.2 = none → s.disk.lstat known.1 ≠ some file)

/-- **A file that no entry answers for is open in no connection.** -/
theorem Inv.not_held (hs : Inv s) {file : InodeId}
    (h : ∀ e ∈ s.listed, ∀ known ∈ e.files, Passed file known s) : ¬Held s file := by
  rintro ⟨c, held, hheld, name, hname⟩
  obtain ⟨e, he, -, hans⟩ := hs.conns c held hheld
  obtain ⟨i, hi⟩ := List.mem_iff_getElem?.1 hname
  have hfst : (e.files.map Prod.fst)[i]? = some name := by
    rw [← hans.names, List.getElem?_map, hi]
    rfl
  rw [List.getElem?_map, Option.map_eq_some_iff] at hfst
  obtain ⟨⟨name', noted⟩, hknown, rfl⟩ := hfst
  obtain ⟨hnoted, hthere⟩ := h e he _ (List.mem_of_getElem? hknown)
  cases noted with
  | none => exact hthere rfl (hans.there i _ file hi)
  | some other => exact hnoted (congrArg some (hans.noted i _ file other hi hknown))

/-! ## What a step leaves alone -/

/-- A connection's files, or fewer. -/
def LetGo (held held' : List (Path × Option InodeId)) : Prop :=
  held'.map Prod.fst = held.map Prod.fst ∧
    ∀ (i : Nat) (name : Path) (file : InodeId), held'[i]? = some (name, some file) →
      held[i]? = some (name, some file)

theorem LetGo.refl (held : List (Path × Option InodeId)) : LetGo held held :=
  ⟨rfl, fun _ _ _ h => h⟩

structure KeepsConn (c : Nat) (s s' : Shared) : Prop where
  owner : s'.connOwner c = s.connOwner c
  live : s'.live c = s.live c
  closed : s.conns c = none → s'.conns c = none
  conn : ∀ held, s.conns c = some held → ∃ held', s'.conns c = some held' ∧ LetGo held held'
  listed : ∀ e, e.connection = c → (e ∈ s'.listed ↔ e ∈ s.listed)

structure KeepsFd (fd : Fd) (s s' : Shared) : Prop where
  owner : s'.fdOwner fd = s.fdOwner fd
  fds : s'.fds fd = s.fds fd

/-- A hold on the list, to read or to write, keeps it as it is. -/
structure KeepsHold (t : Task) (s s' : Shared) : Prop where
  reading : t ∈ s.readers → t ∈ s'.readers ∧ s'.listed = s.listed ∧
    ∀ e ∈ s.listed, s'.live e.connection = s.live e.connection
  writing : s.writer = some t → s'.writer = some t ∧ s'.listed = s.listed

/-- The names of a listed database: what comes to one is new, and the database and what SQLite has
    open stay. -/
structure KeepsNames (s s' : Shared) : Prop where
  pinned : ∀ file, ¬Fresh s file → ∀ c names, s.live c = some names → ∀ name ∈ names,
    s.disk.lstat name ≠ some file → s'.disk.lstat name ≠ some file
  database : ∀ c name rest file, s.live c = some (name :: rest) →
    s.disk.lstat name = some file → s'.disk.lstat name = some file
  held : ∀ c held (i : Nat) name file, s.conns c = some held → held[i]? = some (name, some file) →
    s.disk.lstat name = some file → s'.disk.lstat name = some file

theorem KeepsNames.of_disk (h : s'.disk = s.disk) : KeepsNames s s' := by
  refine ⟨?_, ?_, ?_⟩
  all_goals rw [h]
  · exact fun _ _ _ _ _ _ _ h => h
  · exact fun _ _ _ _ _ h => h
  · exact fun _ _ _ _ _ _ _ h => h

/-- What a task may count on. -/
structure Keeps (t : Task) (s s' : Shared) : Prop where
  conns : ∀ c, s.connOwner c = .task t → KeepsConn c s s'
  fds : ∀ fd, s.fdOwner fd = .task t → KeepsFd fd s s'
  hold : KeepsHold t s s'
  names : KeepsNames s s'

/-- What a task promises everybody else. -/
structure Others (t : Task) (s s' : Shared) : Prop where
  conns : ∀ c, s.connOwner c ≠ .task t → s.connOwner c ≠ .nobody → KeepsConn c s s'
  fds : ∀ fd, s.fdOwner fd ≠ .task t → s.fdOwner fd ≠ .nobody → KeepsFd fd s s'
  hold : ∀ j, j ≠ t → KeepsHold j s s'
  names : KeepsNames s s'

theorem Others.keeps {i j : Task} (h : Others i s s') (hj : j ≠ i) : Keeps j s s' := by
  refine ⟨fun c hc => h.conns c ?_ ?_, fun fd hfd => h.fds fd ?_ ?_, h.hold j hj, h.names⟩
  · rw [hc]
    exact fun h => hj (Owner.task.inj h)
  · rw [hc]
    exact Owner.noConfusion
  · rw [hfd]
    exact fun h => hj (Owner.task.inj h)
  · rw [hfd]
    exact Owner.noConfusion

/-! ## Calls among others -/

/-- A file that is watched at a path: SQLite has it open, and the path leads to it. -/
def Watched (watch : Option (Path × InodeId)) (s : Shared) : Prop :=
  ∀ path file, watch = some (path, file) → Held s file ∧ s.disk.lstat path = some file

/-- A step closes no descriptor of a file SQLite has open, only a read opens one, and a read of the
    watched path opens none. -/
structure Guar (watch : Option (Path × InodeId)) (t : Task) (s s' : Shared) : Prop
    extends Others t s s' where
  closes : ∀ fd d, s.fds fd = some d → s'.fds fd = none → ¬Held s d.file
  opener : ∀ fd, s.fds fd = none → s'.fds fd ≠ none → ∃ path, t.op = .read path
  opens : ∀ path file, watch = some (path, file) → t.op = .read path →
    ∀ fd, s.fds fd = none → s'.fds fd = none

section Calls

variable (watch : Option (Path × InodeId))

/-- What a task and everything around it agree on. -/
def rules (t : Task) : Rules Call Reply Shared where
  acts c s r s' := ∃ luck, exec t c luck s = some (r, s') ∧ Fits c luck s ∧
    Watched watch s ∧ Watched watch s'
  inv := Inv
  rely s s' := Keeps t s s' ∧ Watched watch s'
  guar s s' := Guar watch t s s' ∧ Watched watch s'

variable {watch} {t : Task} {α : Type} {Q : α → Shared → Prop}

theorem stable_of_keeps {P : Shared → Prop} (h : ∀ s s', Keeps t s s' → P s → P s') :
    (rules watch t).Stable P := fun s s' hst hs => h s s' hst.1 hs

theorem stable_true : (rules watch t).Stable fun _ => True := fun _ _ _ _ => trivial

/-- A call, with what is known before it. -/
theorem safe_call {P : Shared → Prop} {c : Call} {k : Reply c → Prog α}
    (hP : (rules watch t).Stable P) (hs : P s)
    (h : ∀ u luck r u', Inv u → P u → exec t c luck u = some (r, u') → Fits c luck u →
      Watched watch u → Inv u' ∧ Guar watch t u u' ∧ Safe (rules watch t) Q (k r) u') :
    Safe (rules watch t) Q (perform c >>= k) s := by
  rintro u hsu hu r u' ⟨luck, hexec, hfits, hwatched, hwatched'⟩
  obtain ⟨hinv, hguar, hk⟩ := h u luck r u' hu (hP.later hsu hs) hexec hfits hwatched
  exact ⟨hinv, ⟨hguar, hwatched'⟩, hk⟩

theorem KeepsConn.refl (c : Nat) (s : Shared) : KeepsConn c s s :=
  ⟨rfl, rfl, fun h => h, fun held h => ⟨held, h, .refl held⟩, fun _ _ => Iff.rfl⟩

theorem KeepsHold.refl (t : Task) (s : Shared) : KeepsHold t s s :=
  ⟨fun h => ⟨h, rfl, fun _ _ => rfl⟩, fun h => ⟨h, rfl⟩⟩

theorem Guar.refl (s : Shared) : Guar watch t s s where
  conns c _ _ := .refl c s
  fds _ _ _ := ⟨rfl, rfl⟩
  hold j _ := .refl j s
  names := .of_disk rfl
  closes fd d h h' := by rw [h] at h'; cases h'
  opener _ h h' := absurd h h'
  opens _ _ _ _ _ h := h

/-- The calls that change nothing. -/
def asks : Call → Bool
  | .identityAt _ | .stat _ | .sqliteRun _ | .fstat _ => true
  | _ => false

theorem same_of_asks {c : Call} {luck : Luck} {r : Reply c} (hc : asks c = true)
    (h : exec t c luck s = some (r, s')) : s' = s := by
  cases c
  case identityAt | stat | sqliteRun =>
    cases luck <;> simp only [exec] at h
    all_goals cases h
    all_goals rfl
  case fstat =>
    cases luck <;> simp only [exec] at h
    case plain =>
      obtain ⟨d, -, hd⟩ := Option.map_eq_some_iff.1 h
      cases hd
      rfl
    all_goals cases h
    rfl
  all_goals cases hc

/-- A call that changes nothing. -/
theorem safe_same {P : Shared → Prop} {c : Call} {k : Reply c → Prog α}
    (hP : (rules watch t).Stable P) (hs : P s) (hc : asks c = true)
    (h : ∀ u luck r, Inv u → P u → exec t c luck u = some (r, u) → Fits c luck u →
      Watched watch u → Safe (rules watch t) Q (k r) u) :
    Safe (rules watch t) Q (perform c >>= k) s := by
  refine safe_call hP hs fun u luck r u' hu hPu hexec hfits hwatched => ?_
  obtain rfl := same_of_asks hc hexec
  exact ⟨hu, .refl _, h u' luck r hu hPu hexec hfits hwatched⟩

end Calls

end DedupCommando.OpenDb
