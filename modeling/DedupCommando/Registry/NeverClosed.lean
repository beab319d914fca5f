import DedupCommando.Registry.Programs

/-!
# Never closed behind SQLite's back

* `begun_step`, `ended_step`, `other_step`, `lets_step` — what passes between tasks and the
  process, and what others do to the names.
* `ordered_step` — one event keeps every thread safe among the others.
* `never_behind_sqlite` — **in every run no descriptor of a file that SQLite has open is closed, and
  a read that begins while SQLite has the file open does not open it.**
* `not_never_opened` — a file that SQLite opens between the look and the open is opened once more.
-/

set_option autoImplicit false

namespace DedupCommando.OpenDb

open Program (Safe)

variable {s : Shared} {t : Task} {watch : Option (Path × InodeId)} {c : Nat}

/-! ## Beginnings and ends -/

theorem Inv.lt_of_owned (hs : Inv s) {o : Owner} (ho : o ≠ .nobody) (hc : s.connOwner c = o) :
    c < s.next := by
  by_contra hle
  exact ho (hc.symm.trans (hs.numbers c (not_lt.1 hle)).1)

theorem takeStore_step (hs : Inv s) (hmem : c ∈ s.stores) :
    Inv (s.takeStore t c) ∧ (∀ j, Keeps j s (s.takeStore t c)) ∧ Opened t c (s.takeStore t c) := by
  obtain ⟨hvalue, hopen⟩ := hs.stores c hmem
  have hlt := hs.lt_of_owned (fun h => Owner.noConfusion h) hvalue
  refine ⟨⟨hs.live, hs.unique, hs.conns, hs.noted, ?_, hs.fresh, hs.lock, ?_, hs.reads⟩, ?_,
    Function.update_self _ _ _, hopen⟩
  · intro c' hc'
    have hne : c' ≠ c := by
      rintro rfl
      exact absurd hlt (not_lt.2 hc')
    exact ⟨(Function.update_of_ne hne _ _).trans (hs.numbers c' hc').1, (hs.numbers c' hc').2⟩
  · intro c' hc'
    obtain ⟨hc', hne⟩ := List.mem_filter.1 hc'
    obtain ⟨hvalue', hopen'⟩ := hs.stores c' hc'
    exact ⟨(Function.update_of_ne (of_decide_eq_true hne) _ _).trans hvalue', hopen'⟩
  · intro j
    refine ⟨fun c' hc' => ?_, fun _ _ => ⟨rfl, rfl⟩, ⟨fun h => ⟨h, rfl, fun _ _ => rfl⟩,
      fun h => ⟨h, rfl⟩⟩, .of_disk rfl⟩
    have hne : c' ≠ c := by
      rintro rfl
      exact Owner.noConfusion (hvalue.symm.trans hc')
    exact ⟨Function.update_of_ne hne _ _, rfl, fun h => h, fun held h => ⟨held, h, .refl held⟩,
      fun _ _ => Iff.rfl⟩

theorem begun_step (hs : Inv s) (h : s.mayBegin t.op = true) :
    Inv (s.begun t) ∧ (∀ j, Keeps j s (s.begun t)) ∧ Ready t (s.begun t) := by
  have hself : ∀ j, Keeps j s s := fun j =>
    ⟨fun c _ => .refl c s, fun _ _ => ⟨rfl, rfl⟩, .refl j s, .of_disk rfl⟩
  unfold Shared.mayBegin at h
  unfold Shared.begun Ready
  cases hop : t.op with
  | statement c =>
    rw [hop] at h
    exact takeStore_step hs (of_decide_eq_true h)
  | drop c =>
    rw [hop] at h
    obtain ⟨hinv, hkeeps, howner, -⟩ := takeStore_step (t := t) hs (of_decide_eq_true h)
    exact ⟨hinv, hkeeps, howner⟩
  | done file =>
    rw [hop] at h
    obtain ⟨hvalue, d, hd, hfile⟩ := hs.reads file (of_decide_eq_true h)
    refine ⟨⟨hs.live, hs.unique, hs.conns, hs.noted, hs.numbers, ?_, hs.lock, hs.stores, ?_⟩, ?_,
      Function.update_self _ _ _, d, hd, hfile⟩
    · intro fd hfd
      have hne : fd ≠ file.file := by
        rintro rfl
        exact Owner.noConfusion ((hs.fresh _ hfd).1.symm.trans hvalue)
      exact ⟨(Function.update_of_ne hne _ _).trans (hs.fresh fd hfd).1, (hs.fresh fd hfd).2⟩
    · intro r hr
      obtain ⟨hr, hne⟩ := List.mem_filter.1 hr
      obtain ⟨hvalue', d', hd', hfile'⟩ := hs.reads r hr
      -- a descriptor is of one file, so it is one value's
      have hfd : r.file ≠ file.file := by
        intro heq
        refine of_decide_eq_true hne ?_
        rw [heq, hd, Option.some.injEq] at hd'
        subst hd'
        cases r
        cases file
        simp_all
      exact ⟨(Function.update_of_ne hfd _ _).trans hvalue', d', hd', hfile'⟩
    · intro j
      refine ⟨fun c _ => ⟨rfl, rfl, fun h => h, fun held h => ⟨held, h, .refl held⟩,
        fun _ _ => Iff.rfl⟩, fun fd hfd => ?_, ⟨fun h => ⟨h, rfl, fun _ _ => rfl⟩,
        fun h => ⟨h, rfl⟩⟩, .of_disk rfl⟩
      have hne : fd ≠ file.file := by
        rintro rfl
        exact Owner.noConfusion (hvalue.symm.trans hfd)
      exact ⟨Function.update_of_ne hne _ _, rfl⟩
  | _ => exact ⟨hs, hself, trivial⟩

theorem keepStore_step (hs : Inv s) (hopen : Opened t c s) :
    Inv (s.keepStore c) ∧ ∀ j, j ≠ t → Keeps j s (s.keepStore c) := by
  have hlt := hs.lt_of_owned (fun h => Owner.noConfusion h) hopen.1
  refine ⟨⟨hs.live, hs.unique, hs.conns, hs.noted, ?_, hs.fresh, hs.lock, ?_, hs.reads⟩, ?_⟩
  · intro c' hc'
    have hne : c' ≠ c := by
      rintro rfl
      exact absurd hlt (not_lt.2 hc')
    exact ⟨(Function.update_of_ne hne _ _).trans (hs.numbers c' hc').1, (hs.numbers c' hc').2⟩
  · intro c' hc'
    by_cases hcc : c' = c
    · subst hcc
      exact ⟨Function.update_self _ _ _, hopen.2⟩
    · obtain ⟨hvalue', hopen'⟩ := hs.stores c' ((List.mem_cons.1 hc').resolve_left hcc)
      exact ⟨(Function.update_of_ne hcc _ _).trans hvalue', hopen'⟩
  · intro j hj
    refine ⟨fun c' hc' => ?_, fun _ _ => ⟨rfl, rfl⟩, ⟨fun h => ⟨h, rfl, fun _ _ => rfl⟩,
      fun h => ⟨h, rfl⟩⟩, .of_disk rfl⟩
    have hne : c' ≠ c := by
      rintro rfl
      exact hj (Owner.task.inj (hc'.symm.trans hopen.1))
    exact ⟨Function.update_of_ne hne _ _, rfl, fun h => h, fun held h => ⟨held, h, .refl held⟩,
      fun _ _ => Iff.rfl⟩

theorem ended_step {out : Outcome} (hs : Inv s) (h : Result t out s) :
    Inv (s.ended out) ∧ ∀ j, j ≠ t → Keeps j s (s.ended out) := by
  unfold Shared.ended
  split
  · exact keepStore_step hs (h.opened _ rfl)
  · exact keepStore_step hs (h.used _ rfl)
  · rename_i file
    obtain ⟨howner, d, hd, hfile⟩ := h.reading file rfl
    refine ⟨⟨hs.live, hs.unique, hs.conns, hs.noted, hs.numbers, ?_, hs.lock, hs.stores, ?_⟩, ?_⟩
    · intro fd hfd
      have hne : fd ≠ file.file := by
        rintro rfl
        exact Owner.noConfusion ((hs.fresh _ hfd).1.symm.trans howner)
      exact ⟨(Function.update_of_ne hne _ _).trans (hs.fresh fd hfd).1, (hs.fresh fd hfd).2⟩
    · intro r hr
      rcases List.mem_cons.1 hr with rfl | hr
      · exact ⟨Function.update_self _ _ _, d, hd, hfile⟩
      · obtain ⟨hvalue', hd'⟩ := hs.reads r hr
        have hne : r.file ≠ file.file := by
          intro heq
          exact Owner.noConfusion (hvalue'.symm.trans (heq ▸ howner))
        exact ⟨(Function.update_of_ne hne _ _).trans hvalue', hd'⟩
    · intro j hj
      refine ⟨fun c _ => ⟨rfl, rfl, fun h => h, fun held h => ⟨held, h, .refl held⟩,
        fun _ _ => Iff.rfl⟩, fun fd hfd => ?_, ⟨fun h => ⟨h, rfl, fun _ _ => rfl⟩,
        fun h => ⟨h, rfl⟩⟩, .of_disk rfl⟩
      have hne : fd ≠ file.file := by
        rintro rfl
        exact hj (Owner.task.inj (hfd.symm.trans howner))
      exact ⟨Function.update_of_ne hne _ _, rfl⟩
  · exact ⟨hs, fun j _ => ⟨fun c _ => .refl c s, fun _ _ => ⟨rfl, rfl⟩, .refl j s, .of_disk rfl⟩⟩

/-! ## The names and the journals -/

/-- What SQLite has open is at its name, and the name is a listed one. -/
theorem Inv.held_name (hs : Inv s) {held : List (Path × Option InodeId)} {i : Nat} {name : Path}
    {file : InodeId} (hheld : s.conns c = some held) (hi : held[i]? = some (name, some file)) :
    s.disk.lstat name = some file ∧ ∃ names, s.live c = some names ∧ name ∈ names := by
  obtain ⟨e, he, rfl, hans⟩ := hs.conns c held hheld
  refine ⟨hans.there i name file hi, _, hs.live e he, ?_⟩
  rw [← hans.names]
  exact List.mem_map.2 ⟨_, List.mem_of_getElem? hi, rfl⟩

theorem other_step {disk : Disk} (hs : Inv s) (h : Undisturbed s disk) :
    Inv { s with disk } ∧ ∀ j, Keeps j s { s with disk } := by
  have hheld : ∀ c held (i : Nat) name file, s.conns c = some held →
      held[i]? = some (name, some file) → disk.lstat name = some file := by
    intro c held i name file hheld hi
    obtain ⟨hthere, names, hlive, hname⟩ := hs.held_name hheld hi
    rcases h.names c names hlive name hname with hsame | ⟨hfree, -⟩
    · exact hsame.trans hthere
    · exact absurd ⟨c, held, hheld, name, List.mem_of_getElem? hi⟩ (hfree file hthere)
  refine ⟨⟨hs.live, hs.unique, ?_, ?_, hs.numbers, hs.fresh, hs.lock, hs.stores, hs.reads⟩, ?_⟩
  · intro c held hconn
    obtain ⟨e, he, hec, hans⟩ := hs.conns c held hconn
    exact ⟨e, he, hec, hans.names, fun i name file hi => hheld c held i name file hconn hi,
      hans.noted⟩
  · intro e he name file rest hfirst
    refine h.database e.connection name (rest.map Prod.fst) file ?_
      (hs.noted e he name file rest hfirst)
    rw [hs.live e he, hfirst]
    rfl
  · intro j
    refine ⟨fun c _ => ⟨rfl, rfl, fun h => h, fun held h => ⟨held, h, .refl held⟩,
      fun _ _ => Iff.rfl⟩, fun _ _ => ⟨rfl, rfl⟩, ⟨fun h => ⟨h, rfl, fun _ _ => rfl⟩,
      fun h => ⟨h, rfl⟩⟩, ?_, h.database,
      fun c held i name file hconn hi _ => hheld c held i name file hconn hi⟩
    intro file hpinned c names hlive name hname hne
    rcases h.names c names hlive name hname with hsame | ⟨-, hfresh⟩
    · exact fun heq => hne (hsame.symm.trans heq)
    · exact fun heq => hpinned (hfresh file heq)

theorem letGo_modify (held : List (Path × Option InodeId)) (i : Nat) :
    LetGo held (held.modify i fun file => (file.1, none)) := by
  refine ⟨?_, ?_⟩
  · refine List.ext_getElem? fun j => ?_
    rw [List.getElem?_map, List.getElem?_map, List.getElem?_modify, Option.map_eq_map, Option.map_map]
    refine congrArg (fun f => Option.map f held[j]?) (funext fun file => ?_)
    simp only [Function.comp_apply]
    split <;> rfl
  · intro j name file hj
    rw [List.getElem?_modify, Option.map_eq_map, Option.map_eq_some_iff] at hj
    obtain ⟨known, hknown, heq⟩ := hj
    split at heq
    · cases heq
    · rw [hknown]
      exact congrArg some heq

theorem lets_step (hs : Inv s) (i : Nat) : Inv (s.lets c i) ∧ ∀ j, Keeps j s (s.lets c i) := by
  unfold Shared.lets
  split
  · rename_i held hheld
    have hlet := letGo_modify held i
    refine ⟨⟨hs.live, hs.unique, ?_, hs.noted, hs.numbers, hs.fresh, hs.lock, ?_, hs.reads⟩, ?_⟩
    · intro c' l hl
      dsimp only at hl
      by_cases hcc : c' = c
      · subst hcc
        rw [Function.update_self] at hl
        obtain rfl := Option.some.inj hl
        obtain ⟨e, he, hec, hans⟩ := hs.conns c' held hheld
        exact ⟨e, he, hec, hlet.1.trans hans.names,
          fun j name file hj => hans.there j name file (hlet.2 j name file hj),
          fun j name file other hj => hans.noted j name file other (hlet.2 j name file hj)⟩
      · rw [Function.update_of_ne hcc] at hl
        exact hs.conns c' l hl
    · intro c' hc'
      obtain ⟨hvalue, hopen⟩ := hs.stores c' hc'
      refine ⟨hvalue, ?_⟩
      dsimp only
      by_cases hcc : c' = c
      · subst hcc
        rw [Function.update_self]
        exact Option.some_ne_none _
      · rw [Function.update_of_ne hcc]
        exact hopen
    · intro j
      refine ⟨fun c' _ => ?_, fun _ _ => ⟨rfl, rfl⟩, ⟨fun h => ⟨h, rfl, fun _ _ => rfl⟩,
        fun h => ⟨h, rfl⟩⟩, .of_disk rfl⟩
      by_cases hcc : c' = c
      · subst hcc
        refine ⟨rfl, rfl, fun h => ?_, fun l hl => ?_, fun _ _ => Iff.rfl⟩
        · rw [hheld] at h
          cases h
        · obtain rfl := Option.some.inj (hheld.symm.trans hl)
          exact ⟨_, Function.update_self _ _ _, hlet⟩
      · have hsame : Function.update s.conns c (some (held.modify i fun file => (file.1, none))) c' =
            s.conns c' := Function.update_of_ne hcc _ _
        exact ⟨rfl, rfl, fun h => hsame.trans h, fun l h => ⟨l, hsame.trans h, .refl l⟩,
          fun _ _ => Iff.rfl⟩
  · exact ⟨hs, fun j => ⟨fun c _ => .refl c s, fun _ _ => ⟨rfl, rfl⟩, .refl j s, .of_disk rfl⟩⟩

/-! ## The system -/

/-- Every thread of a world is safe among the others. -/
abbrev Ordered (watch : Option (Path × InodeId)) (w : World) : Prop :=
  w.Sound (rules watch) Inv Result

variable {working : Path}

/-- **One event keeps every thread safe.** -/
theorem ordered_step {w w' : World} {e : Event} (h : Ordered watch w) (hc : Conditions w e)
    (hstep : w.step working e = some w') (hw : Watched watch w.shared)
    (hw' : Watched watch w'.shared) : Ordered watch w' := by
  cases e with
  | begin t =>
    simp only [World.step] at hstep
    split at hstep
    · cases hstep
    · split at hstep
      · rename_i hmay
        cases hstep
        obtain ⟨hinv, hkeeps, hready⟩ := begun_step h.inv hmay
        refine Pool.sound_set h hinv (fun j _ => ⟨hkeeps j, hw'⟩) fun q hq => ?_
        cases hq
        exact program_safe hready
      · cases hstep
  | call t luck =>
    simp only [World.step] at hstep
    split at hstep
    · rename_i c next hthread
      split at hstep
      · rename_i r s' hexec
        cases hstep
        have hfits : Fits c luck w.shared := by
          simpa only [Conditions, hthread] using hc
        exact Pool.sound_call h (fun _ _ => Iff.rfl)
          (fun i j hj u v hguar => ⟨hguar.1.toOthers.keeps hj, hguar.2⟩) hthread
          ⟨luck, hexec, hfits, hw, hw'⟩
      · cases hstep
    · cases hstep
  | finish t =>
    simp only [World.step] at hstep
    split at hstep
    · rename_i out hthread
      cases hstep
      obtain ⟨hinv, hkeeps⟩ := ended_step h.inv (h.result hthread)
      exact Pool.sound_set h hinv (fun j hj => ⟨hkeeps j hj, hw'⟩) fun q hq => (by cases hq)
    · cases hstep
  | other disk =>
    cases hstep
    obtain ⟨hinv, hkeeps⟩ := other_step h.inv hc
    exact Pool.sound_other h hinv fun j => ⟨hkeeps j, hw'⟩
  | lets c i =>
    cases hstep
    obtain ⟨hinv, hkeeps⟩ := lets_step (c := c) h.inv i
    exact Pool.sound_other h hinv fun j => ⟨hkeeps j, hw'⟩

theorem ordered_start {disk : Disk} : Ordered none (World.start disk) := by
  refine ⟨⟨fun _ h => absurd h List.not_mem_nil, List.nodup_nil, fun _ _ h => (nomatch h),
    fun _ h => absurd h List.not_mem_nil, fun _ _ => ⟨rfl, rfl⟩, fun _ _ => ⟨rfl, rfl⟩,
    fun _ h => (nomatch h), fun _ h => absurd h List.not_mem_nil,
    fun _ h => absurd h List.not_mem_nil⟩, fun _ _ h => nomatch h⟩

theorem watched_none (s : Shared) : Watched none s := fun _ _ h => nomatch h

theorem ordered_of_reaches {disk : Disk} {w : World}
    (h : Reaches working (fun _ => True) (World.start disk) w) : Ordered none w := by
  induction h with
  | refl => exact ordered_start
  | tail _ hstep ih =>
    obtain ⟨e, hc, hstep, -, -⟩ := hstep
    exact ordered_step ih hc hstep (watched_none _) (watched_none _)

/-- A file may be watched from a moment on at which no read of its path is under way. -/
theorem ordered_watching {w : World} {path : Path} {file : InodeId} (h : Ordered none w)
    (hreads : ∀ t, t.op = .read path → w.threads t = none) : Ordered (some (path, file)) w := by
  refine ⟨h.inv, fun t p hp => ?_⟩
  have hop : t.op ≠ .read path := fun hop => by
    rw [hreads t hop] at hp
    cases hp
  refine (h.safe t p hp).weaken (fun u v huv => ⟨huv.1, watched_none v⟩) (fun _ => Iff.rfl) ?_ ?_
  · rintro c u r v ⟨luck, hexec, hfits, -, -⟩
    exact ⟨luck, hexec, hfits, watched_none u, watched_none v⟩
  · rintro c u r v ⟨-, -, -, -, hwatched⟩ ⟨hguar, -⟩
    refine ⟨⟨hguar.toOthers, hguar.closes, hguar.opener, fun path' file' heq hop' => ?_⟩, hwatched⟩
    cases heq
    exact absurd hop' hop

theorem ordered_watched {w w' : World} {path : Path} {file : InodeId} (h : Ordered none w)
    (hreads : ∀ t, t.op = .read path → w.threads t = none)
    (hreach : Reaches working (Watched (some (path, file))) w w') :
    Ordered (some (path, file)) w' := by
  induction hreach with
  | refl => exact ordered_watching h hreads
  | tail _ hstep ih =>
    obtain ⟨e, hc, hstep, hw, hw'⟩ := hstep
    exact ordered_step ih hc hstep hw hw'

/-- What a call of one thread promises. -/
theorem guar_of_call {w w' : World} {t : Task} {luck : Luck} (h : Ordered watch w)
    (hc : Conditions w (.call t luck)) (hstep : w.step working (.call t luck) = some w')
    (hw : Watched watch w.shared) (hw' : Watched watch w'.shared) :
    Guar watch t w.shared w'.shared := by
  simp only [World.step] at hstep
  split at hstep
  · rename_i c next hthread
    split at hstep
    · rename_i r s' hexec
      cases hstep
      have hfits : Fits c luck w.shared := by
        simpa only [Conditions, hthread] using hc
      exact (h.safe t _ hthread w.shared .refl h.inv r s' ⟨luck, hexec, hfits, hw, hw'⟩).2.1.1
    · cases hstep
  · cases hstep

/-- Only calls touch descriptors. -/
theorem fds_of_not_call {w w' : World} {e : Event} (hstep : w.step working e = some w')
    (he : ∀ t luck, e ≠ .call t luck) : w'.shared.fds = w.shared.fds := by
  cases e with
  | begin t =>
    simp only [World.step] at hstep
    split at hstep
    · cases hstep
    · split at hstep
      · cases hstep
        show (w.shared.begun t).fds = _
        unfold Shared.begun
        split <;> rfl
      · cases hstep
  | call t luck => exact absurd rfl (he t luck)
  | finish t =>
    simp only [World.step] at hstep
    split at hstep
    · rename_i out hthread
      cases hstep
      show (w.shared.ended out).fds = _
      unfold Shared.ended
      split <;> rfl
    · cases hstep
  | other disk =>
    cases hstep
    rfl
  | lets c i =>
    cases hstep
    show (w.shared.lets c i).fds = _
    unfold Shared.lets
    split <;> rfl

/-- The files an entry answers for: what was noted, and for the rest what the name holds. -/
def HeldFiles.answers (held : HeldFiles) (disk : Disk) : List InodeId :=
  held.files.filterMap fun known => known.2 <|> disk.lstat known.1

/-- What the list of open databases promises of a world. -/
structure NeverBehindSqlite (working : Path) (w : World) : Prop where
  listed : ∀ c held, w.shared.conns c = some held → ∃ e ∈ w.shared.listed, e.connection = c ∧
    (∀ e' ∈ w.shared.listed, e'.connection = c → e' = e) ∧
    ∀ name file, (name, some file) ∈ held → file ∈ e.answers w.shared.disk
  gone : ∀ t c, w.threads t = some (.done (.dropped c)) ∨ w.threads t = some (.done (.failed c)) →
    ∀ e ∈ w.shared.listed, e.connection ≠ c
  closes : ∀ e w', Conditions w e → w.step working e = some w' → ∀ fd d,
    w.shared.fds fd = some d → w'.shared.fds fd = none → ¬Held w.shared d.file
  opener : ∀ e w', Conditions w e → w.step working e = some w' → ∀ fd,
    w.shared.fds fd = none → w'.shared.fds fd ≠ none → ∃ t luck path, e = .call t luck ∧
      t.op = .read path
  opens : ∀ path file, (∀ t, t.op = .read path → w.threads t = none) →
    ∀ w', Reaches working (Watched (some (path, file))) w w' → ∀ t luck w'',
      t.op = .read path → Conditions w' (.call t luck) →
      w'.step working (.call t luck) = some w'' → Watched (some (path, file)) w'.shared →
      Watched (some (path, file)) w''.shared → ∀ fd, w'.shared.fds fd = none →
        w''.shared.fds fd = none

theorem Inv.listed (hs : Inv s) {held : List (Path × Option InodeId)} (hheld : s.conns c = some held) :
    ∃ e ∈ s.listed, e.connection = c ∧ (∀ e' ∈ s.listed, e'.connection = c → e' = e) ∧
      ∀ name file, (name, some file) ∈ held → file ∈ e.answers s.disk := by
  obtain ⟨e, he, hec, hans⟩ := hs.conns c held hheld
  refine ⟨e, he, hec, fun e' he' hec' => hs.entry_unique he' he (hec'.trans hec.symm), ?_⟩
  intro name file hname
  obtain ⟨i, hi⟩ := List.mem_iff_getElem?.1 hname
  have hfst : (e.files.map Prod.fst)[i]? = some name := by
    rw [← hans.names, List.getElem?_map, hi]
    rfl
  rw [List.getElem?_map, Option.map_eq_some_iff] at hfst
  obtain ⟨⟨name', noted⟩, hknown, rfl⟩ := hfst
  refine List.mem_filterMap.2 ⟨_, List.mem_of_getElem? hknown, ?_⟩
  cases noted with
  | none => exact hans.there i _ file hi
  | some other => exact congrArg some (hans.noted i _ file other hi hknown)

/-- **Never behind SQLite's back**: in every run of one process in which the names of its open
    databases change hands through SQLite alone, every connection has an entry of its own that
    answers for each file SQLite has open, no descriptor of such a file is closed, and a read that
    begins while SQLite has the file open does not open it. -/
theorem never_behind_sqlite (working : Path) (disk : Disk) (w : World)
    (h : Reaches working (fun _ => True) (World.start disk) w) : NeverBehindSqlite working w := by
  have hordered := ordered_of_reaches h
  refine ⟨fun c held hheld => hordered.inv.listed hheld, ?_, ?_, ?_, ?_⟩
  · rintro t c (ht | ht)
    · exact ((hordered.result ht).dropped c rfl).2
    · exact ((hordered.result ht).failed c rfl).2
  · intro e w' hc hstep fd d hd hd'
    by_cases he : ∃ t luck, e = .call t luck
    · obtain ⟨t, luck, rfl⟩ := he
      exact (guar_of_call hordered hc hstep (watched_none _) (watched_none _)).closes fd d hd hd'
    · rw [fds_of_not_call hstep fun t luck h => he ⟨t, luck, h⟩, hd] at hd'
      cases hd'
  · intro e w' hc hstep fd hd hd'
    by_cases he : ∃ t luck, e = .call t luck
    · obtain ⟨t, luck, rfl⟩ := he
      obtain ⟨path, hpath⟩ :=
        (guar_of_call hordered hc hstep (watched_none _) (watched_none _)).opener fd hd hd'
      exact ⟨t, luck, path, rfl, hpath⟩
    · rw [fds_of_not_call hstep fun t luck h => he ⟨t, luck, h⟩] at hd'
      exact absurd hd hd'
  · intro path file hreads w' hreach t luck w'' hop hc hstep hw' hw'' fd hfd
    have hwatch := ordered_watched hordered hreads hreach
    exact (guar_of_call hwatch hc hstep hw' hw'').opens path file rfl hop fd hfd

/-! ## Runs -/

section Runs

/-- `Fitting`, by a look through the list. -/
def fits (s : Shared) (connection sidecar : Nat) : Bool :=
  s.listed.all fun held => decide (held.connection ≠ connection) ||
    match held.files[sidecar]? with
    | some (name, some file) => decide (s.disk.lstat name = some file)
    | _ => true

theorem fitting_of_fits {s : Shared} {connection sidecar : Nat}
    (h : fits s connection sidecar = true) : Fitting s connection sidecar := by
  intro held hheld hconn name file hfile
  have hall := List.all_eq_true.1 h held hheld
  rw [hfile, hconn] at hall
  simpa using hall

/-- Calls that meet no difficulty, and journals that SQLite opens as they were noted. -/
def calm (w : World) : Event → Bool
  | .call t luck => decide (luck = .plain) ||
    match w.threads t with
    | some (.call (.sqliteTouch connection sidecar) _) => fits w.shared connection sidecar
    | _ => false
  | .begin _ | .finish _ => true
  | _ => false

theorem conditions_of_calm {w : World} {e : Event} (h : calm w e = true) : Conditions w e := by
  cases e with
  | call t luck =>
    simp only [calm, Bool.or_eq_true, decide_eq_true_eq] at h
    simp only [Conditions]
    rcases h with rfl | h
    · split
      · rename_i c _ _
        cases c
        case identityAt | fstat => rfl
        case sqliteTouch => exact fun h => nomatch h
        all_goals trivial
      · trivial
    · split at h
      · rename_i connection sidecar next hthread
        rw [hthread]
        exact fun _ => fitting_of_fits h
      · cases h
  | «begin» t => trivial
  | finish t => trivial
  | other disk => cases h
  | lets c i => cases h

/-- One run, executed. -/
def follow (working : Path) : List Event → World → Option World
  | [], w => some w
  | e :: es, w => if calm w e then (w.step working e).bind (follow working es) else none

theorem reaches_of_follow {working : Path} {w' : World} :
    ∀ {es : List Event} {w : World}, follow working es w = some w' →
      Reaches working (fun _ => True) w w'
  | [], w, h => by
    cases h
    exact .refl
  | e :: es, w, h => by
    simp only [follow] at h
    split at h
    · rename_i hcalm
      obtain ⟨w₁, hstep, hrest⟩ := Option.bind_eq_some_iff.1 h
      exact .head ⟨e, conditions_of_calm hcalm, hstep, trivial, trivial⟩ (reaches_of_follow hrest)
    · cases h

/-- `/d`. -/
def databasePath : Path := [.rootDir, .normal ⟨[100], by decide⟩]

def databaseFile : InodeId := ⟨0, 5⟩

/-- `/d-wal`. -/
def journalPath : Path := [.rootDir, .normal ⟨[100, 45, 119, 97, 108], by decide⟩]

def journalFile : InodeId := ⟨0, 6⟩

/-- A disk with a database, its journal and nothing else. -/
def databaseDisk : Disk :=
  ⟨fun path => if path = databasePath then some databaseFile
    else if path = journalPath then some journalFile else none, fun _ => .regular⟩

def opening : Task := ⟨.open databasePath, 0⟩

def readingTask : Task := ⟨.read databasePath, 0⟩

def readingJournal : Task := ⟨.read journalPath, 0⟩

def dropping : Task := ⟨.drop 0, 0⟩

def calls (t : Task) (n : Nat) : List Event := List.replicate n (.call t .plain)

/-- SQLite has the file open for the connection 0. -/
def isOpen (file : InodeId) (w : World) : Bool :=
  (w.shared.conns 0).any fun held => held.any fun known => decide (known.2 = some file)

theorem held_of_isOpen {file : InodeId} {w : World} (h : isOpen file w = true) :
    Held w.shared file := by
  obtain ⟨held, hheld, hany⟩ := (Option.any_eq_true _ _).1 h
  obtain ⟨⟨name, known⟩, hmem, hfile⟩ := List.any_eq_true.1 hany
  obtain rfl : known = some file := of_decide_eq_true hfile
  exact ⟨0, held, hheld, name, hmem⟩

/-- A connection opens the database and its journal; a read of either is begun. -/
def servedRun : List Event :=
  [.begin opening] ++ calls opening 6 ++ [.call opening .takes] ++ calls opening 7 ++
    [.finish opening, .begin readingTask] ++ calls readingTask 3 ++ [.begin readingJournal] ++
    calls readingJournal 3

/-- The reads end, and the connection is dropped. -/
def droppedRun : List Event :=
  [.finish readingTask, .finish readingJournal, .begin dropping] ++ calls dropping 7

/-- The read was refused. -/
def isRefused (t : Task) (w : World) : Bool :=
  match w.threads t with
  | some (.done (.reading (.error e))) => decide (e = .openDatabase)
  | _ => false

/-- The connection 0 was dropped, and the list holds nothing. -/
def isDropped (w : World) : Bool :=
  match w.threads dropping with
  | some (.done (.dropped connection)) => decide (connection = 0) && w.shared.listed.isEmpty
  | _ => false

theorem never_behind_sqlite_open : ∃ w w' : World,
    Held w.shared databaseFile ∧ Held w.shared journalFile ∧ isRefused readingTask w = true ∧
      isRefused readingJournal w = true ∧ NeverBehindSqlite [.rootDir] w ∧
    Reaches [.rootDir] (fun _ => True) w w' ∧ isDropped w' = true ∧
      NeverBehindSqlite [.rootDir] w' := by
  have hrun : ((follow [.rootDir] servedRun (World.start databaseDisk)).any fun w =>
      isOpen databaseFile w && isOpen journalFile w && isRefused readingTask w &&
        isRefused readingJournal w && (follow [.rootDir] droppedRun w).any isDropped) = true := by
    decide +kernel
  obtain ⟨w, hw, hshown⟩ := (Option.any_eq_true _ _).1 hrun
  simp only [Bool.and_eq_true] at hshown
  obtain ⟨⟨⟨⟨hdatabase, hjournal⟩, hrefused⟩, hrefused'⟩, hdrop⟩ := hshown
  obtain ⟨w', hw', hdropped⟩ := (Option.any_eq_true _ _).1 hdrop
  have hreach := reaches_of_follow hw
  have hreach' := reaches_of_follow hw'
  exact ⟨w, w', held_of_isOpen hdatabase, held_of_isOpen hjournal, hrefused, hrefused',
    never_behind_sqlite [.rootDir] databaseDisk w hreach, hreach', hdropped,
    never_behind_sqlite [.rootDir] databaseDisk w' (hreach.trans hreach')⟩

/-- A read looks while nothing has the database open, and a connection opens it before the read
    does. -/
def lateRun : List Event :=
  [.begin readingTask] ++ calls readingTask 3 ++ [.begin opening] ++ calls opening 6

/-- **A read may open a file that SQLite has open**: the look comes before the open. -/
theorem not_never_opened : ¬∀ (working : Path) (disk : Disk) (w w' : World) (e : Event),
    Reaches working (fun _ => True) (World.start disk) w → Conditions w e →
      w.step working e = some w' → ∀ fd d, w.shared.fds fd = none →
        w'.shared.fds fd = some d → ¬Held w.shared d.file := by
  intro h
  have hrun : ((follow [.rootDir] lateRun (World.start databaseDisk)).any fun w => isOpen databaseFile w &&
      decide (w.shared.fds 0 = none) && (w.step [.rootDir] (.call readingTask .plain)).any fun w' =>
        decide (w'.shared.fds 0 = some ⟨databaseFile, true⟩)) = true := by decide +kernel
  obtain ⟨w, hw, htests⟩ := (Option.any_eq_true _ _).1 hrun
  simp only [Bool.and_eq_true, decide_eq_true_eq] at htests
  obtain ⟨⟨hopen, hnone⟩, hstep⟩ := htests
  obtain ⟨w', hw', hfd⟩ := (Option.any_eq_true _ _).1 hstep
  exact h _ _ w w' (.call readingTask .plain) (reaches_of_follow hw) (conditions_of_calm rfl) hw' 0
    ⟨databaseFile, true⟩ hnone (of_decide_eq_true hfd) (held_of_isOpen hopen)

end Runs

end DedupCommando.OpenDb
