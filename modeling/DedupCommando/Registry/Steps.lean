import DedupCommando.Registry.Invariant

/-!
# The calls that change something

* `number_step`, `push_step`, `update_step`, `retain_step` — the entry of a connection.
* `write_step`, `endWrite_step`, `read_step`, `endRead_step` — the hold on the list.
* `sqliteOpen_step`, `touch_step`, `sqliteClose_step` — SQLite's own files.
* `open_step`, `close_step` — the descriptors of a read.
-/

set_option autoImplicit false

namespace DedupCommando.OpenDb

variable {s s' : Shared} {t : Task} {watch : Option (Path × InodeId)} {luck : Luck} {c : Nat}

theorem Others.guar (h : Others t s s') (hfds : s'.fds = s.fds) : Guar watch t s s' where
  toOthers := h
  closes fd d hd hd' := by
    rw [hfds, hd] at hd'
    cases hd'
  opener fd hd hd' := by
    rw [hfds] at hd'
    exact absurd hd hd'
  opens _ _ _ _ fd hfd := by rw [hfds, hfd]

variable (watch)

theorem Inv.closed (hs : Inv s) (hc : s.next ≤ c) : s.conns c = none := by
  by_contra hne
  obtain ⟨held, hheld⟩ := Option.ne_none_iff_exists'.1 hne
  obtain ⟨e, he, rfl, -⟩ := hs.conns c held hheld
  exact absurd (hs.entry_lt he) (not_lt.2 hc)

/-! ## The entry of a connection -/

/-- The number a task has drawn; nothing is entered under it yet. -/
structure Entering (t : Task) (c : Nat) (names : List Path) (s : Shared) : Prop where
  owner : s.connOwner c = .task t
  live : s.live c = some names
  closed : s.conns c = none
  unlisted : ∀ e ∈ s.listed, e.connection ≠ c

theorem number_step {names : List Path} (hs : Inv s)
    (h : exec t (.number names) luck s = some (c, s')) :
    Inv s' ∧ Guar watch t s s' ∧ Entering t c names s' := by
  cases luck <;> simp only [exec] at h
  all_goals cases h
  have hne : ∀ e ∈ s.listed, e.connection ≠ s.next := fun e he => (hs.entry_lt he).ne
  have hnobody := (hs.numbers s.next (Nat.le_refl _)).1
  refine ⟨⟨?_, hs.unique, hs.conns, hs.noted, ?_, hs.fresh, hs.lock, ?_, hs.reads⟩,
    Others.guar ⟨?_, fun _ _ _ => ⟨rfl, rfl⟩, ?_, .of_disk rfl⟩ rfl, ?_⟩
  · intro e he
    dsimp only
    rw [Function.update_of_ne (hne e he)]
    exact hs.live e he
  · intro c hc
    have hlt : s.next < c := Nat.lt_of_succ_le hc
    dsimp only
    rw [Function.update_of_ne hlt.ne', Function.update_of_ne hlt.ne']
    exact hs.numbers c hlt.le
  · intro c hc
    have hne : c ≠ s.next := by
      rintro rfl
      exact Owner.noConfusion (hnobody.symm.trans (hs.stores _ hc).1)
    dsimp only
    rw [Function.update_of_ne hne]
    exact hs.stores c hc
  · intro c _ hc
    have hne : c ≠ s.next := by
      rintro rfl
      exact hc hnobody
    exact ⟨Function.update_of_ne hne _ _, Function.update_of_ne hne _ _, fun h => h,
      fun held h => ⟨held, h, .refl held⟩, fun _ _ => Iff.rfl⟩
  · intro j _
    exact ⟨fun hj => ⟨hj, rfl, fun e he => Function.update_of_ne (hne e he) _ _⟩,
      fun hj => ⟨hj, rfl⟩⟩
  · exact ⟨Function.update_self _ _ _, Function.update_self _ _ _, hs.closed (Nat.le_refl _), hne⟩

/-- What `OpenDatabase::at` leaves: an entry of its own, and no connection yet. -/
structure Entered (t : Task) (c : Nat) (names : List Path) (s : Shared) : Prop where
  owner : s.connOwner c = .task t
  live : s.live c = some names
  closed : s.conns c = none
  listed : ∃ e ∈ s.listed, e.connection = c

/-- What a list of files may be entered under a number. -/
structure Known (t : Task) (c : Nat) (files : List (Path × Option InodeId)) (s : Shared) : Prop where
  owner : s.connOwner c = .task t
  live : s.live c = some (files.map Prod.fst)
  answers : ∀ held, s.conns c = some held → Answers s.disk held files
  noted : ∀ name file rest, files = (name, some file) :: rest → s.disk.lstat name = some file

theorem Inv.known (hs : Inv s) {e : HeldFiles} (he : e ∈ s.listed)
    (howner : s.connOwner e.connection = .task t) : Known t e.connection e.files s := by
  refine ⟨howner, hs.live e he, ?_, fun name file rest h => hs.noted e he name file rest h⟩
  intro held hheld
  obtain ⟨e', he', hc, hans⟩ := hs.conns _ held hheld
  obtain rfl := hs.entry_unique he' he hc
  exact hans

/-- A hold to write lets nobody else read or write. -/
theorem hold_of_writing (hs : Inv s) (hw : s.writer = some t) (s' : Shared) {j : Task} (hj : j ≠ t) :
    KeepsHold j s s' := by
  constructor
  · intro h
    rw [hs.lock t hw] at h
    cases h
  · intro h
    rw [hw] at h
    exact absurd (Option.some.inj h).symm hj

theorem push_step {names : List Path} {files : List (Path × Option InodeId)} {r : Unit} (hs : Inv s)
    (hw : s.writer = some t) (hc : Entering t c names s) (hfiles : Known t c files s)
    (h : exec t (.push ⟨c, files⟩) luck s = some (r, s')) :
    Inv s' ∧ Guar watch t s s' ∧ Entered t c names s' ∧ s'.writer = some t := by
  cases luck <;> simp only [exec] at h
  all_goals cases h
  refine ⟨⟨?_, ?_, ?_, ?_, hs.numbers, hs.fresh, hs.lock, hs.stores, hs.reads⟩,
    Others.guar ⟨?_, fun _ _ _ => ⟨rfl, rfl⟩, fun j hj => hold_of_writing hs hw _ hj,
      .of_disk rfl⟩ rfl, ⟨hc.owner, hc.live, hc.closed, ⟨c, files⟩, by simp, rfl⟩, hw⟩
  · intro e he
    rcases List.mem_append.1 he with he | he
    · exact hs.live e he
    · obtain rfl := List.mem_singleton.1 he
      exact hfiles.live
  · dsimp only
    rw [List.map_append, List.nodup_append]
    refine ⟨hs.unique, List.nodup_singleton _, ?_⟩
    rintro x hx y hy rfl
    obtain ⟨e, he, rfl⟩ := List.mem_map.1 hx
    exact hc.unlisted e he (List.mem_singleton.1 hy)
  · intro c' held hheld
    obtain ⟨e, he, hec, hans⟩ := hs.conns c' held hheld
    exact ⟨e, List.mem_append_left _ he, hec, hans⟩
  · intro e he
    rcases List.mem_append.1 he with he | he
    · exact hs.noted e he
    · obtain rfl := List.mem_singleton.1 he
      exact hfiles.noted
  · intro c' hc' _
    have hne : c ≠ c' := by
      rintro rfl
      exact hc' hc.owner
    refine ⟨rfl, rfl, fun h => h, fun held h => ⟨held, h, .refl held⟩, fun e he => ?_⟩
    dsimp only
    rw [List.mem_append, List.mem_singleton]
    refine ⟨fun h => h.resolve_right ?_, .inl⟩
    rintro rfl
    exact hne he

theorem update_step {files : List (Path × Option InodeId)} {r : Unit} (hs : Inv s)
    (hw : s.writer = some t) (hfiles : Known t c files s)
    (h : exec t (.update c files) luck s = some (r, s')) :
    Inv s' ∧ Guar watch t s s' ∧ s'.connOwner = s.connOwner ∧ s'.conns = s.conns ∧
      s'.writer = some t := by
  cases luck <;> simp only [exec] at h
  all_goals cases h
  have hsame : ∀ e : HeldFiles, (if e.connection = c then { e with files } else e).connection =
      e.connection := by
    intro e
    split <;> rfl
  have hother : ∀ e : HeldFiles, e.connection ≠ c →
      (if e.connection = c then { e with files } else e) = e := fun e he => if_neg he
  refine ⟨⟨?_, ?_, ?_, ?_, hs.numbers, hs.fresh, hs.lock, hs.stores, hs.reads⟩,
    Others.guar ⟨?_, fun _ _ _ => ⟨rfl, rfl⟩, fun j hj => hold_of_writing hs hw _ hj,
      .of_disk rfl⟩ rfl, rfl, rfl, hw⟩
  · intro e' he'
    obtain ⟨e, he, rfl⟩ := List.mem_map.1 he'
    by_cases hec : e.connection = c
    · rw [if_pos hec, hec]
      exact hfiles.live
    · rw [hother e hec]
      exact hs.live e he
  · dsimp only
    rw [List.map_map]
    have hmap : (HeldFiles.connection ∘ fun e : HeldFiles =>
        if e.connection = c then { e with files } else e) = HeldFiles.connection := funext hsame
    rw [hmap]
    exact hs.unique
  · intro c' held hheld
    obtain ⟨e, he, hec, hans⟩ := hs.conns c' held hheld
    refine ⟨_, List.mem_map_of_mem he, (hsame e).trans hec, ?_⟩
    by_cases hcc : e.connection = c
    · rw [if_pos hcc]
      exact hfiles.answers held (hcc ▸ hec ▸ hheld)
    · rw [hother e hcc]
      exact hans
  · intro e' he' name file rest hfirst
    obtain ⟨e, he, rfl⟩ := List.mem_map.1 he'
    by_cases hec : e.connection = c
    · rw [if_pos hec] at hfirst
      exact hfiles.noted name file rest hfirst
    · rw [hother e hec] at hfirst
      exact hs.noted e he name file rest hfirst
  · intro c' hc' _
    have hne : c' ≠ c := by
      rintro rfl
      exact hc' hfiles.owner
    refine ⟨rfl, rfl, fun h => h, fun held h => ⟨held, h, .refl held⟩, fun e he => ?_⟩
    constructor
    · intro h
      obtain ⟨e₀, he₀, rfl⟩ := List.mem_map.1 h
      rw [hsame] at he
      rw [hother e₀ (he ▸ hne)]
      exact he₀
    · intro h
      exact List.mem_map.2 ⟨e, h, hother e (he ▸ hne)⟩

/-- The entry of a connection that is gone. -/
def Gone (t : Task) (c : Nat) (s : Shared) : Prop :=
  s.connOwner c = .task t ∧ ∀ e ∈ s.listed, e.connection ≠ c

theorem retain_step {r : Unit} (hs : Inv s) (hw : s.writer = some t)
    (howner : s.connOwner c = .task t) (hclosed : s.conns c = none)
    (h : exec t (.retain c) luck s = some (r, s')) :
    Inv s' ∧ Guar watch t s s' ∧ Gone t c s' ∧ s'.writer = some t := by
  cases luck <;> simp only [exec] at h
  all_goals cases h
  have hkept : ∀ {e}, e ∈ s.listed.filter (fun held => decide (held.connection ≠ c)) →
      e ∈ s.listed ∧ e.connection ≠ c := fun he =>
    ⟨List.mem_of_mem_filter he, of_decide_eq_true (List.mem_filter.1 he).2⟩
  refine ⟨⟨?_, ?_, ?_, fun e he => hs.noted e (hkept he).1, ?_, hs.fresh, hs.lock, hs.stores,
    hs.reads⟩, Others.guar ⟨?_, fun _ _ _ => ⟨rfl, rfl⟩, fun j hj => hold_of_writing hs hw _ hj,
      .of_disk rfl⟩ rfl, ⟨howner, fun e he => (hkept he).2⟩, hw⟩
  · intro e he
    obtain ⟨hmem, hne⟩ := hkept he
    dsimp only
    rw [Function.update_of_ne hne]
    exact hs.live e hmem
  · exact hs.unique.sublist (List.filter_sublist.map _)
  · intro c' held hheld
    obtain ⟨e, he, hec, hans⟩ := hs.conns c' held hheld
    refine ⟨e, List.mem_filter.2 ⟨he, decide_eq_true ?_⟩, hec, hans⟩
    rintro rfl
    rw [hec, hheld] at hclosed
    cases hclosed
  · intro c' hc'
    refine ⟨(hs.numbers c' hc').1, ?_⟩
    by_cases hcc : c' = c
    · subst hcc
      exact Function.update_self _ _ _
    · dsimp only
      rw [Function.update_of_ne hcc]
      exact (hs.numbers c' hc').2
  · intro c' hc' _
    have hne : c' ≠ c := by
      rintro rfl
      exact hc' howner
    refine ⟨rfl, Function.update_of_ne hne _ _, fun h => h,
      fun held h => ⟨held, h, .refl held⟩, fun e he => ⟨fun h => (hkept h).1, fun h => ?_⟩⟩
    exact List.mem_filter.2 ⟨h, decide_eq_true (he ▸ hne)⟩

/-! ## The hold on the list -/

theorem write_step {listed : List HeldFiles} (hs : Inv s)
    (h : exec t .write luck s = some (listed, s')) :
    Inv s' ∧ Guar watch t s s' ∧ s' = { s with writer := some t } ∧ s.listed = listed := by
  cases luck <;> simp only [exec] at h
  all_goals try cases h
  split at h
  · rename_i hfree
    cases h
    refine ⟨⟨hs.live, hs.unique, hs.conns, hs.noted, hs.numbers, hs.fresh, fun _ _ => hfree.2,
      hs.stores, hs.reads⟩, Others.guar ⟨fun c _ _ => ⟨rfl, rfl, fun h => h,
        fun held h => ⟨held, h, .refl held⟩, fun _ _ => Iff.rfl⟩, fun _ _ _ => ⟨rfl, rfl⟩,
        fun j _ => ⟨?_, ?_⟩, .of_disk rfl⟩ rfl, rfl, rfl⟩
    · intro hj
      rw [hfree.2] at hj
      cases hj
    · intro hj
      rw [hfree.1] at hj
      cases hj
  · cases h

theorem endWrite_step {r : Unit} (hs : Inv s) (hw : s.writer = some t)
    (h : exec t .endWrite luck s = some (r, s')) :
    Inv s' ∧ Guar watch t s s' ∧ s' = { s with writer := none } := by
  cases luck <;> simp only [exec] at h
  all_goals cases h
  exact ⟨⟨hs.live, hs.unique, hs.conns, hs.noted, hs.numbers, hs.fresh, fun _ h => (by cases h),
    hs.stores, hs.reads⟩, Others.guar ⟨fun c _ _ => ⟨rfl, rfl, fun h => h,
      fun held h => ⟨held, h, .refl held⟩, fun _ _ => Iff.rfl⟩, fun _ _ _ => ⟨rfl, rfl⟩,
      fun j hj => hold_of_writing hs hw _ hj, .of_disk rfl⟩ rfl, rfl⟩

theorem read_step {listed : List HeldFiles} (hs : Inv s)
    (h : exec t .read luck s = some (listed, s')) :
    Inv s' ∧ Guar watch t s s' ∧ s' = { s with readers := t :: s.readers } ∧
      s.listed = listed := by
  cases luck <;> simp only [exec] at h
  all_goals try cases h
  split at h
  · rename_i hfree
    cases h
    refine ⟨⟨hs.live, hs.unique, hs.conns, hs.noted, hs.numbers, hs.fresh, ?_, hs.stores,
      hs.reads⟩, Others.guar ⟨fun c _ _ => ⟨rfl, rfl, fun h => h,
        fun held h => ⟨held, h, .refl held⟩, fun _ _ => Iff.rfl⟩, fun _ _ _ => ⟨rfl, rfl⟩,
        fun j _ => ⟨fun hj => ⟨List.mem_cons_of_mem _ hj, rfl, fun _ _ => rfl⟩,
          fun hj => ⟨hj, rfl⟩⟩, .of_disk rfl⟩ rfl, rfl, rfl⟩
    intro j hj
    rw [show s.writer = some j from hj] at hfree
    cases hfree
  · cases h

theorem endRead_step {r : Unit} (hs : Inv s) (h : exec t .endRead luck s = some (r, s')) :
    Inv s' ∧ Guar watch t s s' ∧ s' = { s with readers := s.readers.erase t } := by
  cases luck <;> simp only [exec] at h
  all_goals cases h
  refine ⟨⟨hs.live, hs.unique, hs.conns, hs.noted, hs.numbers, hs.fresh, fun j hj => ?_, hs.stores,
    hs.reads⟩, Others.guar ⟨fun c _ _ => ⟨rfl, rfl, fun h => h,
      fun held h => ⟨held, h, .refl held⟩, fun _ _ => Iff.rfl⟩, fun _ _ _ => ⟨rfl, rfl⟩,
      fun j hj => ⟨fun h => ⟨(List.mem_erase_of_ne hj).2 h, rfl, fun _ _ => rfl⟩,
        fun h => ⟨h, rfl⟩⟩, .of_disk rfl⟩ rfl, rfl⟩
  dsimp only
  rw [hs.lock j hj]
  rfl

/-! ## SQLite's own files -/

/-- A change of what SQLite has open for a task's own connection. -/
theorem conns_step {held : Option (List (Path × Option InodeId))} (hs : Inv s)
    (howner : s.connOwner c = .task t)
    (hanswers : ∀ l, held = some l → ∃ e ∈ s.listed, e.connection = c ∧ Answers s.disk l e.files) :
    Inv { s with conns := Function.update s.conns c held } ∧
      Guar watch t s { s with conns := Function.update s.conns c held } := by
  have hne : ∀ c', s.connOwner c' ≠ .task t → c' ≠ c := by
    rintro c' hc' rfl
    exact hc' howner
  refine ⟨⟨hs.live, hs.unique, ?_, hs.noted, hs.numbers, hs.fresh, hs.lock, ?_, hs.reads⟩,
    Others.guar ⟨?_, fun _ _ _ => ⟨rfl, rfl⟩, fun _ _ => ⟨fun h => ⟨h, rfl, fun _ _ => rfl⟩,
      fun h => ⟨h, rfl⟩⟩, .of_disk rfl⟩ rfl⟩
  · intro c' l hl
    dsimp only at hl
    by_cases hcc : c' = c
    · subst hcc
      rw [Function.update_self] at hl
      exact hanswers l hl
    · rw [Function.update_of_ne hcc] at hl
      exact hs.conns c' l hl
  · intro c' hc'
    obtain ⟨hvalue, hopen⟩ := hs.stores c' hc'
    dsimp only
    rw [Function.update_of_ne (hne c' (hvalue ▸ Owner.noConfusion))]
    exact ⟨hvalue, hopen⟩
  · intro c' hc' _
    have hsame : Function.update s.conns c held c' = s.conns c' :=
      Function.update_of_ne (hne c' hc') _ _
    exact ⟨rfl, rfl, fun h => hsame.trans h, fun l h => ⟨l, hsame.trans h, .refl l⟩,
      fun _ _ => Iff.rfl⟩

theorem answers_heldAtOpen {disk : Disk} {file : InodeId} {names : List Path}
    {files : List (Path × Option InodeId)} (hnames : files.map Prod.fst = names)
    (hthere : names.head?.bind disk.lstat = some file)
    (hnoted : ∀ name other rest, files = (name, some other) :: rest →
      disk.lstat name = some other) : Answers disk (heldAtOpen file names) files := by
  subst hnames
  cases files with
  | nil => cases hthere
  | cons first rest =>
    obtain ⟨name, noted⟩ := first
    have hname : disk.lstat name = some file := hthere
    have hrest : ∀ (i : Nat) (n : Path) (f : InodeId),
        ((rest.map Prod.fst).map fun n => (n, (none : Option InodeId)))[i]? ≠ some (n, some f) := by
      intro i n f h
      simp only [List.map_map, List.getElem?_map, Option.map_eq_some_iff, Prod.mk.injEq,
        Function.comp_apply] at h
      obtain ⟨-, -, -, h⟩ := h
      cases h
    refine ⟨by simp [heldAtOpen], ?_, ?_⟩
    · intro i n f h
      cases i with
      | zero =>
        simp only [heldAtOpen, List.map_cons, List.getElem?_cons_zero, Option.some.injEq,
          Prod.mk.injEq] at h
        obtain ⟨rfl, rfl⟩ := h
        exact hname
      | succ i => exact absurd h (hrest i n f)
    · intro i n f g h hg
      cases i with
      | zero =>
        simp only [heldAtOpen, List.map_cons, List.getElem?_cons_zero, Option.some.injEq,
          Prod.mk.injEq] at h hg
        obtain ⟨rfl, rfl⟩ := h
        obtain ⟨-, rfl⟩ := hg
        exact Option.some.inj ((hnoted name g rest rfl).symm.trans hname)
      | succ i => exact absurd h (hrest i n f)

theorem sqliteOpen_step {names : List Path} {r : Except Errno Unit} (hs : Inv s)
    (howner : s.connOwner c = .task t) (hlive : s.live c = some names)
    (hlisted : ∃ e ∈ s.listed, e.connection = c)
    (h : exec t (.sqliteOpen c names) luck s = some (r, s')) :
    Inv s' ∧ Guar watch t s s' ∧ s'.connOwner c = .task t ∧
      ((r = .ok () ∧ s'.conns c ≠ none) ∨ (r ≠ .ok () ∧ s' = s)) := by
  cases luck <;> simp only [exec] at h
  case fault =>
    cases h
    exact ⟨hs, .refl _, howner, .inr ⟨fun h => (by cases h), rfl⟩⟩
  case plain =>
    split at h
    · rename_i file hfile
      split at h
      · cases h
        obtain ⟨e, he, rfl⟩ := hlisted
        have hnames : e.files.map Prod.fst = names := by
          have := hs.live e he
          rw [hlive] at this
          exact (Option.some.inj this).symm
        have hanswers : ∀ l, some (heldAtOpen file names) = some l →
            ∃ e' ∈ s.listed, e'.connection = e.connection ∧ Answers s.disk l e'.files := by
          rintro l ⟨⟩
          exact ⟨e, he, rfl, answers_heldAtOpen hnames hfile (hs.noted e he)⟩
        obtain ⟨hinv, hguar⟩ := conns_step watch hs howner hanswers
        refine ⟨hinv, hguar, howner, .inl ⟨rfl, ?_⟩⟩
        dsimp only
        rw [Function.update_self]
        exact Option.some_ne_none _
      · cases h
        exact ⟨hs, .refl _, howner, .inr ⟨fun h => (by cases h), rfl⟩⟩
    · cases h
      exact ⟨hs, .refl _, howner, .inr ⟨fun h => (by cases h), rfl⟩⟩
  all_goals cases h

theorem Answers.set {disk : Disk} {held files : List (Path × Option InodeId)} {i : Nat} {name : Path}
    {file : Option InodeId} (h : Answers disk held files) (hi : held[i]? = some (name, none))
    (hfile : file = disk.lstat name)
    (hfits : ∀ n f, files[i]? = some (n, some f) → disk.lstat n = some f) :
    Answers disk (held.set i (name, file)) files := by
  have hlt : i < held.length := (List.getElem?_eq_some_iff.1 hi).1
  have hcases : ∀ (j : Nat) (n : Path) (f : InodeId),
      (held.set i (name, file))[j]? = some (n, some f) →
        (j = i ∧ n = name ∧ file = some f) ∨ held[j]? = some (n, some f) := by
    intro j n f hj
    by_cases hji : i = j
    · subst hji
      rw [List.getElem?_set_self hlt, Option.some.injEq, Prod.mk.injEq] at hj
      exact .inl ⟨rfl, hj.1.symm, hj.2⟩
    · rw [List.getElem?_set_ne hji] at hj
      exact .inr hj
  refine ⟨?_, ?_, ?_⟩
  · rw [List.map_set, ← h.names]
    refine List.ext_getElem? fun j => ?_
    by_cases hji : i = j
    · subst hji
      rw [List.getElem?_set_self (by rwa [List.length_map]), List.getElem?_map, hi]
      rfl
    · rw [List.getElem?_set_ne hji]
  · intro j n f hj
    rcases hcases j n f hj with ⟨-, rfl, hf⟩ | hj
    · exact hfile.symm.trans hf
    · exact h.there j n f hj
  · intro j n f g hj hg
    rcases hcases j n f hj with ⟨rfl, rfl, hf⟩ | hj
    · exact Option.some.inj ((hfits n g hg).symm.trans (hfile.symm.trans hf))
    · exact h.noted j n f g hj hg

theorem touch_step {i : Nat} {r : Unit} (hs : Inv s) (howner : s.connOwner c = .task t)
    (hfits : Fits (.sqliteTouch c i) luck s)
    (h : exec t (.sqliteTouch c i) luck s = some (r, s')) :
    Inv s' ∧ Guar watch t s s' ∧ s'.connOwner c = .task t ∧
      (s.conns c ≠ none → s'.conns c ≠ none) := by
  cases luck <;> simp only [exec] at h
  case plain =>
    cases h
    exact ⟨hs, .refl _, howner, fun h => h⟩
  case takes =>
    split at h
    · rename_i held hheld
      split at h
      · rename_i name hname
        cases h
        obtain ⟨e, he, hec, hans⟩ := hs.conns c held hheld
        have hanswers : ∀ l, some (held.set i (name, s.disk.lstat name)) = some l →
            ∃ e ∈ s.listed, e.connection = c ∧ Answers s.disk l e.files := by
          rintro l ⟨⟩
          exact ⟨e, he, hec, hans.set hname rfl fun n f hf => hfits rfl e he hec n f hf⟩
        obtain ⟨hinv, hguar⟩ := conns_step watch hs howner hanswers
        refine ⟨hinv, hguar, howner, fun _ => ?_⟩
        dsimp only
        rw [Function.update_self]
        exact Option.some_ne_none _
      · cases h
        exact ⟨hs, .refl _, howner, fun h => h⟩
    · cases h
      exact ⟨hs, .refl _, howner, fun h => h⟩
  all_goals cases h

theorem sqliteClose_step {r : Unit} (hs : Inv s) (howner : s.connOwner c = .task t)
    (h : exec t (.sqliteClose c) luck s = some (r, s')) :
    Inv s' ∧ Guar watch t s s' ∧ s'.connOwner c = .task t ∧ s'.conns c = none := by
  cases luck <;> simp only [exec] at h
  all_goals cases h
  have hanswers : ∀ l, none = some l →
      ∃ e ∈ s.listed, e.connection = c ∧ Answers s.disk l e.files := by
    rintro l ⟨⟩
  obtain ⟨hinv, hguar⟩ := conns_step watch hs howner hanswers
  exact ⟨hinv, hguar, howner, Function.update_self _ _ _⟩

/-! ## The descriptors of a read -/

/-- A descriptor in the hands of a task. -/
def Mine (t : Task) (fd : Fd) (file : InodeId) (s : Shared) : Prop :=
  s.fdOwner fd = .task t ∧ ∃ d, s.fds fd = some d ∧ d.file = file

theorem open_step {path : Path} {r : Except Errno Fd} (hs : Inv s)
    (hop : ∃ path, t.op = .read path)
    (hwatch : ∀ path file, watch = some (path, file) → t.op ≠ .read path)
    (h : exec t (.open path) luck s = some (r, s')) :
    Inv s' ∧ Guar watch t s s' ∧ ∀ fd, r = .ok fd → ∃ file, Mine t fd file s' := by
  have hself : ∀ e : Errno, Inv s ∧ Guar watch t s s ∧
      ∀ fd, (Except.error e : Except Errno Fd) = .ok fd → ∃ file, Mine t fd file s := fun _ =>
    ⟨hs, .refl s, fun _ h => nomatch h⟩
  cases luck <;> simp only [exec] at h
  case fault =>
    cases h
    exact hself _
  case plain =>
    split at h
    · cases h
      exact hself _
    · rename_i file _
      split at h
      · cases h
        exact hself _
      · cases h
        obtain ⟨hnobody, hnone⟩ := hs.fresh s.nextFd (Nat.le_refl _)
        refine ⟨⟨hs.live, hs.unique, hs.conns, hs.noted, hs.numbers, ?_, hs.lock, hs.stores, ?_⟩,
          ⟨⟨fun c _ _ => ⟨rfl, rfl, fun h => h, fun held h => ⟨held, h, .refl held⟩,
            fun _ _ => Iff.rfl⟩, ?_, fun j _ => ⟨fun h => ⟨h, rfl, fun _ _ => rfl⟩,
            fun h => ⟨h, rfl⟩⟩, .of_disk rfl⟩, ?_, fun _ _ _ => hop, ?_⟩, ?_⟩
        · intro fd hfd
          have hlt : s.nextFd < fd := Nat.lt_of_succ_le hfd
          dsimp only
          rw [Function.update_of_ne hlt.ne', Function.update_of_ne hlt.ne']
          exact hs.fresh fd hlt.le
        · intro r hr
          have hne : r.file ≠ s.nextFd := by
            intro heq
            exact Owner.noConfusion (hnobody.symm.trans (heq ▸ (hs.reads r hr).1))
          dsimp only
          rw [Function.update_of_ne hne, Function.update_of_ne hne]
          exact hs.reads r hr
        · intro fd _ hfd
          have hne : fd ≠ s.nextFd := by
            rintro rfl
            exact hfd hnobody
          exact ⟨Function.update_of_ne hne _ _, Function.update_of_ne hne _ _⟩
        · intro fd d hd hd'
          by_cases hfd : fd = s.nextFd
          · rw [hfd, hnone] at hd
            cases hd
          · dsimp only at hd'
            rw [Function.update_of_ne hfd, hd] at hd'
            cases hd'
        · intro p f hp hop
          exact absurd hop (hwatch p f hp)
        · intro fd hfd
          cases hfd
          exact ⟨file, Function.update_self _ _ _, _, Function.update_self _ _ _, rfl⟩
  all_goals cases h

theorem close_step {fd : Fd} {r : Unit} (hs : Inv s) (howner : s.fdOwner fd = .task t)
    (hfree : ∀ d, s.fds fd = some d → ¬Held s d.file)
    (h : exec t (.close fd) luck s = some (r, s')) : Inv s' ∧ Guar watch t s s' := by
  cases luck <;> simp only [exec] at h
  all_goals cases h
  have hkept : ∀ fd', s.fds fd' = none → Function.update s.fds fd none fd' = none := by
    intro fd' hfd'
    by_cases hne : fd' = fd
    · subst hne
      exact Function.update_self _ _ _
    · rw [Function.update_of_ne hne]
      exact hfd'
  refine ⟨⟨hs.live, hs.unique, hs.conns, hs.noted, hs.numbers, ?_, hs.lock, hs.stores, ?_⟩,
    ⟨⟨fun c _ _ => ⟨rfl, rfl, fun h => h, fun held h => ⟨held, h, .refl held⟩,
      fun _ _ => Iff.rfl⟩, ?_, fun j _ => ⟨fun h => ⟨h, rfl, fun _ _ => rfl⟩,
      fun h => ⟨h, rfl⟩⟩, .of_disk rfl⟩, ?_, ?_, ?_⟩⟩
  · intro fd' hfd'
    refine ⟨(hs.fresh fd' hfd').1, ?_⟩
    by_cases hne : fd' = fd
    · subst hne
      exact Function.update_self _ _ _
    · dsimp only
      rw [Function.update_of_ne hne]
      exact (hs.fresh fd' hfd').2
  · intro r hr
    have hne : r.file ≠ fd := by
      rintro rfl
      exact Owner.noConfusion (howner.symm.trans (hs.reads r hr).1)
    dsimp only
    rw [Function.update_of_ne hne]
    exact hs.reads r hr
  · intro fd' hfd' _
    have hne : fd' ≠ fd := by
      rintro rfl
      exact hfd' howner
    exact ⟨rfl, Function.update_of_ne hne _ _⟩
  · intro fd' d hd hd'
    by_cases hne : fd' = fd
    · subst hne
      exact hfree d hd
    · dsimp only at hd'
      rw [Function.update_of_ne hne, hd] at hd'
      cases hd'
  · intro fd' hfd' hopen
    exact absurd (hkept fd' hfd') hopen
  · exact fun _ _ _ _ fd' hfd' => hkept fd' hfd'

end DedupCommando.OpenDb
