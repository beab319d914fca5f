import DedupCommando.Registry.Steps

/-!
# Every program keeps the invariant

* `at_safe`, `with_safe`, `note_files_safe`, `closing_safe`, `drop_entry_safe` — the entry of a
  connection, from its number to its removal.
* `openStore_safe`, `statement_safe`, `drop_safe` — a connection.
* `holds_safe`, `is_open_database_file_safe` — **the questions: a file no entry answers for is open
  in no connection.**
* `readFile_drop_safe`, `open_regular_nofollow_safe` — a read.
* `program_safe` — whatever a task was asked to do.
-/

set_option autoImplicit false

namespace DedupCommando.OpenDb

open Program (Safe)

variable {s s' : Shared} {t : Task} {watch : Option (Path × InodeId)} {c : Nat}

/-! ## What others leave in place -/

theorem stable_owner : (rules watch t).Stable fun s => s.connOwner c = .task t :=
  stable_of_keeps fun _ _ hk h => (hk.conns c h).owner.trans h

theorem stable_writing : (rules watch t).Stable fun s => s.writer = some t :=
  stable_of_keeps fun _ _ hk h => (hk.hold.writing h).1

theorem stable_watched : (rules watch t).Stable (Watched watch) := fun _ _ h _ => h.2

theorem stable_entering {names : List Path} : (rules watch t).Stable (Entering t c names) := by
  refine stable_of_keeps fun s s' hk h => ?_
  have hc := hk.conns c h.owner
  exact ⟨hc.owner.trans h.owner, hc.live.trans h.live, hc.closed h.closed,
    fun e he hec => h.unlisted e ((hc.listed e hec).1 he) hec⟩

theorem Known.keeps {files : List (Path × Option InodeId)} (hk : Keeps t s s')
    (h : Known t c files s) : Known t c files s' := by
  have hc := hk.conns c h.owner
  refine ⟨hc.owner.trans h.owner, hc.live.trans h.live, ?_, ?_⟩
  · intro held' hheld'
    cases hconn : s.conns c with
    | none =>
      rw [hc.closed hconn] at hheld'
      cases hheld'
    | some held =>
      obtain ⟨held'', hheld'', hlet⟩ := hc.conn held hconn
      obtain rfl := Option.some.inj (hheld''.symm.trans hheld')
      have hans := h.answers held hconn
      refine ⟨hlet.1.trans hans.names, ?_, ?_⟩
      · intro i name file hi
        have hi := hlet.2 i name file hi
        exact hk.names.held c held i name file hconn hi (hans.there i name file hi)
      · exact fun i name file other hi => hans.noted i name file other (hlet.2 i name file hi)
  · intro name file rest hfirst
    refine hk.names.database c name (rest.map Prod.fst) file ?_ (h.noted name file rest hfirst)
    rw [h.live, hfirst]
    rfl

theorem stable_known {files : List (Path × Option InodeId)} :
    (rules watch t).Stable (Known t c files) := stable_of_keeps fun _ _ hk h => h.keeps hk

theorem stable_gone : (rules watch t).Stable (Gone t c) := by
  refine stable_of_keeps fun s s' hk h => ?_
  have hc := hk.conns c h.1
  exact ⟨hc.owner.trans h.1, fun e he hec => h.2 e ((hc.listed e hec).1 he) hec⟩

theorem stable_mine {fd : Fd} {file : InodeId} : (rules watch t).Stable (Mine t fd file) := by
  refine stable_of_keeps fun s s' hk h => ?_
  obtain ⟨howner, d, hd, hfile⟩ := h
  have hfd := hk.fds fd howner
  exact ⟨hfd.owner.trans howner, d, hfd.fds.trans hd, hfile⟩

/-- A connection of a task that SQLite has closed, or not opened. -/
def Closed (t : Task) (c : Nat) (s : Shared) : Prop := s.connOwner c = .task t ∧ s.conns c = none

/-- A connection of a task that is open. -/
def Opened (t : Task) (c : Nat) (s : Shared) : Prop := s.connOwner c = .task t ∧ s.conns c ≠ none

theorem stable_closed : (rules watch t).Stable (Closed t c) :=
  stable_of_keeps fun _ _ hk h =>
    ⟨(hk.conns c h.1).owner.trans h.1, (hk.conns c h.1).closed h.2⟩

theorem stable_opened : (rules watch t).Stable (Opened t c) := by
  refine stable_of_keeps fun s s' hk h => ⟨(hk.conns c h.1).owner.trans h.1, ?_⟩
  obtain ⟨held, hheld⟩ := Option.ne_none_iff_exists'.1 h.2
  obtain ⟨held', hheld', -⟩ := (hk.conns c h.1).conn held hheld
  rw [hheld']
  exact Option.some_ne_none _

/-! ## The entry of a connection -/

theorem Known.learn {pre rest : List (Path × Option InodeId)} {name : Path}
    (h : Known t c (pre ++ (name, none) :: rest) s) :
    Known t c (pre ++ (name, s.disk.lstat name) :: rest) s := by
  refine ⟨h.owner, by rw [h.live]; simp, ?_, ?_⟩
  · intro held hheld
    have hans := h.answers held hheld
    have hnames : (pre ++ (name, none) :: rest).map Prod.fst =
        (pre ++ (name, s.disk.lstat name) :: rest).map Prod.fst := by simp
    refine ⟨hans.names.trans hnames, hans.there, ?_⟩
    intro i n file other hi hother
    by_cases hpre : i = pre.length
    · subst hpre
      rw [List.getElem?_append_right (Nat.le_refl _), Nat.sub_self, List.getElem?_cons_zero,
        Option.some.injEq, Prod.mk.injEq] at hother
      obtain ⟨rfl, hlook⟩ := hother
      rw [hans.there _ _ _ hi] at hlook
      exact (Option.some.inj hlook).symm
    · refine hans.noted i n file other hi ?_
      rw [← hother]
      rcases Nat.lt_or_gt_of_ne hpre with hlt | hgt
      · rw [List.getElem?_append_left hlt, List.getElem?_append_left hlt]
      · obtain ⟨k, rfl⟩ := Nat.exists_eq_add_of_lt hgt
        have hsub : pre.length + k + 1 - pre.length = k + 1 := by omega
        rw [List.getElem?_append_right (by omega), List.getElem?_append_right (by omega), hsub,
          List.getElem?_cons_succ, List.getElem?_cons_succ]
  · intro n file rest' hfirst
    cases pre with
    | nil =>
      simp only [List.nil_append, List.cons.injEq, Prod.mk.injEq] at hfirst
      obtain ⟨⟨rfl, hlook⟩, -⟩ := hfirst
      exact hlook
    | cons first pre =>
      simp only [List.cons_append, List.cons.injEq] at hfirst
      obtain ⟨rfl, -⟩ := hfirst
      exact h.noted n file _ rfl

/-- Looking names up, one behind the other, what is known fits the connection all along. -/
theorem note_safe {K : Shared → Prop} (hK : (rules watch t).Stable K) :
    ∀ {count : Nat} {files pre : List (Path × Option InodeId)} {s : Shared}, K s →
      Known t c (pre ++ files) s →
      Safe (rules watch t) (fun files' u => K u ∧ Known t c (pre ++ files') u) (note count files) s
  | 0, _, _, _, hs, h => Safe.stable (hK.and stable_known) ⟨hs, h⟩
  | _ + 1, [], _, _, hs, h => Safe.stable (hK.and stable_known) ⟨hs, h⟩
  | count + 1, (name, some file) :: rest, pre, s, hs, h => by
    show Safe _ _ (note count rest >>= fun rest' => .done ((name, some file) :: rest')) s
    have h' : Known t c ((pre ++ [(name, some file)]) ++ rest) s := by simpa using h
    refine Safe.bind (note_safe hK hs h') fun rest' u hu => ?_
    exact Safe.stable (hK.and stable_known) (by simpa using hu)
  | count + 1, (name, none) :: rest, pre, s, hs, h => by
    show Safe _ _ (perform (.identityAt name) >>= fun noted =>
      note count rest >>= fun rest' => .done ((name, noted) :: rest')) s
    refine safe_same (hK.and stable_known) ⟨hs, h⟩ rfl ?_
    intro u luck noted _ hu hexec hfits _
    obtain rfl : luck = .plain := hfits
    cases hexec
    have h' : Known t c ((pre ++ [(name, u.disk.lstat name)]) ++ rest) u := by
      simpa using hu.2.learn
    refine Safe.bind (note_safe hK hu.1 h') fun rest' v hv => ?_
    exact Safe.stable (hK.and stable_known) (by simpa using hv)

theorem note_known_safe {K : Shared → Prop} {count : Nat} {files : List (Path × Option InodeId)}
    (hK : (rules watch t).Stable K) (hs : K s) (h : Known t c files s) :
    Safe (rules watch t) (fun files' u => K u ∧ Known t c files' u) (note count files) s :=
  @note_safe _ _ _ _ hK count files [] s hs h

theorem endWrite_safe {α : Type} {P : Shared → Prop} {Q : α → Shared → Prop} {k : Unit → Prog α}
    (hP : (rules watch t).Stable P) (hs : P s ∧ s.writer = some t)
    (hwriter : ∀ u, P u → P { u with writer := none })
    (h : ∀ u, P u → Safe (rules watch t) Q (k ()) u) :
    Safe (rules watch t) Q (perform .endWrite >>= k) s := by
  refine safe_call (hP.and stable_writing) hs fun u luck r u' hu hPu hexec _ _ => ?_
  obtain ⟨hinv, hguar, rfl⟩ := endWrite_step watch hu hPu.2 hexec
  exact ⟨hinv, hguar, h _ (hwriter u hPu.1)⟩

theorem stable_entered {names : List Path} : (rules watch t).Stable (Entered t c names) := by
  refine stable_of_keeps fun s s' hk h => ?_
  have hc := hk.conns c h.owner
  obtain ⟨e, he, hec⟩ := h.listed
  exact ⟨hc.owner.trans h.owner, hc.live.trans h.live, hc.closed h.closed,
    e, (hc.listed e hec).2 he, hec⟩

theorem at_safe {working db : Path} :
    Safe (rules watch t) (fun c s => Entered t c (databaseNames working db) s)
      (OpenDatabase.at working db) s := by
  unfold OpenDatabase.at
  refine safe_call stable_true trivial ?_
  intro u luck c u' hu _ hexec _ _
  obtain ⟨hinv, hguar, hentering⟩ := number_step watch hu hexec
  refine ⟨hinv, hguar, ?_⟩
  have hknown : Known t c ((databaseNames working db).map fun name => (name, none)) u' := by
    refine ⟨hentering.owner, ?_, ?_, ?_⟩
    · rw [hentering.live, List.map_map]
      simp [Function.comp_def]
    · intro held hheld
      rw [hentering.closed] at hheld
      cases hheld
    · intro name file rest hfirst
      have := List.mem_of_mem_head? (l := (databaseNames working db).map fun name =>
        (name, (none : Option InodeId))) (a := (name, some file)) (by rw [hfirst]; rfl)
      simp at this
  refine Safe.bind (note_known_safe (stable_entering (c := c)) hentering hknown) ?_
  rintro files v ⟨hv, hfiles⟩
  refine safe_call (stable_entering.and stable_known) ⟨hv, hfiles⟩ ?_
  rintro w luck listed w' hw ⟨hentering, hfiles⟩ hexec _ _
  obtain ⟨hinv, hguar, rfl, -⟩ := write_step watch hw hexec
  refine ⟨hinv, hguar, ?_⟩
  refine safe_call ((stable_entering.and stable_known).and stable_writing)
    ⟨⟨⟨hentering.owner, hentering.live, hentering.closed, hentering.unlisted⟩,
      ⟨hfiles.owner, hfiles.live, hfiles.answers, hfiles.noted⟩⟩, rfl⟩ ?_
  rintro x luck r x' hx ⟨⟨hentering, hfiles⟩, hwriter⟩ hexec _ _
  obtain ⟨hinv, hguar, hentered, hwriter'⟩ :=
    push_step watch hx hwriter hentering hfiles hexec
  refine ⟨hinv, hguar, endWrite_safe stable_entered ⟨hentered, hwriter'⟩
    (fun u h => ⟨h.owner, h.live, h.closed, h.listed⟩) fun y hy => ?_⟩
  exact Safe.stable stable_entered hy

/-- `OpenDatabase::with`, for a change that leaves the list a fit for the connection. -/
theorem with_safe {P : Shared → Prop}
    {change : List (Path × Option InodeId) → Prog (List (Path × Option InodeId))}
    (hP : (rules watch t).Stable P) (howner : ∀ u, P u → u.connOwner c = .task t)
    (hlocal : ∀ u u' : Shared, u'.connOwner = u.connOwner → u'.conns = u.conns → P u → P u')
    (hchange : ∀ files u, (P u ∧ u.writer = some t) → Known t c files u →
      Safe (rules watch t) (fun files' v => (P v ∧ v.writer = some t) ∧ Known t c files' v)
        (change files) u) (hs : P s) :
    Safe (rules watch t) (fun _ u => P u) (OpenDatabase.with c change) s := by
  have hend : ∀ u, P u → u.writer = some t →
      Safe (rules watch t) (fun _ u => P u) (perform .endWrite) u := fun u hu hw =>
    endWrite_safe (k := .done) hP ⟨hu, hw⟩ (fun v hv => hlocal v _ rfl rfl hv)
      fun v hv => Safe.stable (a := ()) hP hv
  unfold OpenDatabase.with
  refine safe_call hP hs ?_
  intro u luck listed u' hu hPu hexec _ _
  obtain ⟨hinv, hguar, rfl, rfl⟩ := write_step watch hu hexec
  refine ⟨hinv, hguar, ?_⟩
  have hPu' := hlocal u { u with writer := some t } rfl rfl hPu
  split
  · rename_i held hfound
    have hmem := List.mem_of_find?_eq_some hfound
    obtain rfl : held.connection = c := by simpa using List.find?_some hfound
    have hknown := hinv.known hmem (howner _ hPu')
    refine Safe.bind (hchange held.files _ ⟨hPu', rfl⟩ hknown) ?_
    rintro files v hv
    refine safe_call ((hP.and stable_writing).and stable_known) hv ?_
    rintro w luck r w' hw ⟨⟨hPw, hwriter⟩, hfiles⟩ hexec _ _
    obtain ⟨hinv, hguar, howner', hconns, hwriter'⟩ :=
      update_step watch hw hwriter hfiles hexec
    exact ⟨hinv, hguar, hend _ (hlocal w w' howner' hconns hPw) hwriter'⟩
  · exact hend _ hPu' rfl

/-- What stays true of a connection while its entry changes. -/
theorem opened_local (u u' : Shared) (howner : u'.connOwner = u.connOwner)
    (hconns : u'.conns = u.conns) (h : Opened t c u) : Opened t c u' := by
  unfold Opened
  rw [howner, hconns]
  exact h

theorem closed_local (u u' : Shared) (howner : u'.connOwner = u.connOwner)
    (hconns : u'.conns = u.conns) (h : Closed t c u) : Closed t c u' := by
  unfold Closed
  rw [howner, hconns]
  exact h

theorem note_files_safe (hs : Opened t c s) :
    Safe (rules watch t) (fun _ u => Opened t c u) (note_files c) s :=
  with_safe stable_opened (fun _ h => h.1) opened_local
    (fun _ _ hu hknown => note_known_safe (stable_opened.and stable_writing) hu hknown) hs

theorem Known.forget {files : List (Path × Option InodeId)} (h : Known t c files s) :
    Known t c (files.map fun file => (file.1, none)) s := by
  have hnames : (files.map fun file => (file.1, (none : Option InodeId))).map Prod.fst =
      files.map Prod.fst := by simp
  have hnothing : ∀ (i : Nat) (name : Path) (file : InodeId),
      (files.map fun file => (file.1, (none : Option InodeId)))[i]? ≠ some (name, some file) := by
    intro i name file hi
    simp at hi
  refine ⟨h.owner, by rw [hnames]; exact h.live, ?_, ?_⟩
  · intro held hheld
    have hans := h.answers held hheld
    exact ⟨hans.names.trans hnames.symm, hans.there,
      fun i name file other _ hother => absurd hother (hnothing i name other)⟩
  · intro name file rest hfirst
    exact absurd (by rw [hfirst]; rfl) (hnothing 0 name file)

theorem closing_safe {P : Shared → Prop} (hP : (rules watch t).Stable P)
    (howner : ∀ u, P u → u.connOwner c = .task t)
    (hlocal : ∀ u u' : Shared, u'.connOwner = u.connOwner → u'.conns = u.conns → P u → P u')
    (hs : P s) : Safe (rules watch t) (fun _ u => P u) (closing c) s :=
  with_safe hP howner hlocal (fun _ _ hu hknown =>
    Safe.stable ((hP.and stable_writing).and stable_known) ⟨hu, hknown.forget⟩) hs

theorem drop_entry_safe (hs : Closed t c s) :
    Safe (rules watch t) (fun _ u => Gone t c u) (OpenDatabase.drop c) s := by
  unfold OpenDatabase.drop
  refine safe_call stable_closed hs ?_
  intro u luck listed u' hu hPu hexec _ _
  obtain ⟨hinv, hguar, rfl, -⟩ := write_step watch hu hexec
  refine ⟨hinv, hguar, ?_⟩
  refine safe_call (stable_closed.and stable_writing) ⟨closed_local u _ rfl rfl hPu, rfl⟩ ?_
  rintro v luck r v' hv ⟨⟨howner, hclosed⟩, hwriter⟩ hexec _ _
  obtain ⟨hinv, hguar, hgone, hwriter'⟩ :=
    retain_step watch hv hwriter howner hclosed hexec
  exact ⟨hinv, hguar, endWrite_safe (k := .done) stable_gone ⟨hgone, hwriter'⟩ (fun _ h => h)
    fun w hw => Safe.stable (a := ()) stable_gone hw⟩

/-! ## A connection -/

theorem drop_safe (hs : s.connOwner c = .task t) :
    Safe (rules watch t) (fun _ u => Gone t c u) (HeldConnection.drop c) s := by
  unfold HeldConnection.drop
  refine Safe.bind (closing_safe stable_owner (fun _ h => h) (fun _ _ h _ hu => by rw [h, hu]) hs) ?_
  intro _ u hu
  refine safe_call stable_owner hu ?_
  intro v luck r v' hv howner hexec _ _
  obtain ⟨hinv, hguar, hclosed⟩ := sqliteClose_step watch hv howner hexec
  exact ⟨hinv, hguar, drop_entry_safe hclosed⟩

theorem statement_safe (hs : Opened t c s) :
    Safe (rules watch t) (fun _ u => Opened t c u) (statement c) s := by
  unfold statement
  have htouch : ∀ {α : Type} {i : Nat} {Q : α → Shared → Prop} {k : Unit → Prog α} {u : Shared},
      Opened t c u → (∀ v, Opened t c v → Safe (rules watch t) Q (k ()) v) →
      Safe (rules watch t) Q (perform (.sqliteTouch c i) >>= k) u := by
    intro α i Q k u hu hk
    refine safe_call stable_opened hu ?_
    intro v luck r v' hv hPv hexec hfits _
    obtain ⟨hinv, hguar, howner, hopen⟩ := touch_step watch hv hPv.1 hfits hexec
    exact ⟨hinv, hguar, hk _ ⟨howner, hopen hPv.2⟩⟩
  refine htouch hs fun u hu => htouch hu fun v hv => ?_
  refine safe_same (k := .done) stable_opened hv rfl ?_
  intro w _ r _ hw _ _ _
  exact Safe.stable stable_opened hw

theorem openStore_safe {working db : Path} :
    Safe (rules watch t) (fun r u => (∀ c, r = .ok c → Opened t c u) ∧
      ∀ c, r = .error c → Gone t c u) (openStore working db) s := by
  have hfailed : ∀ {c : Nat} {u : Shared}, Gone t c u →
      Safe (rules watch t) (fun (r : Except Nat Nat) u => (∀ c, r = .ok c → Opened t c u) ∧
        ∀ c, r = .error c → Gone t c u) (.done (.error c)) u := by
    intro c u hu v huv
    refine ⟨fun _ h => (nomatch h), fun c' h => ?_⟩
    cases h
    exact stable_gone.later huv hu
  have hopened : Safe (rules watch t) (fun r u => (∀ c, r = .ok c → Opened t c u) ∧
      ∀ c, r = .error c → Gone t c u) (HeldConnection.open working db) s := by
    unfold HeldConnection.open
    refine Safe.bind at_safe fun c u hu => ?_
    refine safe_call stable_entered hu ?_
    intro v luck r v' hv hPv hexec _ _
    obtain ⟨hinv, hguar, howner, hcase⟩ :=
      sqliteOpen_step watch hv hPv.owner hPv.live hPv.listed hexec
    refine ⟨hinv, hguar, ?_⟩
    split
    · have hopen : Opened t c v' := by
        rcases hcase with ⟨-, hopen⟩ | ⟨hne, -⟩
        · exact ⟨howner, hopen⟩
        · exact absurd rfl hne
      intro w hvw
      refine ⟨fun c' h => ?_, fun _ h => (nomatch h)⟩
      cases h
      exact stable_opened.later hvw hopen
    · have hclosed : Closed t c v' := by
        rcases hcase with ⟨hok, -⟩ | ⟨-, rfl⟩
        · cases hok
        · exact ⟨howner, hPv.closed⟩
      refine Safe.bind (closing_safe stable_closed (fun _ h => h.1) closed_local hclosed) ?_
      intro _ w hw
      exact Safe.bind (drop_entry_safe hw) fun _ x hx => hfailed hx
  unfold openStore
  refine Safe.bind hopened fun r u hr => ?_
  split
  · exact hfailed (hr.2 _ rfl)
  · rename_i c
    refine Safe.bind (statement_safe (hr.1 c rfl)) fun r' v hv => ?_
    split
    · exact Safe.bind (drop_safe hv.1) fun _ w hw => hfailed hw
    · refine Safe.bind (note_files_safe hv) fun _ w hw => ?_
      intro x hwx
      refine ⟨fun c' h => ?_, fun _ h => (nomatch h)⟩
      cases h
      exact stable_opened.later hwx hw

/-! ## The questions -/

/-- The list as a reader of it found it. -/
structure Reading (t : Task) (listed : List HeldFiles) (s : Shared) : Prop where
  reading : t ∈ s.readers
  same : s.listed = listed
  live : ∀ e ∈ listed, s.live e.connection = some (e.files.map Prod.fst)

variable {listed : List HeldFiles} {file : InodeId}

theorem stable_reading : (rules watch t).Stable (Reading t listed) := by
  refine stable_of_keeps fun s s' hk h => ?_
  obtain ⟨hreading, hsame, hlive⟩ := hk.hold.reading h.reading
  refine ⟨hreading, hsame.trans h.same, fun e he => ?_⟩
  rw [hlive e (h.same.symm ▸ he)]
  exact h.live e he

/-- A file whose number is in use comes to no listed name. -/
theorem Passed.keeps {e : HeldFiles} {known : Path × Option InodeId} (hk : Keeps t s s')
    (hpinned : ¬Fresh s file) (hread : Reading t listed s) (he : e ∈ listed)
    (hknown : known ∈ e.files) (h : Passed file known s) : Passed file known s' := by
  refine ⟨h.1, fun hnone => ?_⟩
  exact hk.names.pinned file hpinned e.connection _ (hread.live e he) known.1
    (List.mem_map_of_mem hknown) (h.2 hnone)

section Questions

variable {on : Prop} {Pin : Shared → Prop}

/-- One name of one entry. -/
theorem known_safe {K : Shared → Prop} {e : HeldFiles} {known : Path × Option InodeId}
    (hK : (rules watch t).Stable K) (hread : ∀ u, K u → Reading t listed u)
    (hpinned : on → ∀ u, K u → ¬Fresh u file) (he : e ∈ listed) (hknown : known ∈ e.files)
    (hs : K s) :
    Safe (rules watch t) (fun b u => K u ∧ (b = false → on → Passed file known u))
      (do return decide ((← noted_or_there known) = some file)) s := by
  have hstable : ∀ b : Bool, (rules watch t).Stable
      fun u => K u ∧ (b = false → on → Passed file known u) := fun b u v huv hu =>
    ⟨hK u v huv hu.1, fun hb hon => Passed.keeps huv.1 (hpinned hon u hu.1) (hread u hu.1) he hknown
      (hu.2 hb hon)⟩
  obtain ⟨name, noted⟩ := known
  cases noted with
  | some other =>
    refine Safe.stable (a := decide (some other = some file)) (hstable _) ⟨hs, fun hb _ => ?_⟩
    exact ⟨of_decide_eq_false hb, fun h => (nomatch h)⟩
  | none =>
    show Safe _ _ (perform (.identityAt name) >>= fun found => .done (decide (found = some file))) s
    refine safe_same hK hs rfl ?_
    intro u luck found _ hu hexec hfits _
    obtain rfl : luck = .plain := hfits
    cases hexec
    refine Safe.stable (hstable _) ⟨hu, fun hb _ => ?_⟩
    exact ⟨fun h => (nomatch h), fun _ => of_decide_eq_false hb⟩

/-- What a reader of the list knows once every name was asked. -/
def Asked (t : Task) (listed : List HeldFiles) (file : InodeId) (on : Prop) (Pin : Shared → Prop)
    (b : Bool) (s : Shared) : Prop :=
  (Reading t listed s ∧ Pin s) ∧
    (b = false → ∀ e ∈ listed, ∀ known ∈ e.files, on → Passed file known s)

theorem stable_asked (hpin : (rules watch t).Stable Pin) (hpinned : on → ∀ u, Pin u → ¬Fresh u file)
    (b : Bool) : (rules watch t).Stable (Asked t listed file on Pin b) := fun u v huv hu =>
  ⟨stable_reading.and hpin u v huv hu.1, fun hb e he known hknown hon =>
    Passed.keeps huv.1 (hpinned hon u hu.1.2) hu.1.1 he hknown (hu.2 hb e he known hknown hon)⟩

theorem holds_safe (hpin : (rules watch t).Stable Pin) (hpinned : on → ∀ u, Pin u → ¬Fresh u file)
    (hs : Reading t listed s ∧ Pin s) :
    Safe (rules watch t) (Asked t listed file on Pin) (holds listed file) s := by
  refine Safe.anyM_keeps (K := fun u => Reading t listed u ∧ Pin u)
    (P := fun (e : HeldFiles) u => ∀ known ∈ e.files, on → Passed file known u) ?_ ?_
    (stable_reading.and hpin) hs
  · intro e he K hK hKin u hu
    refine Safe.anyM_keeps (P := fun known u => on → Passed file known u) ?_ ?_ hK hu
    · intro known hknown K' hK' hK'in v hv
      exact known_safe hK' (fun w hw => (hKin w (hK'in w hw)).1)
        (fun hon w hw => hpinned hon w (hKin w (hK'in w hw)).2) he hknown hv
    · intro known hknown v w hvw hv h hon
      exact Passed.keeps hvw.1 (hpinned hon v (hKin v hv).2) (hKin v hv).1 he hknown (h hon)
  · intro e he u v huv hu h known hknown hon
    exact Passed.keeps huv.1 (hpinned hon u hu.2) hu.1 he hknown (h known hknown hon)

end Questions

theorem read_safe {α : Type} {P : Shared → Prop} {Q : α → Shared → Prop}
    {k : List HeldFiles → Prog α} (hP : (rules watch t).Stable P) (hs : P s)
    (hreaders : ∀ u l, P u → P { u with readers := l })
    (h : ∀ listed u, Reading t listed u → P u → Watched watch u →
      Safe (rules watch t) Q (k listed) u) :
    Safe (rules watch t) Q (perform .read >>= k) s := by
  refine safe_call hP hs ?_
  intro u luck listed u' hu hPu hexec _ hwatched
  obtain ⟨hinv, hguar, rfl, rfl⟩ := read_step watch hu hexec
  exact ⟨hinv, hguar, h _ _ ⟨List.mem_cons_self, rfl, hu.live⟩ (hreaders u _ hPu) hwatched⟩

theorem endRead_safe {α : Type} {P : Shared → Prop} {Q : α → Shared → Prop} {k : Unit → Prog α}
    (hP : (rules watch t).Stable P) (hs : P s)
    (h : ∀ u, Inv u → Watched watch u → P u →
      Safe (rules watch t) Q (k ()) { u with readers := u.readers.erase t }) :
    Safe (rules watch t) Q (perform .endRead >>= k) s := by
  refine safe_call hP hs fun u luck r u' hu hPu hexec _ hwatched => ?_
  obtain ⟨hinv, hguar, rfl⟩ := endRead_step watch hu hexec
  exact ⟨hinv, hguar, h u hu hwatched hPu⟩

theorem not_held_of_passed {u : Shared} (hu : Inv u) (hread : Reading t listed u)
    (h : ∀ e ∈ listed, ∀ known ∈ e.files, Passed file known u) : ¬Held u file :=
  hu.not_held fun e he => h e (hread.same ▸ he)

/-- **A file that is watched is answered for.** -/
theorem is_open_database_file_safe {K : Shared → Prop} (hK : (rules watch t).Stable K)
    (hreaders : ∀ u l, K u → K { u with readers := l }) (hs : K s) :
    Safe (rules watch t) (fun b u => K u ∧ ∀ path, watch = some (path, file) → b = true)
      (is_open_database_file file) s := by
  unfold is_open_database_file
  refine read_safe hK hs hreaders fun listed u hread hKu hwatched => ?_
  -- while the file is watched, SQLite has it open at every moment of the question
  have hpin : (rules watch t).Stable fun v => K v ∧ Watched watch v := hK.and stable_watched
  have hpinned : (∃ path, watch = some (path, file)) → ∀ v, K v ∧ Watched watch v →
      ¬Fresh v file := by
    rintro ⟨path, hpath⟩ v ⟨-, hv⟩ hfresh
    exact hfresh.1 (hv path file hpath).1
  refine Safe.bind (holds_safe hpin hpinned ⟨hread, hKu, hwatched⟩) fun b v hv => ?_
  refine endRead_safe (stable_asked hpin hpinned b) hv fun w hw hwatched hasked => ?_
  refine Safe.stable (hK.and fun _ _ _ h => h) ⟨hreaders w _ hasked.1.2.1, fun path hpath => ?_⟩
  cases b with
  | true => rfl
  | false =>
    exact absurd (hwatched path file hpath).1 (not_held_of_passed hw hasked.1.1
      fun e he known hknown => hasked.2 rfl e he known hknown ⟨path, hpath⟩)

/-! ## A read -/

theorem Mine.not_fresh {fd : Fd} (h : Mine t fd file s) : ¬Fresh s file := by
  obtain ⟨-, d, hd, rfl⟩ := h
  exact fun hfresh => hfresh.2 fd d hd rfl

/-- **A descriptor is closed only when its file is open in no connection.** -/
theorem readFile_drop_safe {r : ReadFile} (hs : Mine t r.file r.identity s) :
    Safe (rules watch t) (fun _ _ => True) r.drop s := by
  have hend : ∀ (b : Bool) (P : Shared → Prop) (u : Shared), (rules watch t).Stable P → P u →
      Safe (rules watch t) (fun _ _ => True) (perform .endRead >>= fun _ => .done b) u :=
    fun b P u hP hu => endRead_safe hP hu fun _ _ _ _ => Safe.stable stable_true trivial
  unfold ReadFile.drop unless_open_database_file
  refine read_safe stable_mine hs (fun u l h => h) fun listed u hread hmine _ => ?_
  have hpinned : True → ∀ v, Mine t r.file r.identity v → ¬Fresh v r.identity :=
    fun _ v hv => hv.not_fresh
  refine Safe.bind (holds_safe stable_mine hpinned ⟨hread, hmine⟩) fun b v hv => ?_
  cases b with
  | true => exact hend false _ v (stable_asked stable_mine hpinned true) hv
  | false =>
    refine safe_call (stable_asked stable_mine hpinned false) hv ?_
    intro w luck x w' hw hasked hexec _ _
    have hfree := not_held_of_passed hw hasked.1.1 fun e he known hknown =>
      hasked.2 rfl e he known hknown trivial
    obtain ⟨howner, d, hd, hfile⟩ := hasked.1.2
    obtain ⟨hinv, hguar⟩ := close_step watch hw howner (fun d' hd' => by
      rw [hd, Option.some.injEq] at hd'
      rw [← hd', hfile]
      exact hfree) hexec
    exact ⟨hinv, hguar, hend true _ w' stable_true trivial⟩

theorem refusedAtLook_safe {looked : Option InodeId} :
    Safe (rules watch t) (fun b _ => ∀ path file, watch = some (path, file) →
      looked = some file → b = true) (refusedAtLook looked) s := by
  cases looked with
  | none => exact Safe.done fun _ _ _ h => nomatch h
  | some i =>
    refine Safe.mono (is_open_database_file_safe stable_true (fun _ _ h => h) trivial) ?_
    rintro b u ⟨-, hb⟩ path file hwatch hlooked
    cases hlooked
    exact hb path hwatch

theorem open_regular_nofollow_safe {path : Path} (hop : t.op = .read path) :
    Safe (rules watch t) (fun r u => ∀ file, r = .ok file → Mine t file.file file.identity u)
      (open_regular_nofollow path) s := by
  have hrefused : ∀ (e : ReadError) (u : Shared), Safe (rules watch t)
      (fun (r : Except ReadError ReadFile) u => ∀ file, r = .ok file →
        Mine t file.file file.identity u) (.done (.error e)) u := fun _ _ _ _ _ h => nomatch h
  unfold open_regular_nofollow
  refine safe_same stable_true trivial rfl ?_
  intro u luck looked _ _ hexec hfits hwatched
  obtain rfl : luck = .plain := hfits
  cases hexec
  refine Safe.bind refusedAtLook_safe fun b v hb => ?_
  cases b with
  | true => exact hrefused _ v
  | false =>
    refine safe_call stable_true trivial ?_
    intro w luck r w' hw _ hexec _ _
    obtain ⟨hinv, hguar, hmine⟩ := open_step watch hw ⟨path, hop⟩
      (fun path' file hwatch hread => by
        cases hop.symm.trans hread
        cases hb path file hwatch (hwatched path file hwatch).2) hexec
    refine ⟨hinv, hguar, ?_⟩
    split
    · exact hrefused _ w'
    · rename_i fd
      obtain ⟨file, hmine⟩ := hmine fd rfl
      refine safe_same stable_mine hmine rfl ?_
      intro x luck st _ hmine hexec hfits _
      obtain rfl : luck = .plain := hfits
      obtain ⟨howner, d, hd, rfl⟩ := hmine
      obtain rfl : st = .ok d := by
        simp only [exec, hd, Option.map_some, Option.some.injEq, Prod.mk.injEq] at hexec
        exact hexec.1.symm
      have hdropped : ∀ (e : ReadError) (y : Shared), Mine t fd d.file y →
          Safe (rules watch t) (fun (r : Except ReadError ReadFile) u => ∀ file, r = .ok file →
            Mine t file.file file.identity u)
            (ReadFile.drop ⟨fd, d.file⟩ >>= fun _ => .done (.error e)) y := fun e y hy =>
        Safe.bind (readFile_drop_safe (r := ⟨fd, d.file⟩) hy) fun _ z _ => hrefused e z
      refine Safe.bind (@is_open_database_file_safe _ _ _ d.file _ stable_mine (fun _ _ h => h)
        ⟨howner, d, hd, rfl⟩) ?_
      rintro b y ⟨hmine, -⟩
      split
      · exact hdropped _ y hmine
      · split
        · exact hdropped _ y hmine
        · intro z hyz r hr
          cases hr
          exact stable_mine.later hyz hmine

/-! ## The walk -/

theorem filesOf_safe : ∀ {files : List (Path × Option InodeId)} {s : Shared},
    Safe (rules watch t) (fun _ _ => True) (filesOf files) s
  | [], _ => Safe.stable stable_true trivial
  | (_, some _) :: rest, _ =>
    Safe.bind (p := filesOf rest) (Q := fun _ _ => True) filesOf_safe fun _ _ _ =>
      Safe.stable stable_true trivial
  | (name, none) :: rest, _ =>
    safe_same (c := .identityAt name) stable_true trivial rfl fun _ _ _ _ _ _ _ _ =>
      Safe.bind (p := filesOf rest) (Q := fun _ _ => True) filesOf_safe fun _ _ _ =>
        Safe.stable stable_true trivial

theorem filesOfAll_safe : ∀ {listed : List HeldFiles} {s : Shared},
    Safe (rules watch t) (fun _ _ => True) (filesOfAll listed) s
  | [], _ => Safe.stable stable_true trivial
  | _ :: _, _ => Safe.bind filesOf_safe fun _ _ _ => Safe.bind filesOfAll_safe fun _ _ _ =>
    Safe.stable stable_true trivial

theorem open_database_files_safe :
    Safe (rules watch t) (fun _ _ => True) open_database_files s := by
  unfold open_database_files
  refine read_safe stable_true trivial (fun _ _ h => h) fun listed u _ _ _ => ?_
  refine Safe.bind filesOfAll_safe fun files v _ => ?_
  exact endRead_safe stable_true trivial fun _ _ _ _ => Safe.stable stable_true trivial

/-! ## Every program -/

/-- What a task leaves to its process. -/
structure Result (t : Task) (out : Outcome) (s : Shared) : Prop where
  opened : ∀ c, out = .opened c → Opened t c s
  used : ∀ c, out = .used c → Opened t c s
  reading : ∀ file, out = .reading (.ok file) → Mine t file.file file.identity s
  failed : ∀ c, out = .failed c → Gone t c s
  dropped : ∀ c, out = .dropped c → Gone t c s

/-- What a task needs of the state it begins in. -/
def Ready (t : Task) (s : Shared) : Prop :=
  match t.op with
  | .statement c => Opened t c s
  | .drop c => s.connOwner c = .task t
  | .done file => Mine t file.file file.identity s
  | _ => True

theorem program_safe {working : Path} (h : Ready t s) :
    Safe (rules watch t) (Result t) (program working t.op) s := by
  have hanswer : ∀ (out : Outcome) (u : Shared), (∀ c, out ≠ .opened c) → (∀ c, out ≠ .used c) →
      (∀ file, out ≠ .reading (.ok file)) → (∀ c, out ≠ .failed c) → (∀ c, out ≠ .dropped c) →
      Safe (rules watch t) (Result t) (.done out) u := fun out u h₁ h₂ h₃ h₄ h₅ v _ =>
    ⟨fun c h => absurd h (h₁ c), fun c h => absurd h (h₂ c), fun f h => absurd h (h₃ f),
      fun c h => absurd h (h₄ c), fun c h => absurd h (h₅ c)⟩
  unfold Ready at h
  cases hop : t.op with
  | «open» db =>
    refine Safe.bind openStore_safe fun r u hr => ?_
    split
    · rename_i c
      refine fun v huv => ⟨fun c' h => ?_, fun _ h => (nomatch h), fun _ h => (nomatch h),
        fun _ h => (nomatch h), fun _ h => (nomatch h)⟩
      cases h
      exact stable_opened.later huv (hr.1 c rfl)
    · rename_i c
      refine fun v huv => ⟨fun _ h => (nomatch h), fun _ h => (nomatch h), fun _ h => (nomatch h),
        fun c' h => ?_, fun _ h => (nomatch h)⟩
      cases h
      exact stable_gone.later huv (hr.2 c rfl)
  | statement c =>
    rw [hop] at h
    refine Safe.bind (statement_safe h) fun r u hu => fun v huv => ⟨fun _ h => (nomatch h),
      fun c' h => ?_, fun _ h => (nomatch h), fun _ h => (nomatch h), fun _ h => (nomatch h)⟩
    cases h
    exact stable_opened.later huv hu
  | drop c =>
    rw [hop] at h
    refine Safe.bind (drop_safe h) fun r u hu => fun v huv => ⟨fun _ h => (nomatch h),
      fun _ h => (nomatch h), fun _ h => (nomatch h), fun _ h => (nomatch h), fun c' h => ?_⟩
    cases h
    exact stable_gone.later huv hu
  | read path =>
    refine Safe.bind (open_regular_nofollow_safe hop) fun r u hr => fun v huv =>
      ⟨fun _ h => (nomatch h), fun _ h => (nomatch h), fun file h => ?_, fun _ h => (nomatch h),
        fun _ h => (nomatch h)⟩
    cases h
    exact stable_mine.later huv (hr file rfl)
  | done file =>
    rw [hop] at h
    refine Safe.bind (readFile_drop_safe h) fun b u _ => ?_
    exact hanswer _ u (fun _ h => nomatch h) (fun _ h => nomatch h) (fun _ h => nomatch h)
      (fun _ h => nomatch h) fun _ h => nomatch h
  | probe file =>
    refine Safe.bind (is_open_database_file_safe stable_true (fun _ _ h => h) trivial) fun b u _ => ?_
    exact hanswer _ u (fun _ h => nomatch h) (fun _ h => nomatch h) (fun _ h => nomatch h)
      (fun _ h => nomatch h) fun _ h => nomatch h
  | refuse path =>
    refine Safe.bind (p := refuse_open_database path) (Q := fun _ _ => True) ?_ fun b u _ => ?_
    · refine safe_same stable_true trivial rfl fun u _ there _ _ _ _ _ => ?_
      exact Safe.mono refusedAtLook_safe fun _ _ _ => trivial
    · exact hanswer _ u (fun _ h => nomatch h) (fun _ h => nomatch h) (fun _ h => nomatch h)
        (fun _ h => nomatch h) fun _ h => nomatch h
  | walk =>
    refine Safe.bind open_database_files_safe fun files u _ => ?_
    exact hanswer _ u (fun _ h => nomatch h) (fun _ h => nomatch h) (fun _ h => nomatch h)
      (fun _ h => nomatch h) fun _ h => nomatch h

end DedupCommando.OpenDb
