import DedupCommando.Store.LeaseGrant
import DedupCommando.Store.Sweep

/-!
# What a sweep reports

The report of an auto-select sweep describes the durable marks at every cut.

* `Published` — what the writers of a publication promise of its cells.
* `Snapshot.memberTexts` — the pathnames of a rank; `nodup_memberTexts` says that no pathname
  stands in two ranks or twice in one.
* `GroupMarked` — one keeper, and every other member marked for deletion.
* `Swept` — the invariant of the loop over the chunks (`swept_chunks`).
* `auto_select_reports` — the report.
-/

set_option autoImplicit false

namespace DedupCommando

open Sql (Value)

/-- A publication as its writers leave it: keys are unique, one file has one spelling, a digest is
    lower-case hexadecimal, and no group is empty. -/
structure Published (t : ScanTables) : Prop where
  keyed : t.Keyed
  spelling : ∀ f ∈ t.file, ∀ g ∈ t.file, ∀ a b, f.path = .text a → g.path = .text b →
    samePathBuf a b = true → a = b
  digest : ∀ g ∈ t.fileGroup, ∃ d, g.hash = .text (Sql.hexText d)
  populated : ∀ g ∈ t.fileGroup, g.fileCount ≠ .integer 0

/-! ## The pathnames of a rank -/

/-- The text of a cell. -/
def cellText (v : Value) : Option Bytes :=
  match v with
  | .text b => some b
  | _ => none

theorem cellText_eq {v : Value} {b : Bytes} : cellText v = some b ↔ v = .text b := by
  cases v <;> simp [cellText]

/-- The member pathnames of a rank, in member order. -/
def Snapshot.memberTexts (s : Snapshot) (rank : Int) : List Bytes :=
  (s.memberRows rank).filterMap fun f => cellText f.path

theorem groupFileRows_ok {scanId : Int} {marks : List MarkRow} {files : List FileRow} :
    ∀ {entries : List MarkedEntry}, groupFileRows scanId marks files = .ok entries →
      entries.map (fun f => f.path) = files.filterMap (fun f => cellText f.path) ∧
        entries.length = files.length ∧ ∀ f ∈ entries, isUtf8 f.path = true := by
  induction files with
  | nil => intro entries h; cases h; simp
  | cons f files ih =>
    intro entries h
    unfold groupFileRows at h
    split at h
    · cases h
    rename_i entry hentry
    split at h
    · cases h
    rename_i rest hrest
    cases h
    obtain ⟨hpaths, hlength, hutf8⟩ := ih hrest
    have hpath : getText f.path = .ok entry.path := by
      unfold groupFileRow at hentry
      simp only at hentry
      split at hentry
      · cases hentry
      · cases hentry
      rename_i path size hpath _
      split at hentry
      · cases hentry
      · cases hentry
      · cases hentry; exact hpath
    obtain ⟨hcell, hvalid⟩ := getText_ok.1 hpath
    refine ⟨?_, by simp [hlength], ?_⟩
    · rw [List.map_cons, List.filterMap_cons, hcell, hpaths]
      rfl
    · intro g hg
      rcases List.mem_cons.1 hg with rfl | hg
      · exact hvalid
      · exact hutf8 g hg

theorem Snapshot.group_ok {s : Snapshot} {marks : List MarkRow} {id : GroupId}
    {members : List MarkedEntry} (h : s.group marks id = .ok members) :
    s.requireCurrent id = .ok () ∧ (∃ g, g ∈ s.tables.groupsAt (.integer id.rank)) ∧
      members.map (fun f => f.path) = s.memberTexts id.rank ∧
      members.length = (s.memberRows id.rank).length ∧ ∀ f ∈ members, isUtf8 f.path = true := by
  unfold Snapshot.group at h
  split at h
  · cases h
  rename_i hcurrent
  split at h
  · cases h
  rename_i g hg
  split at h
  · cases h
  split at h
  · cases h
  rename_i entries hentries
  split at h
  · cases h
  cases h
  exact ⟨hcurrent, ⟨g, List.mem_of_mem_head? hg⟩, groupFileRows_ok hentries⟩

section Publication

variable {s : Snapshot}

/-- A text cell names one row of a table whose pathnames are a key. -/
theorem file_unique (hkeyed : s.tables.Keyed) {f g : FileRow} {b : Bytes} (hf : f ∈ s.tables.file)
    (hg : g ∈ s.tables.file) (hfb : f.path = .text b) (hgb : g.path = .text b) : f = g := by
  have hfm : f ∈ s.tables.filesAt (.text b) := List.mem_filter.2 ⟨hf, by simp [hfb]⟩
  have hgm : g ∈ s.tables.filesAt (.text b) := List.mem_filter.2 ⟨hg, by simp [hgb]⟩
  have hone := (filter_key_unique hkeyed.paths hfm).1
  unfold ScanTables.filesAt at hgm
  rw [hone, List.mem_singleton] at hgm
  exact hgm.symm

theorem mem_memberTexts {rank : Int} {b : Bytes} :
    b ∈ s.memberTexts rank ↔ ∃ f ∈ s.memberRows rank, f.path = .text b := by
  unfold Snapshot.memberTexts
  simp only [List.mem_filterMap, cellText_eq]

theorem mem_memberRows_derived (hmode : s.mode = .derived) {rank : Int} {f : FileRow} :
    f ∈ s.memberRows rank ↔
      ∃ g ∈ s.tables.groupsAt (.integer rank), f ∈ s.tables.filesOf g.hash := by
  unfold Snapshot.memberRows
  rw [hmode]
  simp only [Sql.mem_orderBy, List.mem_flatMap]

theorem member_file {rank : Int} {f : FileRow} (h : f ∈ s.memberRows rank) :
    f ∈ s.tables.file := by
  unfold Snapshot.memberRows at h
  split at h
  · obtain ⟨m, -, hf⟩ := List.mem_flatMap.1 h
    exact (List.mem_filter.1 hf).1
  · obtain ⟨g, -, hf⟩ := List.mem_flatMap.1 (Sql.mem_orderBy.1 h)
    exact (List.mem_filter.1 hf).1

/-- A pathname has one rank. -/
theorem rank_unique (hp : Published s.tables) (hmode : s.mode ≠ .unknown)
    (hv : Validated s.tables s.scanId s.mode s.generation s.inconsistentRanks)
    {rank rank' : Int} {b : Bytes} (hb : b ∈ s.memberTexts rank) (hb' : b ∈ s.memberTexts rank') :
    rank = rank' := by
  obtain ⟨f, hf, hfb⟩ := mem_memberTexts.1 hb
  obtain ⟨f', hf', hfb'⟩ := mem_memberTexts.1 hb'
  have hsame := file_unique hp.keyed (member_file hf) (member_file hf') hfb hfb'
  subst hsame
  cases hm : s.mode with
  | unknown => exact absurd hm hmode
  | explicit =>
    have hshape : ExplicitShape s.tables s.generation :=
      validateStructure_explicit.1 (hm ▸ hv.shape)
    obtain ⟨m, hmr, hfm⟩ := (mem_memberRows_explicit hm).1 hf
    obtain ⟨m', hmr', hfm'⟩ := (mem_memberRows_explicit hm).1 hf'
    obtain ⟨hmm, hrank⟩ := List.mem_filter.1 hmr
    obtain ⟨hmm', hrank'⟩ := List.mem_filter.1 hmr'
    have hpath := hshape.path_eq m hmm f hfm
    have hpath' := hshape.path_eq m' hmm' f hfm'
    -- the member rows of one pathname are one row
    have hnodup : (s.tables.member.map fun m => m.path.key).Nodup := by
      have := Sql.repeated_eq_zero.1 hshape.paths
      rwa [List.map_map] at this
    have hone := List.inj_on_of_nodup_map hnodup hmm hmm'
      (by show m.path.key = m'.path.key; rw [← hpath, ← hpath'])
    subst hone
    have := Value.same_trans ((Value.same_comm _ _).trans hrank) hrank'
    exact Value.same_integer.1 this
  | derived =>
    obtain ⟨g, hgr, hfg⟩ := (mem_memberRows_derived hm).1 hf
    obtain ⟨g', hgr', hfg'⟩ := (mem_memberRows_derived hm).1 hf'
    obtain ⟨hg, hrank⟩ := List.mem_filter.1 hgr
    obtain ⟨hg', hrank'⟩ := List.mem_filter.1 hgr'
    obtain ⟨d, hd⟩ := hp.digest g hg
    obtain ⟨d', hd'⟩ := hp.digest g' hg'
    have hfd := (List.mem_filter.1 hfg).2
    have hfd' := (List.mem_filter.1 hfg').2
    rw [hd, Sql.unhex_hexText, Value.same_blob] at hfd
    rw [hd', Sql.unhex_hexText, Value.same_blob] at hfd'
    have hdd : d = d' := by rw [hfd] at hfd'; simpa using hfd'
    have hnodup : (s.tables.fileGroup.map fun g => g.hash.key).Nodup := by
      have := Sql.repeated_eq_zero.1 (validateStructure_derived.1 (hm ▸ hv.shape)).2
      rwa [List.map_map] at this
    have hone := List.inj_on_of_nodup_map hnodup hg hg'
      (by show g.hash.key = g'.hash.key; rw [hd, hd', hdd])
    subst hone
    have := Value.same_trans ((Value.same_comm _ _).trans hrank) hrank'
    exact Value.same_integer.1 this

/-- The rows of a rank have distinct pathnames. -/
theorem pairwise_memberRows (hp : Published s.tables) (hmode : s.mode ≠ .unknown)
    (hv : Validated s.tables s.scanId s.mode s.generation s.inconsistentRanks) (rank : Int) :
    (s.memberRows rank).Pairwise fun f g => Value.same f.path g.path = false := by
  have hfile := hp.keyed.paths
  unfold Snapshot.memberRows
  cases hm : s.mode with
  | unknown => exact absurd hm hmode
  | explicit =>
    have hshape : ExplicitShape s.tables s.generation :=
      validateStructure_explicit.1 (hm ▸ hv.shape)
    have hnodup : (s.tables.member.map fun m => m.path.key).Nodup := by
      have := Sql.repeated_eq_zero.1 hshape.paths
      rwa [List.map_map] at this
    have hmembers : (Sql.orderBy (fun m : MemberRow => m.path.key)
        (s.tables.membersAt (.integer rank))).Pairwise fun m m' => m.path.key ≠ m'.path.key := by
      have hsub : (s.tables.membersAt (.integer rank)).Pairwise
          fun m m' => m.path.key ≠ m'.path.key :=
        (List.pairwise_map.1 hnodup).sublist List.filter_sublist
      exact (Sql.orderBy_perm _ _).symm.pairwise hsub fun h => h.symm
    simp only
    rw [List.pairwise_flatMap]
    refine ⟨fun m _ => hfile.sublist List.filter_sublist, hmembers.imp fun {m m'} hne f hf g hg => ?_⟩
    rw [Bool.eq_false_iff]
    intro hsame
    have hfm := (List.mem_filter.1 hf).2
    have hgm := (List.mem_filter.1 hg).2
    have := Value.same_trans (Value.same_trans ((Value.same_comm _ _).trans hfm) hsame) hgm
    exact hne (Value.same_iff.1 this).2
  | derived =>
    have hgroups : (s.tables.groupsAt (.integer rank)).length ≤ 1 := by
      have hpair : (s.tables.groupsAt (.integer rank)).Pairwise fun _ _ => False := by
        unfold ScanTables.groupsAt
        rw [List.pairwise_filter]
        exact (pairwise_same_unique hp.keyed.ranks).imp fun h ha hb => h ⟨ha, hb⟩
      cases hg : s.tables.groupsAt (.integer rank) with
      | nil => simp
      | cons a l =>
        cases l with
        | nil => simp
        | cons b l =>
          rw [hg] at hpair
          exact ((List.pairwise_cons.1 hpair).1 b List.mem_cons_self).elim
    simp only
    apply (Sql.orderBy_perm _ _).symm.pairwise
    · cases hg : s.tables.groupsAt (.integer rank) with
      | nil => simp
      | cons a l =>
        rw [hg, List.length_cons] at hgroups
        have hl : l = [] := List.length_eq_zero_iff.1 (by omega)
        subst hl
        rw [List.flatMap_singleton]
        exact hfile.sublist List.filter_sublist
    · intro f g h
      rw [Value.same_comm]
      exact h

/-- No pathname stands twice in a rank. -/
theorem nodup_memberTexts (hp : Published s.tables) (hmode : s.mode ≠ .unknown)
    (hv : Validated s.tables s.scanId s.mode s.generation s.inconsistentRanks) (rank : Int) :
    (s.memberTexts rank).Nodup := by
  refine (pairwise_memberRows hp hmode hv rank).filterMap _ fun f g h b hb b' hb' hbb => ?_
  rw [cellText_eq.1 hb, cellText_eq.1 hb', hbb, Bool.eq_false_iff] at h
  exact h (Value.same_text.2 rfl)

/-- A group that can be read has a member. -/
theorem members_ne_nil (hp : Published s.tables) (hmode : s.mode ≠ .unknown)
    (hv : Validated s.tables s.scanId s.mode s.generation s.inconsistentRanks)
    {marks : List MarkRow} {id : GroupId} {members : List MarkedEntry}
    (h : s.group marks id = .ok members) : members ≠ [] := by
  obtain ⟨hcurrent, ⟨g, hg⟩, -, hlength, -⟩ := Snapshot.group_ok h
  obtain ⟨-, -, -, hconsistent⟩ := requireCurrent_ok hcurrent
  obtain ⟨hgm, hrank⟩ := List.mem_filter.1 hg
  have hdomain := hv.domains g hgm
  simp only [GroupRow.cells, List.forall_mem_cons] at hdomain
  obtain ⟨hr, -, hc, -⟩ := hdomain
  obtain ⟨r, hr, -⟩ := badCount_eq_false hr
  obtain ⟨n, hn, -⟩ := badCount_eq_false hc
  rw [hr, Value.same_integer] at hrank
  subst hrank
  have hagree := hv.counts g hgm _ hr hconsistent
  rw [disagrees, hn, Value.differs_eq_not_same (by simp) (by simp), Bool.not_eq_false',
    Value.same_integer] at hagree
  have hpos : memberCount s.tables s.mode g ≠ 0 := by
    intro hzero
    apply hp.populated g hgm
    rw [hn, ← hagree, hzero]
    rfl
  intro hnil
  apply hpos
  rw [hnil, List.length_nil] at hlength
  have hrows : s.memberRows id.rank = [] := List.length_eq_zero_iff.1 hlength.symm
  unfold Snapshot.memberRows at hrows
  unfold memberCount
  cases hm : s.mode with
  | unknown => exact absurd hm hmode
  | explicit =>
    have hshape : ExplicitShape s.tables s.generation :=
      validateStructure_explicit.1 (hm ▸ hv.shape)
    rw [hm] at hrows
    simp only at hrows ⊢
    rw [hr, List.length_eq_zero_iff, List.eq_nil_iff_forall_not_mem]
    intro m hmr
    exact hshape.manifest m (mem_of_membersAt hmr)
      (List.flatMap_eq_nil_iff.1 hrows m (Sql.mem_orderBy.2 hmr))
  | derived =>
    rw [hm] at hrows
    simp only at hrows ⊢
    have hperm := (Sql.orderBy_perm (fun f : FileRow => f.path.key)
      ((s.tables.groupsAt (.integer id.rank)).flatMap fun g => s.tables.filesOf g.hash)).symm
    rw [hrows] at hperm
    rw [List.length_eq_zero_iff]
    exact List.flatMap_eq_nil_iff.1 (List.perm_nil.1 hperm) g hg

end Publication

/-! ## The marks of one group -/

theorem pickKeeper_fold (first : MarkedEntry × Nat) (rest : List (MarkedEntry × Nat)) :
    (rest.foldl (fun x y => if keeperBefore x.1 y.1 then x else y) first) ∈ first :: rest := by
  induction rest generalizing first with
  | nil => exact List.mem_cons_self
  | cons y rest ih =>
    rw [List.foldl_cons]
    split
    · rcases List.mem_cons.1 (ih first) with h | h
      · exact List.mem_cons.2 (.inl h)
      · exact List.mem_cons_of_mem _ (List.mem_cons_of_mem _ h)
    · exact List.mem_cons_of_mem _ (ih _)

/-- The keeper of a group is one of its members. -/
theorem pickKeeper_lt {files : List MarkedEntry} (h : files ≠ []) :
    pickKeeper files < files.length := by
  unfold pickKeeper
  cases hz : files.zipIdx with
  | nil =>
    have := congrArg List.length hz
    rw [List.length_zipIdx, List.length_nil] at this
    exact absurd (List.length_eq_zero_iff.1 this) h
  | cons first rest =>
    have hmem := pickKeeper_fold first rest
    rw [← hz] at hmem
    obtain ⟨hlt, -⟩ := List.getElem?_eq_some_iff.1 (List.mem_zipIdx_iff_getElem?.1 hmem)
    exact hlt

theorem markMembers_path (members : List MarkedEntry) :
    (markMembers members).map (fun f => f.path) = members.map fun f => f.path := by
  unfold markMembers
  rw [List.map_map]
  show members.zipIdx.map ((fun f : MarkedEntry => f.path) ∘ Prod.fst) = _
  rw [← List.map_map, List.zipIdx_map_fst]

/-- One fate for every member. -/
theorem markMembers_fate {members : List MarkedEntry} {f : MarkedEntry}
    (h : f ∈ markMembers members) :
    (f.isKeeper = true ∧ f.action = none) ∨ (f.isKeeper = false ∧ f.action = some .delete) := by
  obtain ⟨m, -, rfl⟩ := List.mem_map.1 h
  by_cases hk : m.2 = pickKeeper members
  · exact .inl (by simp [hk])
  · exact .inr (by simp [hk])

/-- One member is kept, and every other one has the fate of a target. -/
theorem markMembers_keeper {members : List MarkedEntry} (h : members ≠ []) :
    ∃ keeper ∈ markMembers members, keeper.isKeeper = true ∧ keeper.action = none ∧
      ∀ f ∈ markMembers members, f.path ≠ keeper.path → f.isKeeper = false ∧
        f.action = some .delete := by
  have hlt := pickKeeper_lt h
  have hget := List.getElem?_eq_getElem hlt
  have hmem : (members[pickKeeper members], pickKeeper members) ∈ members.zipIdx :=
    List.mem_zipIdx_iff_getElem?.2 hget
  refine ⟨_, List.mem_map_of_mem hmem, by simp, by simp, ?_⟩
  intro f hf hne
  obtain ⟨⟨m, i⟩, hm, rfl⟩ := List.mem_map.1 hf
  have hi : i ≠ pickKeeper members := by
    rintro rfl
    apply hne
    have := List.mem_zipIdx_iff_getElem?.1 hm
    rw [hget] at this
    cases this
    rfl
  simp [hi]

/-- One keeper among the pathnames of a group, and a Delete mark on every other. -/
def GroupMarked (scanId : Int) (texts : List Bytes) (rows : List MarkRow) : Prop :=
  ∃ keeper ∈ texts, markAt scanId keeper rows = .ok (some .keeper) ∧
    ∀ t ∈ texts, t ≠ keeper → markAt scanId t rows = .ok (some (.act .delete))

theorem GroupMarked.congr {scanId : Int} {texts : List Bytes} {rows rows' : List MarkRow}
    (h : GroupMarked scanId texts rows)
    (hsame : ∀ t ∈ texts, findMark scanId t rows' = findMark scanId t rows) :
    GroupMarked scanId texts rows' := by
  obtain ⟨keeper, hk, hkeeper, hothers⟩ := h
  refine ⟨keeper, hk, ?_, fun t ht hne => ?_⟩
  · rw [markAt_congr (hsame keeper hk)]
    exact hkeeper
  · rw [markAt_congr (hsame t ht)]
    exact hothers t ht hne

/-- The pathname is marked for deletion. -/
def isDeleted (scanId : Int) (rows : List MarkRow) (text : Bytes) : Bool :=
  decide (markAt scanId text rows = .ok (some (.act .delete)))

/-! ## One chunk -/

/-- What a chunk's read found: the members of each of its groups. -/
theorem gatherChunk_ok {s : Snapshot} {rows : List MarkRow}
    {fault : GroupId → Option MembershipMiss} {ids : List GroupId} :
    ∀ {batch : List MarkedEntry}, gatherChunk s rows fault ids = .ok batch →
      ∃ groups : List (List MarkedEntry),
        List.Forall₂ (fun id members => s.group rows id = .ok members) ids groups ∧
          batch = groups.flatMap markMembers := by
  induction ids with
  | nil => intro batch h; cases h; exact ⟨[], .nil, rfl⟩
  | cons id ids ih =>
    intro batch h
    unfold gatherChunk at h
    split at h
    · cases h
    rename_i members hread
    split at h
    · cases h
    rename_i rest hrest
    cases h
    obtain ⟨groups, hgroups, rfl⟩ := ih hrest
    refine ⟨members :: groups, .cons ?_ hgroups, rfl⟩
    unfold orFault at hread
    split at hread
    · cases hread
    · exact hread

section Chunk

variable {s : Snapshot} {rows : List MarkRow} {ids : List GroupId}
  {groups : List (List MarkedEntry)}

theorem gathered_paths
    (h : List.Forall₂ (fun id members => s.group rows id = .ok members) ids groups) :
    (groups.flatMap markMembers).map (fun f => f.path) =
      ids.flatMap fun id => s.memberTexts id.rank := by
  induction h with
  | nil => rfl
  | cons hread _ ih =>
    rw [List.flatMap_cons, List.flatMap_cons, List.map_append, ih, markMembers_path,
      (Snapshot.group_ok hread).2.2.1]

theorem gathered_utf8
    (h : List.Forall₂ (fun id members => s.group rows id = .ok members) ids groups)
    {f : MarkedEntry} (hf : f ∈ groups.flatMap markMembers) : lossyUtf8 f.path = f.path := by
  obtain ⟨members, hmembers, hf⟩ := List.mem_flatMap.1 hf
  obtain ⟨id, -, hread⟩ := exists_of_forall₂_right h members hmembers
  have hpath : f.path ∈ members.map fun f => f.path := by
    rw [← markMembers_path]
    exact List.mem_map_of_mem hf
  obtain ⟨g, hg, heq⟩ := List.mem_map.1 hpath
  rw [← heq]
  exact lossyUtf8_of_isUtf8 _ ((Snapshot.group_ok hread).2.2.2.2 g hg)

/-- The pathnames of a chunk are distinct for the writer. -/
theorem gathered_distinct (hp : Published s.tables)
    (h : List.Forall₂ (fun id members => s.group rows id = .ok members) ids groups)
    (hnodup : (ids.flatMap fun id => s.memberTexts id.rank).Nodup) :
    (groups.flatMap markMembers).Pairwise fun a b => samePathBuf a.path b.path = false := by
  have hpaths := gathered_paths h
  have hpair : (groups.flatMap markMembers).Pairwise fun a b => a.path ≠ b.path := by
    rw [← hpaths] at hnodup
    exact List.pairwise_map.1 hnodup
  have hstored : ∀ f ∈ groups.flatMap markMembers, ∃ r ∈ s.tables.file, r.path = .text f.path := by
    intro f hf
    have hmem : f.path ∈ ids.flatMap fun id => s.memberTexts id.rank := by
      rw [← hpaths]
      exact List.mem_map_of_mem hf
    obtain ⟨id, -, hid⟩ := List.mem_flatMap.1 hmem
    obtain ⟨r, hr, hrp⟩ := mem_memberTexts.1 hid
    exact ⟨r, member_file hr, hrp⟩
  refine hpair.imp_of_mem fun {a b} ha hb hne => ?_
  rw [Bool.eq_false_iff]
  intro hsame
  obtain ⟨ra, hra, hpa⟩ := hstored a ha
  obtain ⟨rb, hrb, hpb⟩ := hstored b hb
  exact hne (hp.spelling ra hra rb hrb _ _ hpa hpb hsame)

end Chunk

/-! ## The loop -/

/-- The invariant of the loop: `done` are the groups of the committed chunks. -/
structure Swept (s : Snapshot) (before : List MarkRow) (done : List GroupId) (p : SweepProgress)
    (rows : List MarkRow) : Prop where
  groups : p.committedGroups = done.length
  last : ∀ id, done.getLast? = some id → p.lastRank = id.rank
  marked : ∀ id ∈ done, GroupMarked s.scanId (s.memberTexts id.rank) rows
  deleted : p.marks =
    (done.flatMap fun id => s.memberTexts id.rank).countP (isDeleted s.scanId rows)
  others : ∀ scan t, ¬(scan = s.scanId ∧ ∃ id ∈ done, t ∈ s.memberTexts id.rank) →
    findMark scan t rows = findMark scan t before
  empty : done = [] → rows = before

theorem Swept.start (s : Snapshot) (rows : List MarkRow) : Swept s rows [] .start rows :=
  ⟨rfl, by simp, by simp, rfl, fun _ _ _ => rfl, fun _ => rfl⟩

theorem isDeleted_congr {scanId : Int} {rows rows' : List MarkRow} {t : Bytes}
    (h : findMark scanId t rows' = findMark scanId t rows) :
    isDeleted scanId rows' t = isDeleted scanId rows t := by
  unfold isDeleted
  rw [markAt_congr h]

/-- **One committed chunk** keeps the invariant. -/
theorem Swept.commit {s : Snapshot} {before rows after : List MarkRow} {done chunk : List GroupId}
    {p : SweepProgress} {groups : List (List MarkedEntry)} {image : List (Bytes × Option MarkIntent)}
    {fault : Option MarkWriteError} (hp : Published s.tables) (hmode : s.mode ≠ .unknown)
    (hv : Validated s.tables s.scanId s.mode s.generation s.inconsistentRanks)
    (h : Swept s before done p rows) (hchunk : chunk ≠ [])
    (hnodup : ((done ++ chunk).flatMap fun id => s.memberTexts id.rank).Nodup)
    (hread : List.Forall₂ (fun id members => s.group rows id = .ok members) chunk groups)
    (hsave : saveMarksSettled fault s.scanId s.tables.file (groups.flatMap markMembers) rows =
      (.ok image, after)) :
    Swept s before (done ++ chunk)
      (p.commit chunk ((groups.flatMap markMembers).countP fun f => f.action.isSome)) after := by
  rw [List.flatMap_append, List.nodup_append] at hnodup
  obtain ⟨-, hnodupChunk, hdisjoint⟩ := hnodup
  have hpaths := gathered_paths hread
  -- what the write left
  obtain ⟨hown, hother⟩ :
      (∀ f ∈ groups.flatMap markMembers,
        findMark s.scanId f.path after = some (f.row s.scanId)) ∧
      ∀ scan t, ¬(scan = s.scanId ∧ ∃ id ∈ chunk, t ∈ s.memberTexts id.rank) →
        findMark scan t after = findMark scan t rows := by
    have hlossy : (groups.flatMap markMembers).map (fun f => lossyUtf8 f.path) =
        (groups.flatMap markMembers).map fun f => f.path :=
      List.map_congr_left fun f hf => gathered_utf8 hread hf
    unfold saveMarksSettled at hsave
    split at hsave
    · cases hsave
    split at hsave
    · cases hsave
    rename_i wanted hwanted
    split at hsave
    · cases hsave
    rename_i written hwritten
    split at hsave
    · cases hsave
    cases hsave
    have hall : wanted = groups.flatMap markMembers :=
      wantedFrom_ok (gathered_distinct hp hread hnodupChunk) hwanted
    rw [hall] at hwritten
    have hmarked : ∀ f ∈ groups.flatMap markMembers, ¬(f.isKeeper = false ∧ f.action = none) := by
      intro f hf hnone
      obtain ⟨members, -, hf⟩ := List.mem_flatMap.1 hf
      rcases markMembers_fate hf with ⟨hk, -⟩ | ⟨-, ha⟩
      · rw [hk] at hnone; cases hnone.1
      · rw [ha] at hnone; cases hnone.2
    obtain ⟨hown, hother⟩ := writeMarks_ok hwritten hmarked (by rw [hlossy, hpaths]; exact hnodupChunk)
    constructor
    · intro f hf
      have := hown f hf
      rwa [gathered_utf8 hread hf] at this
    · intro scan t hne
      apply hother
      rintro ⟨hscan, f, hf, rfl⟩
      apply hne
      rw [gathered_utf8 hread hf]
      have hmem : f.path ∈ chunk.flatMap fun id => s.memberTexts id.rank := by
        rw [← hpaths]
        exact List.mem_map_of_mem hf
      exact ⟨hscan, List.mem_flatMap.1 hmem⟩
  -- the groups of earlier chunks keep their rows
  have hkept : ∀ t ∈ done.flatMap fun id => s.memberTexts id.rank,
      findMark s.scanId t after = findMark s.scanId t rows := by
    intro t ht
    apply hother
    rintro ⟨-, id, hid, htid⟩
    exact hdisjoint t ht t (List.mem_flatMap.2 ⟨id, hid, htid⟩) rfl
  refine ⟨?_, ?_, ?_, ?_, ?_, fun hnil => absurd (List.append_eq_nil_iff.1 hnil).2 hchunk⟩
  · show p.committedGroups + chunk.length = _
    rw [h.groups, List.length_append]
  · intro id hlast
    rw [List.getLast?_append_of_ne_nil _ hchunk] at hlast
    show (chunk.getLast?.map GroupId.rank).getD p.lastRank = id.rank
    rw [hlast]
    rfl
  · intro id hid
    rcases List.mem_append.1 hid with hid | hid
    · exact (h.marked id hid).congr fun t ht => hkept t (List.mem_flatMap.2 ⟨id, hid, ht⟩)
    · -- a group of this chunk
      obtain ⟨members, hmem, hgroup⟩ := exists_of_forall₂_left hread id hid
      have htexts : (markMembers members).map (fun f => f.path) = s.memberTexts id.rank := by
        rw [markMembers_path, (Snapshot.group_ok hgroup).2.2.1]
      have hin : ∀ f ∈ markMembers members, f ∈ groups.flatMap markMembers :=
        fun f hf => List.mem_flatMap.2 ⟨members, hmem, hf⟩
      obtain ⟨keeper, hk, hkeeper, haction, hothers⟩ :=
        markMembers_keeper (members_ne_nil hp hmode hv hgroup)
      refine ⟨keeper.path, htexts ▸ List.mem_map_of_mem hk, ?_, ?_⟩
      · have hrow := hown keeper (hin keeper hk)
        rw [← gathered_utf8 hread (hin keeper hk)] at hrow ⊢
        exact markAt_keeper hrow hkeeper haction
      · intro t ht hne
        rw [← htexts] at ht
        obtain ⟨f, hf, rfl⟩ := List.mem_map.1 ht
        obtain ⟨hfk, hfa⟩ := hothers f hf hne
        have hrow := hown f (hin f hf)
        rw [← gathered_utf8 hread (hin f hf)] at hrow ⊢
        exact markAt_action hrow hfk hfa
  · show p.marks + _ = _
    rw [List.flatMap_append, List.countP_append, h.deleted]
    congr 1
    · exact (List.countP_congr fun t ht => by rw [isDeleted_congr (hkept t ht)])
    · rw [← hpaths, List.countP_map]
      apply List.countP_congr
      intro f hf
      have hrow := hown f hf
      rw [← gathered_utf8 hread hf] at hrow
      obtain ⟨members, -, hfm⟩ := List.mem_flatMap.1 hf
      rcases markMembers_fate hfm with ⟨hfk, hfa⟩ | ⟨hfk, hfa⟩
      · have := markAt_keeper hrow hfk hfa
        rw [gathered_utf8 hread hf] at this
        simp [isDeleted, this, hfa]
      · have := markAt_action hrow hfk hfa
        rw [gathered_utf8 hread hf] at this
        simp [isDeleted, this, hfa]
  · intro scan t hne
    rw [hother, h.others]
    · rintro ⟨hscan, id, hid, ht⟩
      exact hne ⟨hscan, id, List.mem_append_left _ hid, ht⟩
    · rintro ⟨hscan, id, hid, ht⟩
      exact hne ⟨hscan, id, List.mem_append_right _ hid, ht⟩

/-- How the end of a sweep reads the counters; `all` says that no chunk is left. -/
def SweepEnd.Reads (p : SweepProgress) (all : Prop) : SweepEnd → Prop
  | unknown => False
  | done groups marks => groups = p.committedGroups ∧ marks = p.marks ∧ all
  | cancelledEarly => p.committedSoFar = none
  | cancelledAfter groups lastRank => p.committedSoFar = some (groups, lastRank)
  | failed committed _ => committed = p.committedSoFar

theorem SweepProgress.cancelled_reads (p : SweepProgress) (all : Prop) :
    p.cancelled.Reads p all := by
  unfold SweepProgress.cancelled
  split
  · assumption
  · assumption

/-- **The loop over the chunks** commits a prefix of them and reports that prefix. -/
theorem swept_chunks {db : Database} {faults : SweepFaults} {scanId : Int} {s : Snapshot}
    {before : List MarkRow} (hsnap : membershipSnapshot db scanId = .ok s)
    (hp : Published s.tables) (hmode : s.mode ≠ .unknown) {chunks : List (List GroupId)} :
    ∀ {index : Nat} {p : SweepProgress} {done : List GroupId} {rows after : List MarkRow}
      {e : SweepEnd}, Swept s before done p rows → (∀ c ∈ chunks, c ≠ []) →
      ((done ++ chunks.flatten).flatMap fun id => s.memberTexts id.rank).Nodup →
      sweepChunks db faults scanId index p chunks rows = (e, after) →
      ∃ committed rest p', committed ++ rest = chunks.flatten ∧
        Swept s before (done ++ committed) p' after ∧ e.Reads p' (rest = []) := by
  obtain ⟨htables, hscan, hvalid⟩ := membershipSnapshot_ok hsnap
  have hv := hvalid hmode
  induction chunks with
  | nil =>
    intro index p done rows after e h _ _ hrun
    cases hrun
    exact ⟨[], [], p, rfl, by rwa [List.append_nil], rfl, rfl, rfl⟩
  | cons chunk chunks ih =>
    intro index p done rows after e h hne hnodup hrun
    -- what a chunk that is not committed leaves
    have hcut : e.Reads p ((chunk :: chunks).flatten = []) → after = rows →
        ∃ committed rest p', committed ++ rest = (chunk :: chunks).flatten ∧
          Swept s before (done ++ committed) p' after ∧ e.Reads p' (rest = []) := by
      rintro hreads rfl
      exact ⟨[], (chunk :: chunks).flatten, p, rfl, by rwa [List.append_nil], hreads⟩
    unfold sweepChunks at hrun
    split at hrun
    · cases hrun
      exact hcut (p.cancelled_reads _) rfl
    split at hrun
    · cases hrun
      exact hcut rfl rfl
    rename_i s' hsnap'
    have hsame : s' = s := by
      unfold orFault at hsnap'
      split at hsnap'
      · cases hsnap'
      · rw [hsnap] at hsnap'; exact (Except.ok.inj hsnap').symm
    subst hsame
    split at hrun
    · cases hrun
      exact hcut rfl rfl
    rename_i batch hgather
    obtain ⟨groups, hread, rfl⟩ := gatherChunk_ok hgather
    cases hsave : saveMarksSettled (faults.write index) scanId (db.tables scanId).file
        (groups.flatMap markMembers) rows with
    | mk result rows₁ =>
      rw [hsave] at hrun
      cases result with
      | error e' =>
        have hrolled := saveMarksSettled_error (congrArg Prod.fst hsave)
        rw [hsave] at hrolled
        simp only at hrun hrolled
        cases hrun
        exact hcut rfl hrolled
      | ok image =>
        simp only at hrun
        have hflat : (chunk :: chunks).flatten = chunk ++ chunks.flatten := rfl
        rw [hflat, ← List.append_assoc] at hnodup
        have hnodupChunk : ((done ++ chunk).flatMap fun id => s'.memberTexts id.rank).Nodup := by
          rw [List.flatMap_append] at hnodup
          exact (List.nodup_append.1 hnodup).1
        rw [← htables, ← hscan] at hsave
        have hnext := h.commit hp hmode hv (hne chunk List.mem_cons_self) hnodupChunk hread hsave
        obtain ⟨committed, rest, p', hsplit, hswept, hreads⟩ :=
          ih hnext (fun c hc => hne c (List.mem_cons_of_mem _ hc)) hnodup hrun
        refine ⟨chunk ++ committed, rest, p', ?_, ?_, hreads⟩
        · rw [List.append_assoc, hsplit, hflat]
        · rw [← List.append_assoc]
          exact hswept

/-! ## The groups of a publication -/

theorem readSummaries_ok {rows : List GroupRow} : ∀ {summaries : List (Int × Nat)},
    readSummaries rows = .ok summaries →
      List.Forall₂ (fun g r => g.rank = .integer r.1) rows summaries := by
  induction rows with
  | nil => intro summaries h; cases h; exact .nil
  | cons g rows ih =>
    intro summaries h
    unfold readSummaries at h
    split at h
    · cases h
    rename_i summary hsummary
    split at h
    · cases h
    rename_i rest hrest
    cases h
    refine .cons ?_ (ih hrest)
    -- the first cell that is read is the rank
    unfold readSummary at hsummary
    simp only at hsummary
    split at hsummary
    · cases hsummary
    rename_i rank count reclaim state hcells
    split at hsummary
    · cases hsummary
    cases hsummary
    split at hcells
    · cases hcells
    · cases hcells
    · cases hcells
    · cases hcells
    rename_i hrank _ _ _
    split at hcells
    · cases hcells
    · cases hcells
    · cases hcells
    cases hcells
    exact getInteger_ok.1 hrank

/-- The identities are the groups of the publication, in rank order. -/
theorem summaryIds_ok {s : Snapshot} (hkeyed : s.tables.Keyed) {ids : List GroupId}
    (h : s.summaryIds = .ok ids) :
    ids.Pairwise (fun a b => a.rank < b.rank) ∧
      ∀ g ∈ s.tables.fileGroup, ∃ id ∈ ids, g.rank = .integer id.rank := by
  unfold Snapshot.summaryIds at h
  split at h
  · cases h
  split at h
  · cases h
  rename_i summaries hread
  cases h
  have hranks := readSummaries_ok hread
  have hsorted := Sql.orderBy_sorted (fun g : GroupRow => g.rank.key) s.tables.fileGroup
  have hdistinct : (Sql.orderBy (fun g : GroupRow => g.rank.key) s.tables.fileGroup).Pairwise
      fun a b => Value.same a.rank b.rank = false :=
    (Sql.orderBy_perm _ _).symm.pairwise hkeyed.ranks fun {a b} h => by
      rw [Value.same_comm]
      exact h
  constructor
  · rw [List.pairwise_map]
    have hboth := hsorted.and hdistinct
    generalize Sql.orderBy (fun g : GroupRow => g.rank.key) s.tables.fileGroup = rows at hranks hboth
    clear hread hsorted hdistinct
    induction hranks with
    | nil => exact .nil
    | @cons g r rows summaries hg hrest ih =>
      rw [List.pairwise_cons] at hboth ⊢
      refine ⟨fun r' hr' => ?_, ih hboth.2⟩
      obtain ⟨g', hg', hrank⟩ := exists_of_forall₂_right hrest r' hr'
      obtain ⟨hle, hne⟩ := hboth.1 g' hg'
      rw [hg, hrank] at hle hne
      rw [Bool.eq_false_iff, ne_eq, Value.same_integer] at hne
      have hle' : r.1 ≤ r'.1 := by
        rw [Value.key, Value.key, Prod.Lex.toLex_le_toLex] at hle
        rcases hle with hlt | ⟨-, hle⟩
        · exact absurd hlt (lt_irrefl _)
        · rw [Prod.Lex.toLex_le_toLex] at hle
          have hcast : (r.1 : ℚ) ≤ r'.1 := by
            rcases hle with hlt | ⟨heq, -⟩
            · exact le_of_lt hlt
            · exact le_of_eq heq
          exact_mod_cast hcast
      exact lt_of_le_of_ne hle' hne
  · intro g hg
    obtain ⟨r, hr, hrank⟩ := exists_of_forall₂_left hranks g (Sql.mem_orderBy.2 hg)
    exact ⟨_, List.mem_map_of_mem hr, hrank⟩

/-- No pathname stands twice among the groups of a publication. -/
theorem nodup_texts {s : Snapshot} (hp : Published s.tables) (hmode : s.mode ≠ .unknown)
    (hv : Validated s.tables s.scanId s.mode s.generation s.inconsistentRanks)
    {ids : List GroupId} (hids : ids.Pairwise fun a b => a.rank < b.rank) :
    (ids.flatMap fun id => s.memberTexts id.rank).Nodup := by
  rw [List.nodup_flatMap]
  refine ⟨fun id _ => nodup_memberTexts hp hmode hv id.rank, hids.imp fun {a b} hlt => ?_⟩
  rw [Function.onFun, List.disjoint_left]
  intro t ht ht'
  exact absurd (rank_unique hp hmode hv ht ht') (ne_of_lt hlt)

/-! ## The report -/

/-- How many groups an outcome says are durable. -/
def AutoSelectOutcome.committed : AutoSelectOutcome → Nat
  | completed groups _ => groups
  | partialSweep groups _ _ => groups
  | refused _ => 0

/-- What a report says of the groups `ids` of a snapshot: the first ones, as many as it counts, are
    marked as the sweep marks them, and everything else is as it was. -/
structure Reported (s : Snapshot) (ids : List GroupId) (before : List MarkRow)
    (outcome : AutoSelectOutcome) (after : List MarkRow) : Prop where
  sorted : ids.Pairwise fun a b => a.rank < b.rank
  every : ∀ g ∈ s.tables.fileGroup, ∃ id ∈ ids, g.rank = .integer id.rank
  within : outcome.committed ≤ ids.length
  completed : ∀ groups marks, outcome = .completed groups marks → groups = ids.length ∧
    marks = (ids.flatMap fun id => s.memberTexts id.rank).countP (isDeleted s.scanId after)
  last : ∀ groups rank cause, outcome = .partialSweep groups rank cause →
    0 < groups ∧ ∃ id, (ids.take groups).getLast? = some id ∧ rank = id.rank
  marked : ∀ id ∈ ids.take outcome.committed, GroupMarked s.scanId (s.memberTexts id.rank) after
  untouched : ∀ id ∈ ids.drop outcome.committed, ∀ t ∈ s.memberTexts id.rank,
    findMark s.scanId t after = findMark s.scanId t before
  others : ∀ scan t,
    ¬(scan = s.scanId ∧ ∃ id ∈ ids.take outcome.committed, t ∈ s.memberTexts id.rank) →
      findMark scan t after = findMark scan t before

/-- The end of the loop, read as an outcome. -/
theorem SweepEnd.Reads.outcome {p : SweepProgress} {all : Prop} {e : SweepEnd}
    (h : e.Reads p all) :
    e.outcome.committed = p.committedGroups ∧
      (∀ groups marks, e.outcome = .completed groups marks → marks = p.marks ∧ all) ∧
      ∀ groups rank cause, e.outcome = .partialSweep groups rank cause →
        0 < groups ∧ groups = p.committedGroups ∧ rank = p.lastRank := by
  have hsome : ∀ {groups rank}, p.committedSoFar = some (groups, rank) →
      0 < groups ∧ groups = p.committedGroups ∧ rank = p.lastRank := by
    intro groups rank hsofar
    unfold SweepProgress.committedSoFar at hsofar
    split at hsofar
    · cases hsofar
    · cases hsofar
      exact ⟨by omega, rfl, rfl⟩
  have hnone : p.committedSoFar = none → p.committedGroups = 0 := by
    intro hsofar
    unfold SweepProgress.committedSoFar at hsofar
    split at hsofar
    · assumption
    · cases hsofar
  cases e with
  | unknown => exact h.elim
  | done groups marks =>
    obtain ⟨rfl, rfl, hall⟩ := h
    refine ⟨rfl, fun g m heq => ?_, fun _ _ _ heq => by cases heq⟩
    cases heq
    exact ⟨rfl, hall⟩
  | cancelledEarly =>
    exact ⟨(hnone h).symm, fun _ _ heq => (by cases heq), fun _ _ _ heq => by cases heq⟩
  | cancelledAfter groups lastRank =>
    refine ⟨(hsome h).2.1, fun _ _ heq => (by cases heq), fun _ _ _ heq => ?_⟩
    cases heq
    exact hsome h
  | failed committed failure =>
    cases committed with
    | none =>
      refine ⟨(hnone h.symm).symm, fun _ _ heq => ?_, fun _ _ _ heq => ?_⟩
      · cases heq
      · cases heq
    | some c =>
      refine ⟨(hsome h.symm).2.1, fun _ _ heq => ?_, fun _ _ _ heq => ?_⟩
      · cases heq
      · cases heq
        exact hsome h.symm

/-- **The report of a sweep describes the durable marks**, wherever it was stopped and whichever of
    its calls failed. -/
theorem auto_select_reports {db : Database} {scanId : Int} (hp : Published (db.tables scanId))
    (faults : SweepFaults) (before : List MarkRow) :
    let outcome := (autoSelect db faults scanId before).1
    let after := (autoSelect db faults scanId before).2
    (∀ refusal, outcome = .refused refusal → after = before) ∧
      ((∀ refusal, outcome ≠ .refused refusal) → ∃ s ids,
        membershipSnapshot db scanId = .ok s ∧ s.summaryIds = .ok ids ∧
          Reported s ids before outcome after) := by
  have hearly : ∀ {outcome : AutoSelectOutcome} {after : List MarkRow} {refusal : AutoSelectRefusal},
      outcome = .refused refusal → after = before →
      (∀ refusal, outcome = .refused refusal → after = before) ∧
        ((∀ refusal, outcome ≠ .refused refusal) → ∃ s ids,
          membershipSnapshot db scanId = .ok s ∧ s.summaryIds = .ok ids ∧
            Reported s ids before outcome after) :=
    fun hrefused hsame => ⟨fun _ _ => hsame, fun h => absurd hrefused (h _)⟩
  unfold autoSelect runSweep
  split
  rename_i e after hrun
  simp only
  split at hrun
  · cases hrun
    exact hearly rfl rfl
  rename_i s hread
  have hsnap : membershipSnapshot db scanId = .ok s := by
    unfold orFault at hread
    split at hread
    · cases hread
    · exact hread
  split at hrun
  · cases hrun
    exact hearly rfl rfl
  rename_i hmode
  split at hrun
  · cases hrun
    exact hearly rfl rfl
  rename_i ids hids
  obtain ⟨htables, hscan, hvalid⟩ := membershipSnapshot_ok hsnap
  have hp' : Published s.tables := htables ▸ hp
  have hv := hvalid hmode
  obtain ⟨hsorted, hevery⟩ := summaryIds_ok hp'.keyed hids
  have hnodup := nodup_texts hp' hmode hv hsorted
  have hflat := Chunks.flatten_chunks (saveChunkGroups - 1) ids
  obtain ⟨committed, rest, p, hsplit, hswept, hreads⟩ := swept_chunks hsnap hp' hmode
    (Swept.start s before) (fun c hc => Chunks.ne_nil_of_mem_chunks hc)
    (by rw [List.nil_append, hflat]; exact hnodup) hrun
  rw [hflat] at hsplit
  rw [List.nil_append] at hswept
  subst hsplit
  obtain ⟨hcount, hcompleted, hpartial⟩ := hreads.outcome
  rw [hswept.groups] at hcount
  have htake : (committed ++ rest).take e.outcome.committed = committed := by
    rw [hcount, List.take_left]
  have hdrop : (committed ++ rest).drop e.outcome.committed = rest := by
    rw [hcount, List.drop_left]
  constructor
  · intro refusal hrefused
    apply hswept.empty
    rw [hrefused] at hcount
    exact List.length_eq_zero_iff.1 hcount.symm
  · intro _
    refine ⟨s, committed ++ rest, hsnap, hids, hsorted, hevery, ?_, ?_, ?_, ?_, ?_, ?_⟩
    · rw [hcount, List.length_append]
      omega
    · intro groups marks heq
      obtain ⟨hmarks, hall⟩ := hcompleted groups marks heq
      rw [heq] at hcount
      subst hall
      rw [List.append_nil]
      exact ⟨hcount, hmarks.trans hswept.deleted⟩
    · intro groups rank cause heq
      obtain ⟨hpos, hgroups, hrank⟩ := hpartial groups rank cause heq
      have hlength : groups = committed.length := hgroups.trans hswept.groups
      rw [hlength, List.take_left]
      have hne : committed ≠ [] := by
        intro hnil
        rw [hnil, List.length_nil] at hlength
        omega
      refine ⟨hlength ▸ hpos, _, List.getLast?_eq_some_getLast hne, ?_⟩
      exact hrank.trans (hswept.last _ (List.getLast?_eq_some_getLast hne))
    · rw [htake]
      exact hswept.marked
    · -- a later group shares no pathname with a committed one
      rw [hdrop]
      intro id hid t ht
      apply hswept.others
      rintro ⟨-, id', hid', ht'⟩
      have hrank := rank_unique hp' hmode hv ht' ht
      have hlt := (List.pairwise_append.1 hsorted).2.2 id' hid' id hid
      omega
    · rw [htake]
      exact hswept.others

/-- A derived publication of one group: `/a` and `/b` share a digest. -/
def twinTables : ScanTables :=
  let digest : Bytes := List.replicate 32 170
  { file :=
      [⟨.text [47, 97], .integer 2, 10, 0, 10, 0, 1, 7, 1, .integer 1, .blob digest⟩,
        ⟨.text [47, 98], .integer 2, 20, 0, 20, 0, 1, 7, 9, .integer 1, .blob digest⟩]
    fileGroup :=
      [⟨1, .integer 0, .text (Sql.hexText digest), .integer 2, .integer 2, .integer 2, .integer 2,
        .integer 1⟩]
    member := []
    membership := some (.integer 1, .integer 5)
    stats := none }

def twinDatabase : Database := ⟨fun _ => true, fun _ => twinTables⟩

theorem twinTables_published : Published twinTables where
  keyed := ⟨by decide, by decide⟩
  spelling := by
    intro f hf g hg a b ha hb hsame
    simp only [twinTables, List.mem_cons, List.not_mem_nil, or_false] at hf hg
    rcases hf with rfl | rfl <;> rcases hg with rfl | rfl <;> cases ha <;> cases hb
    · rfl
    · exact absurd hsame (by decide)
    · exact absurd hsame (by decide)
    · rfl
  digest := by
    intro g hg
    exact ⟨List.replicate 32 170, by rw [List.mem_singleton.1 hg]⟩
  populated := by decide

/-- Nothing stops the sweep and no call fails. -/
def SweepFaults.quiet : SweepFaults :=
  ⟨fun _ => false, none, fun _ => none, fun _ => none, fun _ => none⟩

/-- A sweep over one group reports one group. -/
theorem auto_select_reports_twin :
    (autoSelect twinDatabase .quiet 1 []).1.committed = 1 ∧
    ∃ s ids, membershipSnapshot twinDatabase 1 = .ok s ∧ s.summaryIds = .ok ids ∧
      Reported s ids [] (autoSelect twinDatabase .quiet 1 []).1
        (autoSelect twinDatabase .quiet 1 []).2 := by
  have hrun : (autoSelect twinDatabase .quiet 1 []).1.committed = 1 := by decide
  refine ⟨hrun, (auto_select_reports twinTables_published .quiet []).2 fun refusal hrefused => ?_⟩
  rw [hrefused] at hrun
  cases hrun

end DedupCommando
